import SimpleRemote.Meeting.Setting

namespace SimpleRemote
open ByteCodec Interaction

-- a message as the program can hold it: a `Vec` is shorter than 2^64 bytes
abbrev HeldPakeMsg := { msg : PakeMsg // msg.fits }

theorem pake_decode_encode (msg : HeldPakeMsg) :
    PakeMsg.decode (PakeMsg.encode msg.val) = .ok msg.val :=
  PakeMsg.decode_encode msg.val msg.property

theorem encode_length_le {c : Control} (h : Control.decode (Control.encode c) = .ok c) :
    (Control.encode c).length ≤ Control.MAX_CONTROL_BYTES := by
  rw [Control.decode_encode] at h
  split at h
  · cases h
  · omega

-- what `make_hello` builds, with any `protocol_version` put in
def helloOf (C : Crypto) (k : DeviceKeys) (role : Role) (binding : ByteArr 32)
    (ownFp peerFp : Bytes) (version : UInt32) : Hello :=
  { k.makeHello C role binding ownFp peerFp with protocolVersion := version }

-- the control messages that the two programs send
inductive Sent (C : Crypto) : Control → Prop
  | hello (k : DeviceKeys) (role : Role) (binding : ByteArr 32) (ownFp peerFp : Bytes)
      (version : UInt32) : Sent C (.hello (helloOf C k role binding ownFp peerFp version))
  | decision (d : Decision) : Sent C (.decision d)
  | ping (seq : UInt64) : Sent C (.ping seq)
  | pong (seq : UInt64) : Sent C (.pong seq)

theorem Sent.decodes {C : Crypto} {c : Control} (h : Sent C c) :
    Control.decode (Control.encode c) = .ok c := by
  cases h with
  | hello k role binding ownFp peerFp version => exact decode_hello version
  | decision d => exact decode_decision d
  | ping seq => exact (Control.decode_seq seq).1
  | pong seq => exact (Control.decode_seq seq).2

-- the message that one end's `send_relay` puts on the link and the other's `recv_relay` takes off it
structure Relayed (msg : PakeMsg) (data : Text) : Prop where
  hostSends : Exec (sendRelay msg) [⟨.linkSend (.relay data), .ok ()⟩] (.ok ())
  viewerSends : Exec (Viewer.sendRelay msg) [⟨.linkSend (.relay data), .ok ()⟩] (.ok ())
  hostReceives : ∀ t,
    Exec (recvRelay t) [⟨.linkRecv t, .ok (some (.relay data))⟩] (.ok (.msg msg))
  viewerReceives : ∀ t stage,
    Exec (Viewer.recvRelay t stage) [⟨.linkRecv t, .ok (some (.relay data))⟩] (.ok msg)

theorem held_relayed (msg : HeldPakeMsg) : Relayed msg.val (relayText msg.val) where
  hostSends := .cons _ (.nil _)
  viewerSends := .cons _ (.nil _)
  hostReceives := by
    intro t
    refine .cons _ ?_
    dsimp only [Prog.bind]
    rw [host_decodes msg.property]
    exact .nil _
  viewerReceives := by
    intro t stage
    refine .cons _ ?_
    dsimp only [Prog.bind]
    rw [viewer_decodes msg.property]
    exact .nil _

theorem codecs_round_trip (C : Crypto) :
    (∀ msg : HeldPakeMsg, PakeMsg.decode (PakeMsg.encode msg.val) = .ok msg.val) ∧
    (∀ c : Control, Control.decode (Control.encode c) =
      if (Control.encode c).length ≤ 16384 then .ok c
      else .error (.tooLarge (Control.encode c).length 16384)) ∧
    (∀ c, Sent C c → (Control.encode c).length ≤ 16384 ∧
      Control.decode (Control.encode c) = .ok c) ∧
    ∀ msg : HeldPakeMsg, ∃ data, Relayed msg.val data := by
  refine ⟨pake_decode_encode, ?_, ?_, ?_⟩
  · intro c
    rw [Control.decode_encode]
    have hmax : Control.MAX_CONTROL_BYTES = 16384 := rfl
    rw [hmax]
    split
    · rw [if_neg (by omega)]
    · rw [if_pos (by omega)]
  · intro c hsent
    exact ⟨encode_length_le hsent.decodes, hsent.decodes⟩
  · intro msg
    exact ⟨_, held_relayed msg⟩

theorem sample_codecs_round_trip :
    (Control.encode (.hello (helloOf .sample (.sample 9 'v' viewer_name) .viewer (filled 32 1)
      [1] [2] 7))).length ≤ 16384 :=
  ((codecs_round_trip .sample).2.2.1 _ (.hello _ _ _ _ _ _)).1

end SimpleRemote
