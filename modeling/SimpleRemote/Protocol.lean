import SimpleRemote.Library.ByteCodec

namespace SimpleRemote
open ByteCodec

abbrev Duration := Nat

abbrev Instant := Nat

def Duration.fromSecs (s : Nat) : Duration := s * 1000000000

def Duration.fromMillis (ms : Nat) : Duration := ms * 1000000

def PROTOCOL_VERSION : UInt32 := 1

structure Timeouts where
  signalingStep : Duration
  connect : Duration
  approval : Duration

def Timeouts.default : Timeouts where
  signalingStep := Duration.fromSecs 15
  connect := Duration.fromSecs 10
  approval := Duration.fromSecs 30

inductive Stage where
  | join | pake | answer | connect | hello | decision | ping
  deriving DecidableEq, Repr

inductive DecodeError where
  | tooLarge (len max : Nat)
  | postcard
  deriving DecidableEq, Repr

inductive PakeMsg where
  | start (pa : Bytes)
  | reply (pb macB : Bytes)
  | confirm (macA sealedOffer : Bytes)
  | answer (sealedAnswer : Bytes)
  | retryAfter (ms : UInt64)
  | rejected
  deriving DecidableEq, Repr

namespace PakeMsg

def index : PakeMsg → Nat
  | .start _ => 0
  | .reply _ _ => 1
  | .confirm _ _ => 2
  | .answer _ => 3
  | .retryAfter _ => 4
  | .rejected => 5

def fields : PakeMsg → Bytes
  | .start pa => bytes.write pa
  | .reply pb macB => (bytes.pair bytes).write (pb, macB)
  | .confirm macA sealedOffer => (bytes.pair bytes).write (macA, sealedOffer)
  | .answer sealedAnswer => bytes.write sealedAnswer
  | .retryAfter ms => u64.write ms
  | .rejected => []

def encode (msg : PakeMsg) : Bytes := tag.write msg.index ++ msg.fields

def readFields (b : Bytes) : Nat → Option PakeMsg
  | 0 => (bytes.read b).map fun (pa, _) => .start pa
  | 1 => ((bytes.pair bytes).read b).map fun ((pb, macB), _) => .reply pb macB
  | 2 => ((bytes.pair bytes).read b).map fun ((macA, sealedOffer), _) => .confirm macA sealedOffer
  | 3 => (bytes.read b).map fun (sealedAnswer, _) => .answer sealedAnswer
  | 4 => (u64.read b).map fun (ms, _) => .retryAfter ms
  | 5 => some .rejected
  | _ => none

-- postcard's `from_bytes` ignores the bytes after the message
def decode (b : Bytes) : Except DecodeError PakeMsg :=
  match (tag.read b).bind fun (i, rest) => readFields rest i with
  | some msg => .ok msg
  | none => .error .postcard

def fits : PakeMsg → Prop
  | .start pa => bytes.fits pa
  | .reply pb macB => bytes.fits pb ∧ bytes.fits macB
  | .confirm macA sealedOffer => bytes.fits macA ∧ bytes.fits sealedOffer
  | .answer sealedAnswer => bytes.fits sealedAnswer
  | .retryAfter _ => True
  | .rejected => True

theorem index_lt (msg : PakeMsg) : msg.index < 6 := by
  cases msg <;> simp [index]

theorem readFields_fields (msg : PakeMsg) (h : msg.fits) :
    readFields msg.fields msg.index = some msg := by
  cases msg with
  | start pa =>
      have := bytes.read_write pa [] h
      simp_all [readFields, fields, index]
  | reply pb macB =>
      have := (bytes.pair bytes).read_write (pb, macB) [] h
      simp_all [readFields, fields, index]
  | confirm macA sealedOffer =>
      have := (bytes.pair bytes).read_write (macA, sealedOffer) [] h
      simp_all [readFields, fields, index]
  | answer sealedAnswer =>
      have := bytes.read_write sealedAnswer [] h
      simp_all [readFields, fields, index]
  | retryAfter ms =>
      have := u64.read_write ms [] trivial
      simp_all [readFields, fields, index]
  | rejected => rfl

theorem decode_encode (msg : PakeMsg) (h : msg.fits) : decode (encode msg) = .ok msg := by
  have hi : msg.index < 2 ^ 32 := lt_trans msg.index_lt (by decide)
  rw [decode, encode, tag.read_write _ _ hi]
  simp [readFields_fields msg h]

theorem index_eq_of_encode_eq {m m' : PakeMsg} (h : encode m = encode m') :
    m.index = m'.index := by
  have hi (n : PakeMsg) : n.index < 2 ^ 32 := lt_trans n.index_lt (by decide)
  have hr := congrArg tag.read h
  rw [encode, encode, tag.read_write _ _ (hi m), tag.read_write _ _ (hi m')] at hr
  exact congrArg Prod.fst (Option.some.inj hr)

end PakeMsg

structure Hello where
  protocolVersion : UInt32
  deviceKey : Bytes
  deviceName : Text
  reconnectKey : Bytes
  reconnectKeySig : Bytes
  sessionSig : Bytes
  deriving DecidableEq

inductive RejectReason where
  | denied
  | noResponse
  | versionMismatch (hostVersion : UInt32)
  | badIdentity
  deriving DecidableEq, Repr

inductive Decision where
  | accepted
  | rejected (reason : RejectReason)
  deriving DecidableEq, Repr

inductive Control where
  | hello (h : Hello)
  | decision (d : Decision)
  | ping (seq : UInt64)
  | pong (seq : UInt64)
  deriving DecidableEq

def helloFields : Codec (UInt32 × Bytes × Text × Bytes × Bytes × Bytes) :=
  u32.pair (bytes.pair (text.pair (bytes.pair (bytes.pair bytes))))

def Hello.write (h : Hello) : Bytes :=
  helloFields.write (h.protocolVersion, h.deviceKey, h.deviceName, h.reconnectKey,
    h.reconnectKeySig, h.sessionSig)

def Hello.read (b : Bytes) : Option Hello :=
  (helloFields.read b).map fun ((v, key, name, reconnect, reconnectSig, sig), _) =>
    ⟨v, key, name, reconnect, reconnectSig, sig⟩

def RejectReason.write : RejectReason → Bytes
  | .denied => tag.write 0
  | .noResponse => tag.write 1
  | .versionMismatch v => tag.write 2 ++ u32.write v
  | .badIdentity => tag.write 3

def RejectReason.read (b : Bytes) : Option RejectReason :=
  match tag.read b with
  | some (0, _) => some .denied
  | some (1, _) => some .noResponse
  | some (2, rest) => (u32.read rest).map fun (v, _) => .versionMismatch v
  | some (3, _) => some .badIdentity
  | _ => none

def Decision.write : Decision → Bytes
  | .accepted => tag.write 0
  | .rejected reason => tag.write 1 ++ reason.write

def Decision.read (b : Bytes) : Option Decision :=
  match tag.read b with
  | some (0, _) => some .accepted
  | some (1, rest) => (RejectReason.read rest).map .rejected
  | _ => none

namespace Control

def MAX_CONTROL_BYTES : Nat := 16 * 1024

def encode : Control → Bytes
  | .hello h => tag.write 0 ++ h.write
  | .decision d => tag.write 1 ++ d.write
  | .ping seq => tag.write 2 ++ u64.write seq
  | .pong seq => tag.write 3 ++ u64.write seq

def read (b : Bytes) : Option Control :=
  match tag.read b with
  | some (0, rest) => (Hello.read rest).map .hello
  | some (1, rest) => (Decision.read rest).map .decision
  | some (2, rest) => (u64.read rest).map fun (seq, _) => .ping seq
  | some (3, rest) => (u64.read rest).map fun (seq, _) => .pong seq
  | _ => none

def decode (b : Bytes) : Except DecodeError Control :=
  if MAX_CONTROL_BYTES < b.length then .error (.tooLarge b.length MAX_CONTROL_BYTES)
  else
    match read b with
    | some msg => .ok msg
    | none => .error .postcard

end Control

theorem RejectReason.read_write (r : RejectReason) : RejectReason.read r.write = some r := by
  cases r with
  | versionMismatch v =>
      rw [RejectReason.write, RejectReason.read, tag.read_write 2 _ (by simp [tag])]
      simpa using congrArg (Option.map fun p => RejectReason.versionMismatch p.1)
        (u32.read_write v [] trivial)
  | _ => rfl

theorem Decision.read_write (d : Decision) : Decision.read d.write = some d := by
  cases d with
  | accepted => rfl
  | rejected reason =>
      rw [Decision.write, Decision.read, tag.read_write 1 _ (by simp [tag])]
      simp [RejectReason.read_write]

theorem bytes_fits_of_le {b : Bytes} (h : b.length ≤ Control.MAX_CONTROL_BYTES) : bytes.fits b :=
  lt_of_le_of_lt h (by decide)

theorem Hello.read_write (h : Hello) (hl : h.write.length ≤ Control.MAX_CONTROL_BYTES) :
    Hello.read h.write = some h := by
  have hlen : (u32.write h.protocolVersion).length + ((bytes.write h.deviceKey).length +
      ((text.write h.deviceName).length + ((bytes.write h.reconnectKey).length +
      ((bytes.write h.reconnectKeySig).length + (bytes.write h.sessionSig).length)))) ≤
      Control.MAX_CONTROL_BYTES := by
    simpa [Hello.write, helloFields, Codec.pair] using hl
  have hfits (b : Bytes) (hb : (bytes.write b).length ≤ Control.MAX_CONTROL_BYTES) :
      bytes.fits b := bytes_fits_of_le (le_trans (length_le_write b) hb)
  have hkey : bytes.fits h.deviceKey := hfits _ (by omega)
  have hname : text.fits h.deviceName := by
    refine hfits (utf8 h.deviceName) (le_trans (le_of_eq rfl) (?_ : (text.write h.deviceName).length ≤ _))
    omega
  have hreconnect : bytes.fits h.reconnectKey := hfits _ (by omega)
  have hreconnectSig : bytes.fits h.reconnectKeySig := hfits _ (by omega)
  have hsig : bytes.fits h.sessionSig := hfits _ (by omega)
  have hfits : helloFields.fits (h.protocolVersion, h.deviceKey, h.deviceName, h.reconnectKey,
      h.reconnectKeySig, h.sessionSig) :=
    ⟨trivial, hkey, hname, hreconnect, hreconnectSig, hsig⟩
  have := helloFields.read_write _ [] hfits
  rw [List.append_nil] at this
  rw [Hello.read, Hello.write, this]
  rfl

theorem Control.read_encode (c : Control) (h : (Control.encode c).length ≤ MAX_CONTROL_BYTES) :
    Control.read (Control.encode c) = some c := by
  cases c with
  | hello hi =>
      have hl : hi.write.length ≤ MAX_CONTROL_BYTES := by
        have : hi.write.length ≤ (Control.encode (.hello hi)).length := by simp [Control.encode]
        omega
      rw [Control.encode, Control.read, tag.read_write 0 _ (by simp [tag])]
      simp [Hello.read_write hi hl]
  | decision d =>
      rw [Control.encode, Control.read, tag.read_write 1 _ (by simp [tag])]
      simp [Decision.read_write]
  | ping seq =>
      rw [Control.encode, Control.read, tag.read_write 2 _ (by simp [tag])]
      simpa using congrArg (Option.map fun p => Control.ping p.1) (u64.read_write seq [] trivial)
  | pong seq =>
      rw [Control.encode, Control.read, tag.read_write 3 _ (by simp [tag])]
      simpa using congrArg (Option.map fun p => Control.pong p.1) (u64.read_write seq [] trivial)

theorem Control.decode_encode (c : Control) :
    Control.decode (Control.encode c) =
      if MAX_CONTROL_BYTES < (Control.encode c).length
      then .error (.tooLarge (Control.encode c).length MAX_CONTROL_BYTES) else .ok c := by
  rw [Control.decode]
  split
  · rfl
  · rw [Control.read_encode c (by omega)]

theorem Control.eq_of_decode_encode {c c' : Control}
    (h : Control.decode (Control.encode c) = .ok c') : c' = c := by
  rw [Control.decode_encode] at h
  split at h
  · cases h
  · exact (Except.ok.inj h).symm

theorem Control.decode_seq (seq : UInt64) :
    Control.decode (Control.encode (.ping seq)) = .ok (.ping seq) ∧
    Control.decode (Control.encode (.pong seq)) = .ok (.pong seq) := by
  have hseq := writeVarint_length_le 10 seq.toNat
  have hping := writeVarint_length_le 5 2
  have hpong := writeVarint_length_le 5 3
  constructor
  · rw [Control.decode_encode, if_neg]
    simp only [Control.encode, tag, u64, List.length_append, Control.MAX_CONTROL_BYTES]
    omega
  · rw [Control.decode_encode, if_neg]
    simp only [Control.encode, tag, u64, List.length_append, Control.MAX_CONTROL_BYTES]
    omega

inductive ServerToHost where
  | challenge (nonce id : Text)
  | registered (id : Text)
  | viewerJoined
  | viewerLeft
  | relay (data : Text)
  deriving DecidableEq

inductive HostToServer where
  | auth (sig : Text)
  | relay (data : Text)
  | kick
  deriving DecidableEq

inductive ServerToViewer where
  | joined
  | relay (data : Text)
  | hostLeft
  deriving DecidableEq

inductive ViewerToServer where
  | relay (data : Text)
  deriving DecidableEq

end SimpleRemote
