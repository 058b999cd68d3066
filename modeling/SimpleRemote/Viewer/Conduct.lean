import SimpleRemote.Library.Handlers
import SimpleRemote.Viewer.Ping

namespace SimpleRemote
open ByteCodec Interaction

namespace Viewer
variable {C : Crypto}

def isFinish (e : Ev ViewerSig) : Bool :=
  match e.op with
  | .finish _ _ => true
  | _ => false

-- the calls of a viewer outside SPAKE2: all that it sends to the peer is its own Hello
def Greets (C : Crypto) (cfg : Config) : Op ViewerToServer → Prop
  | .partyAStart _ _ _ _ => False
  | .finish _ _ => False
  | .peerSend data => ∃ binding ownFp peerFp,
      data = Control.encode (.hello (cfg.keys.makeHello C .viewer binding ownFp peerFp))
  | _ => True

-- a viewer starts SPAKE2 with its own code and finishes it once
def Keeps (C : Crypto) (cfg : Config) (past : List (Ev ViewerSig)) :
    Op ViewerToServer → Prop
  | .partyAStart w idA idB aad => codeScalar C cfg.code = .ok w ∧ idA = VIEWER_ID ∧
      idB = hostIdBytes cfg.hostId ∧ aad = AAD
  | .finish _ _ => ∀ e ∈ past, isFinish e = false
  | o => Greets C cfg o

section
variable {fuel : Nat} {cfg : Config}

theorem greets_of_waiting {o : Op ViewerToServer} (h : o.waiting = true) : Greets C cfg o := by
  cases o <;> trivial

theorem greets_waits {α : Type} {p : ViewerM α} (h : Waits p) : p.Uses (Greets C cfg) :=
  h.mono fun _ => greets_of_waiting

theorem sendRelay_greets (msg : PakeMsg) :
    (sendRelay msg).Uses (S := ViewerSig) (Greets C cfg) := by
  refine uses_bind (uses_call.mpr trivial) fun r => ?_
  rcases r with e | u
  · cases e <;> trivial
  · trivial

theorem recvRelay_greets (t : Duration) (stage : Stage) :
    (recvRelay t stage).Uses (S := ViewerSig) (Greets C cfg) := by
  refine uses_bind (uses_call.mpr trivial) fun r => ?_
  rcases r with e | _ | m
  · trivial
  · trivial
  · cases m with
    | relay data =>
        dsimp only
        cases decodeRelay data <;> trivial
    | _ => trivial

theorem awaitDecision_greets (host : PeerIdentity) (ch : Channel) :
    (awaitDecision fuel cfg host ch).Uses (S := ViewerSig) (Greets C cfg) := by
  refine uses_bind (uses_call.mpr trivial) fun now => ?_
  refine uses_bind (greets_waits (ViewerSession.nextControl_waits _ _ _ _)) fun r => ?_
  obtain ⟨e | c, ch'⟩ := r <;> trivial

theorem exchangeHello_greets (sk : SessionKeys) (ch : Channel) :
    (exchangeHello C fuel cfg sk ch).Uses (S := ViewerSig) (Greets C cfg) := by
  refine uses_bind (uses_call.mpr trivial) fun ownFp => ?_
  refine uses_bind (uses_call.mpr trivial) fun r => ?_
  cases r with
  | none => trivial
  | some peerFp =>
      refine uses_bind (uses_call.mpr ⟨sk.helloBinding, ownFp, peerFp, rfl⟩) fun sent => ?_
      cases sent with
      | error e => trivial
      | ok u =>
          refine uses_bind (uses_call.mpr trivial) fun now => ?_
          refine uses_bind (greets_waits (ViewerSession.nextControl_waits _ _ _ _)) fun r => ?_
          obtain ⟨e | c, ch'⟩ := r
          · trivial
          cases c with
          | hello hello =>
              dsimp only
              rw [judgeHello]
              split
              · trivial
              · exact awaitDecision_greets _ _
          | _ => trivial

theorem waitReady_greets (sk : SessionKeys) (ch : Channel) :
    (waitReady C fuel cfg sk ch).Uses (S := ViewerSig) (Greets C cfg) := by
  refine uses_bind (uses_call.mpr trivial) fun now => ?_
  refine uses_bind (greets_waits (Channel.waitOpen_uses _ _ _)) fun r => ?_
  obtain ⟨r, ch'⟩ := r
  rcases r with e | (_ | _ | _)
  case ok.ready => exact exchangeHello_greets sk ch'
  all_goals trivial

theorem awaitAnswer_greets (sk : SessionKeys) (pending : PendingOffer) (ch : Channel) :
    (awaitAnswer C fuel cfg sk pending ch).Uses (S := ViewerSig) (Greets C cfg) := by
  refine uses_bind (recvRelay_greets _ _) fun r => ?_
  rcases r with e | m
  · trivial
  cases m with
  | answer sealedAnswer =>
      dsimp only
      rw [takeAnswer]
      split
      · trivial
      · refine uses_bind (uses_call.mpr trivial) fun r => ?_
        cases r with
        | error e => trivial
        | ok u => exact waitReady_greets sk ch
  | _ => trivial

theorem openPeer_greets (sk : SessionKeys) (macA : Bytes) :
    (openPeer C fuel cfg sk macA).Uses (S := ViewerSig) (Greets C cfg) := by
  refine uses_bind (uses_call.mpr trivial) fun r => ?_
  cases r with
  | error e => trivial
  | ok u =>
      refine uses_bind (uses_bind (uses_call.mpr trivial) fun r => ?_) fun r => ?_
      · rcases r with e | ⟨offer, pending⟩
        · trivial
        · dsimp only
          split
          · trivial
          · refine uses_bind (sendRelay_greets _) fun sent => ?_
            cases sent with
            | error e => trivial
            | ok u => exact awaitAnswer_greets sk pending _
      · obtain ⟨e | host, ch⟩ := r
        · exact uses_bind (greets_waits (Channel.close_uses ch)) fun _ => trivial
        · trivial

theorem keeps_of_greets {past : List (Ev ViewerSig)} {o : Op ViewerToServer}
    (h : Greets C cfg o) : Keeps C cfg past o := by
  cases o <;> first | exact h | exact h.elim

theorem isFinish_of_greets {o : Op ViewerToServer} (h : Greets C cfg o)
    (r : Op.Res ServerToViewer o) : isFinish ⟨o, r⟩ = false := by
  cases o <;> first | rfl | exact h.elim

-- a part outside SPAKE2 leaves the one `finish` to come, or behind
theorem wp_greets {α : Type} {p : ViewerM α} (h : p.Uses (Greets C cfg))
    {past : List (Ev ViewerSig)} (hpast : ∀ e ∈ past, isFinish e = false) :
    p.wp (.history (Keeps C cfg)) (fun past' _ => ∀ e ∈ past', isFinish e = false) past := by
  refine Prog.wp_mono (wp_of_only h (fun past o hpast ho => ?_) hpast) fun past a h => h.1
  refine ⟨keeps_of_greets ho, fun r _ e he => ?_⟩
  rcases List.mem_append.mp he with he | he
  · exact hpast e he
  · rw [List.mem_singleton.mp he]
    exact isFinish_of_greets ho r

theorem wp_finished {α : Type} {p : ViewerM α} (h : p.Uses (Greets C cfg))
    (past : List (Ev ViewerSig)) : p.wp (.history (Keeps C cfg)) (fun _ _ => True) past :=
  Prog.wp_mono (wp_of_only (I := fun _ => True) h
    (fun _ _ _ ho => ⟨keeps_of_greets ho, fun _ _ => trivial⟩) trivial) fun _ _ _ => trivial

theorem start_keeps {past : List (Ev ViewerSig)} (hpast : ∀ e ∈ past, isFinish e = false) :
    (ViewerPake.start C cfg.code cfg.hostId).wp (.history (Keeps C cfg))
      (fun past' _ => ∀ e ∈ past', isFinish e = false) past := by
  rw [ViewerPake.start]
  split
  · exact hpast
  · rename_i w hw
    refine ⟨⟨hw, rfl, rfl, rfl⟩, fun r _ => ?_⟩
    have hstill : ∀ e ∈ past ++ [(⟨.partyAStart w VIEWER_ID (hostIdBytes cfg.hostId) AAD, r⟩ :
        Ev ViewerSig)], isFinish e = false := fun e he => by
      rcases List.mem_append.mp he with he | he
      · exact hpast e he
      · rw [List.mem_singleton.mp he]
        rfl
    rcases r with e | ⟨pa, state⟩ <;> exact hstill

theorem awaitReply_keeps {pake : ViewerPake} {past : List (Ev ViewerSig)}
    (hpast : ∀ e ∈ past, isFinish e = false) :
    (awaitReply C fuel cfg pake).wp (.history (Keeps C cfg)) (fun _ _ => True) past := by
  refine wp_bind.mpr (Prog.wp_mono (wp_greets (recvRelay_greets _ _) hpast) fun past r hpast => ?_)
  rcases r with e | m
  · trivial
  cases m with
  | reply pb macB =>
      refine wp_bind.mpr ⟨hpast, fun r _ => ?_⟩
      cases r with
      | error e => trivial
      | ok output =>
          dsimp only [Prog.bind]
          cases toMac macB with
          | error e => trivial
          | ok mac =>
              refine ⟨trivial, fun r _ => ?_⟩
              cases r with
              | error e => trivial
              | ok u => exact wp_finished (openPeer_greets _ _) _
  | _ => trivial

theorem connect_keeps (C : Crypto) (fuel : Nat) (cfg : Config) :
    (connect C fuel cfg).wp (.history (Keeps C cfg)) (fun _ _ => True) [] := by
  have hnone : ∀ e ∈ ([] : List (Ev ViewerSig)), isFinish e = false := nofun
  have hjoin : (call (.linkRecv cfg.t.signalingStep) : ViewerM _).Uses (Greets C cfg) :=
    uses_call.mpr trivial
  refine wp_bind.mpr (Prog.wp_mono (wp_greets hjoin hnone) fun past r hpast => ?_)
  rcases r with e | _ | m
  · trivial
  · trivial
  cases m with
  | joined =>
      refine wp_bind.mpr (Prog.wp_mono (start_keeps hpast) fun past r hpast => ?_)
      rcases r with e | ⟨pake, pa⟩
      · trivial
      refine wp_bind.mpr (Prog.wp_mono (wp_greets (sendRelay_greets _) hpast) fun past r hpast => ?_)
      cases r with
      | error e => trivial
      | ok u => exact awaitReply_keeps hpast
  | _ => trivial

theorem Keeps.first {past : List (Ev ViewerSig)} {e : Ev ViewerSig} (h : Keeps C cfg past e.op)
    (he : isFinish e = true) : ∀ e' ∈ past, isFinish e' = false := by
  obtain ⟨o, r⟩ := e
  cases o with
  | finish party msg => exact h
  | _ => cases he

theorem connect_finishes {tr : List (Ev ViewerSig)} {q : ViewerM ConnectResult}
    (h : Path (connect C fuel cfg) tr q) {e e' : Ev ViewerSig} (he : e ∈ tr) (he' : e' ∈ tr)
    (hfinish : isFinish e = true) (hfinish' : isFinish e' = true) : e = e' := by
  have hkeeps := (history_path (connect_keeps C fuel cfg) h).1
  have apart {pre mid post : List (Ev ViewerSig)} {e e' : Ev ViewerSig}
      (htr : tr = pre ++ e :: (mid ++ e' :: post)) (hfinish : isFinish e = true)
      (hfinish' : isFinish e' = true) : False := by
    have hfirst := (hkeeps (pre ++ e :: mid) e' post (by simp [htr])).first hfinish'
    have hnot := hfirst e (by simp)
    rw [hfinish] at hnot
    cases hnot
  obtain ⟨pre, post, rfl⟩ := List.append_of_mem he
  rcases List.mem_append.mp he' with hpre | hpost
  · obtain ⟨before, mid, rfl⟩ := List.append_of_mem hpre
    exact (apart (List.append_assoc before (e' :: mid) (e :: post)) hfinish' hfinish).elim
  · rcases List.mem_cons.mp hpost with rfl | hpost
    · rfl
    · obtain ⟨mid, after, rfl⟩ := List.append_of_mem hpost
      exact (apart rfl hfinish hfinish').elim

theorem connect_starts {tr : List (Ev ViewerSig)} {q : ViewerM ConnectResult}
    (h : Path (connect C fuel cfg) tr q) {w : Nat} {idA idB aad : Bytes}
    {r : ViewerSig.Res (.partyAStart w idA idB aad)}
    (hstart : ⟨.partyAStart w idA idB aad, r⟩ ∈ tr) : codeScalar C cfg.code = .ok w ∧
      idA = VIEWER_ID ∧ idB = hostIdBytes cfg.hostId ∧ aad = AAD := by
  obtain ⟨pre, post, hsplit⟩ := List.append_of_mem hstart
  exact (history_path (connect_keeps C fuel cfg) h).1 pre _ post hsplit

theorem connect_sends {tr : List (Ev ViewerSig)} {q : ViewerM ConnectResult}
    (h : Path (connect C fuel cfg) tr q) {data : Bytes} {r : ViewerSig.Res (.peerSend data)}
    (hsent : ⟨.peerSend data, r⟩ ∈ tr) : ∃ binding ownFp peerFp,
      data = Control.encode (.hello (cfg.keys.makeHello C .viewer binding ownFp peerFp)) := by
  obtain ⟨pre, post, hsplit⟩ := List.append_of_mem hsent
  exact (history_path (connect_keeps C fuel cfg) h).1 pre _ post hsplit

end

end Viewer

end SimpleRemote
