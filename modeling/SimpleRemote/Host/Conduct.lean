import SimpleRemote.Host.Guessing
import SimpleRemote.Host.Sturdy

namespace SimpleRemote
open ByteCodec Interaction

def Op.isResponse {Out : Type} : Op Out → Bool
  | .partyBStart _ _ _ _ => true
  | _ => false

theorem isResponse_of_waiting {Out : Type} {o : Op Out} (h : o.waiting = true) :
    o.isResponse = false := by
  cases o <;> first | rfl | cases h

theorem isResponse_of_onPeer {Out : Type} {o : Op Out} (h : o.onPeer = true) :
    o.isResponse = false := by
  cases o <;> first | rfl | cases h

-- past its SPAKE2 message a run starts no other, and no longer takes the viewer for gone
abbrev Onward {α : Type} (left : α) (p : HostM (α × HostState)) : Prop :=
  p.Only (fun o : Op HostToServer => o.isResponse = false) fun r => r.1 ≠ left

section
variable {C : Crypto} {fuel : Nat} {cfg : HostConfig} {st : HostState}

abbrev Replied (p : HostM (ServeResult × HostState)) : Prop := Onward (.ok .viewerLeft) p

theorem onward_of_fails {p : HostM (ServeOutcome × HostState)} (h : Fails st p) :
    Onward .viewerLeft p :=
  h.mono (fun _ => isResponse_of_onPeer) fun r hr hleft => by
    obtain ⟨-, f, hf⟩ := hr
    rw [hf] at hleft
    cases hleft

theorem replied_kicked_bind (f : AttemptFailure) {k : ServeResult → HostM (ServeResult × HostState)}
    (hk : ∀ r, r ≠ .ok .viewerLeft → Replied (k r)) : Replied (kicked f >>= k) := by
  refine ⟨rfl, fun r => ?_⟩
  cases r <;> exact hk _ nofun

theorem replied_reject_bind (f : AttemptFailure) {k : ServeResult → HostM (ServeResult × HostState)}
    (hk : ∀ r, r ≠ .ok .viewerLeft → Replied (k r)) : Replied (rejectRelay f >>= k) := by
  refine ⟨rfl, fun r => ?_⟩
  cases r with
  | error e => exact hk _ nofun
  | ok u => exact replied_kicked_bind f hk

theorem replied_kicked (f : AttemptFailure) : Replied (kicked f >>= fun r => pure (r, st)) :=
  replied_kicked_bind f fun _ hr => hr

theorem replied_reject (f : AttemptFailure) : Replied (rejectRelay f >>= fun r => pure (r, st)) :=
  replied_reject_bind f fun _ hr => hr

theorem accept_onward (viewer : PeerIdentity) (ch : Channel) :
    Onward .viewerLeft (accept st viewer ch) := by
  refine uses_bind (uses_call.mpr rfl) fun r => ?_
  cases r with
  | error e => exact onward_of_fails (failWith_fails ch _ st)
  | ok u => exact uses_bind (uses_call.mpr rfl) fun _ => nofun

theorem askApproval_onward (viewer : PeerIdentity) (ch : Channel) :
    Onward .viewerLeft (askApproval C fuel cfg st viewer ch) := by
  refine uses_bind ((waitApproval_uses _ _ _ _).mono fun o ho => ?_) fun r => ?_
  · cases o <;> first | rfl | simp [Op.waiting, Op.isApprove] at ho
  · obtain ⟨approval, ch'⟩ := r
    cases approval with
    | granted => exact accept_onward viewer ch'
    | failed f => exact onward_of_fails (failWith_fails _ _ _)
    | _ => exact onward_of_fails (rejectDecision_fails _ _ _ _ _ _)

theorem judgeHello_onward (sk : SessionKeys) (localFp remoteFp : Bytes) (hello : Hello)
    (ch : Channel) : Onward .viewerLeft (judgeHello C fuel cfg st sk localFp remoteFp hello ch) := by
  rw [judgeHello]
  split
  · exact onward_of_fails (rejectDecision_fails _ _ _ _ _ _)
  · split
    · exact onward_of_fails (rejectDecision_fails _ _ _ _ _ _)
    · exact askApproval_onward _ ch

theorem exchangeHello_onward (sk : SessionKeys) (ch : Channel) :
    Onward .viewerLeft (exchangeHello C fuel cfg st sk ch) := by
  refine uses_bind (uses_call.mpr rfl) fun localFp => uses_bind (uses_call.mpr rfl) fun r => ?_
  cases r with
  | none => exact onward_of_fails (failWith_fails _ _ _)
  | some remoteFp =>
      refine uses_bind (uses_call.mpr rfl) fun sent => ?_
      cases sent with
      | error e => exact onward_of_fails (failWith_fails _ _ _)
      | ok u =>
          refine uses_bind (uses_call.mpr rfl) fun start => ?_
          refine uses_bind ((Channel.next_uses _ _ _).mono fun _ => isResponse_of_waiting) fun r => ?_
          obtain ⟨r, ch'⟩ := r
          rcases r with e | (c | _ | _ | _)
          case ok.msg =>
            cases c with
            | hello h => exact judgeHello_onward sk localFp remoteFp h ch'
            | _ => exact onward_of_fails (failWith_fails _ _ _)
          all_goals exact onward_of_fails (failWith_fails _ _ _)

theorem handshake_onward (sk : SessionKeys) (ch : Channel) :
    Onward .viewerLeft (handshake C fuel cfg st sk ch) := by
  refine uses_bind (uses_call.mpr rfl) fun start => ?_
  refine uses_bind ((Channel.waitOpen_uses _ _ _).mono fun _ => isResponse_of_waiting) fun r => ?_
  obtain ⟨r, ch'⟩ := r
  rcases r with e | (_ | _ | _)
  case ok.ready => exact exchangeHello_onward sk ch'
  all_goals exact onward_of_fails (failWith_fails _ _ _)

theorem replied_sendAnswer (sk : SessionKeys) (sealedAnswer : Bytes) (ch : Channel) :
    Replied (sendAnswer C fuel cfg st sk sealedAnswer ch) := by
  refine uses_bind (uses_call.mpr rfl) fun r => ?_
  cases r with
  | error e =>
      exact uses_bind ((Channel.close_uses ch).mono fun _ => isResponse_of_waiting) fun _ => nofun
  | ok u =>
      refine only_bind (handshake_onward sk ch) fun r hr => ?_
      obtain ⟨outcome, st'⟩ := r
      cases outcome with
      | session s => exact nofun
      | failed f => exact replied_kicked f
      | viewerLeft => exact absurd rfl hr

theorem replied_answerOffer (sk : SessionKeys) (offer : Text) :
    Replied (answerOffer C fuel cfg st sk offer) := by
  refine uses_bind (uses_call.mpr rfl) fun r => ?_
  cases r with
  | error e => exact replied_kicked _
  | ok u =>
      refine uses_bind (uses_call.mpr rfl) fun r => ?_
      cases r with
      | error e =>
          refine replied_reject_bind _ fun r hr => ?_
          exact uses_bind ((Channel.close_uses _).mono fun _ => isResponse_of_waiting) fun _ => hr
      | ok answer =>
          dsimp only
          split
          · trivial
          · exact replied_sendAnswer sk _ _

theorem replied_judgeConfirm (pake : HostPake) (macA sealedOffer : Bytes) :
    Replied (judgeConfirm C fuel cfg st pake macA sealedOffer) := by
  have hconfirm : (pake.confirm C macA).Uses fun o : Op HostToServer => o.isResponse = false := by
    rw [HostPake.confirm]
    split
    · trivial
    · refine uses_bind (uses_call.mpr rfl) fun r => ?_
      cases r <;> trivial
  refine uses_bind hconfirm fun r => ?_
  cases r with
  | error e => exact replied_reject _
  | ok sk =>
      dsimp only
      rw [confirmed]
      split
      · exact replied_reject _
      · exact replied_answerOffer sk _

theorem uses_recvRelay {P : Op HostToServer → Prop} {t : Duration} (h : P (.linkRecv t)) :
    (recvRelay t).Uses (S := HostSig) P := by
  refine ⟨h, fun r => ?_⟩
  rcases r with e | _ | m
  · trivial
  · trivial
  · cases m <;> trivial

theorem replied_sendReply (pake : HostPake) (pb macB : Bytes) (st : HostState) :
    Replied (sendReply C fuel cfg pake pb macB st) := by
  refine uses_bind (uses_call.mpr rfl) fun r => ?_
  cases r with
  | error e => exact nofun
  | ok u =>
      refine uses_bind (uses_recvRelay rfl) fun r => ?_
      rcases r with e | (m | _ | _ | _)
      · exact nofun
      · cases m with
        | confirm macA sealedOffer => exact replied_judgeConfirm pake macA sealedOffer
        | _ => exact replied_reject _
      · exact replied_reject _
      · exact nofun
      · exact replied_kicked _

theorem replied_record (pake : HostPake) (pb macB : Bytes) :
    Replied (recordAttempt st >>= sendReply C fuel cfg pake pb macB) := by
  refine uses_bind ?_ fun st' => replied_sendReply pake pb macB st'
  refine uses_bind (uses_call.mpr rfl) fun now => ?_
  split
  · trivial
  · split
    · exact uses_bind (uses_call.mpr rfl) fun _ => trivial
    · trivial

-- the only SPAKE2 message is for the code in the state and the configured id
def Starts (C : Crypto) (cfg : HostConfig) (code : OneTimeCode) : Op HostToServer → Prop
  | .partyBStart w idA idB aad => codeScalar C code = .ok w ∧ idA = VIEWER_ID ∧
      idB = hostIdBytes cfg.hostId ∧ aad = AAD
  | _ => True

theorem starts_of_not_response {code : OneTimeCode} {o : Op HostToServer}
    (h : o.isResponse = false) : Starts C cfg code o := by
  cases o <;> trivial

theorem starts_of_replied {code : OneTimeCode} {p : HostM (ServeResult × HostState)}
    (h : Replied p) : p.Uses (Starts C cfg code) :=
  h.mono (fun _ => starts_of_not_response) fun _ _ => trivial

theorem respond_starts (code : OneTimeCode) (pa : Bytes) :
    (HostPake.respond C code cfg.hostId pa).Uses (S := HostSig) (Starts C cfg code) := by
  rw [HostPake.respond]
  split
  · trivial
  · rename_i w hw
    refine uses_bind (uses_call.mpr ⟨hw, rfl, rfl, rfl⟩) fun r => ?_
    cases r with
    | error e => trivial
    | ok p =>
        refine uses_bind (uses_call.mpr trivial) fun r => ?_
        cases r <;> trivial

theorem attempt_starts : (attempt C fuel cfg st).Uses (Starts C cfg st.code) := by
  refine uses_bind (uses_call.mpr trivial) fun now => ?_
  split
  · refine uses_bind (uses_call.mpr trivial) fun r => ?_
    cases r with
    | error e => trivial
    | ok u => exact starts_of_replied (replied_kicked _)
  · refine uses_bind (uses_recvRelay trivial) fun r => ?_
    rcases r with e | (m | _ | _ | _)
    · trivial
    · cases m with
      | start pa =>
          refine uses_bind (respond_starts _ pa) fun r => ?_
          cases r with
          | error e => exact starts_of_replied (replied_reject _)
          | ok p => exact starts_of_replied (replied_record _ _ _)
      | _ => exact starts_of_replied (replied_reject _)
    · exact starts_of_replied (replied_reject _)
    · trivial
    · exact starts_of_replied (replied_kicked _)

theorem serveNext_starts (fuel : Nat) : (serveNext C cfg st fuel).Uses (Starts C cfg st.code) := by
  induction fuel with
  | zero => trivial
  | succ fuel ih =>
      refine uses_bind (uses_call.mpr trivial) fun r => ?_
      rcases r with e | (_ | m)
      · trivial
      · exact ih
      · cases m with
        | viewerJoined => exact attempt_starts
        | _ => exact ih

-- when an attempt does or returns what it can only past its SPAKE2 message, that is behind it
theorem serveNext_replied_of_hits {P : Op HostToServer → Prop} {R : ServeResult × HostState → Prop}
    (L : Late P R st) {tr : List (Ev HostSig)} {q : HostM (ServeResult × HostState)}
    (h : Path (serveNext C cfg st fuel) tr q) (hh : Hits P R tr q) : Replied q := by
  obtain ⟨n, skipped, tr', rfl, -, h₁, hh₁⟩ := serveNext_hits L h hh
  obtain ⟨t, data, pa, tr', rfl, -, -, h₂, hh₂⟩ := attempt_hits L h₁ hh₁
  obtain ⟨tr₁, pake, pb, macB, tr', rfl, -, h₃, -⟩ := answerStart_hits L h₂ hh₂
  exact ((replied_record pake pb macB).path h₃).2

theorem serveNext_response {tr : List (Ev HostSig)} {w : Nat} {idA idB aad : Bytes}
    {k : HostSig.Res (.partyBStart w idA idB aad) → HostM (ServeResult × HostState)}
    (h : Path (serveNext C cfg st fuel) tr (.act (.partyBStart w idA idB aad) k)) :
    (∀ e ∈ tr, quiet e = true) ∧ asked tr = [] ∧
      Starts C cfg st.code (.partyBStart w idA idB aad) := by
  refine ⟨fun e he => ?_, asked_eq_nil fun e he => ?_, ((serveNext_starts fuel).path h).2.1⟩
  · refine Classical.byContradiction fun hloud => ?_
    have hh : Hits loud (moves st) tr (.act (.partyBStart w idA idB aad) k) :=
      .inl ⟨e, he, fun hquiet => hloud (hquiet e.res)⟩
    cases (serveNext_replied_of_hits (loud_silent st).toLate h hh).1
  · refine Bool.eq_false_iff.mpr fun happrove => ?_
    cases (serveNext_replied_of_hits (decisive_deep.late st) h (.inl ⟨e, he, .inl happrove⟩)).1

theorem serveNext_left {tr : List (Ev HostSig)} {st' : HostState}
    (h : Exec (serveNext C cfg st fuel) tr (.ok .viewerLeft, st')) : st' = st ∧ asked tr = [] := by
  constructor
  · refine Classical.byContradiction fun hmoved => ?_
    exact serveNext_replied_of_hits (loud_silent st).toLate h (.inr ⟨_, rfl, hmoved⟩) rfl
  · refine asked_eq_nil fun e he => Bool.eq_false_iff.mpr fun happrove => ?_
    exact serveNext_replied_of_hits (decisive_deep.late st) h (.inl ⟨e, he, .inl happrove⟩) rfl

-- every question of a run is the same one, and nothing follows its answer
theorem serveNext_asks {tr : List (Ev HostSig)} {q : HostM (ServeResult × HostState)}
    (h : Path (serveNext C cfg st fuel) tr q) :
    asked tr = [] ∨ ∃ viewer k answer, checkDeviceName viewer.name = .ok () ∧
      asked tr = polled (approvalRequest C viewer) k answer := by
  refine or_iff_not_imp_left.mpr fun hasked => ?_
  have hh : Hits isDecisive isSession tr q :=
    .inl (Classical.byContradiction fun hno => hasked (asked_eq_nil fun e he => by
      simpa using fun h => hno ⟨e, he, .inl h⟩))
  obtain ⟨n, skipped, tr', rfl, hs, h₁, hh₁⟩ := serveNext_hits (decisive_deep.late st) h hh
  obtain ⟨g, tail, rfl, h₂⟩ := attempt_gate h₁ hh₁
  have htail : ∃ k answer, asked tail = polled (approvalRequest C g.viewer) k answer := by
    rcases Path.bind_cases h₂ with ⟨p, hp, -, rfl⟩ | ⟨tr₁, r, tr₂, rfl, hr, hf⟩
    · exact askApproval_polls hp
    · rw [asked_append, asked_of_uses (finishAttempt_uses r) (fun _ => id) hf, List.append_nil]
      exact askApproval_polls hr
  obtain ⟨k, answer, hk⟩ := htail
  refine ⟨g.viewer, k, answer, (verifyHello_ok g.verified).nameChecked, ?_⟩
  rw [asked_append, asked_skipped hs, asked_cons rfl, asked_append, g.asked_trace, hk]
  rfl

theorem serveNext_granted {tr : List (Ev HostSig)} {s : HostSession} {st' : HostState}
    (h : Exec (serveNext C cfg st fuel) tr (.ok (.session s), st')) :
    ∃ k, asked tr = polled (approvalRequest C s.viewer) k (some true) := by
  obtain ⟨n, skipped, tr', rfl, hs, h₁, hh₁⟩ :=
    serveNext_hits (decisive_deep.late st) h (.inr ⟨_, rfl, trivial⟩)
  obtain ⟨g, tail, rfl, h₂⟩ := attempt_gate h₁ hh₁
  obtain ⟨tr₁, ⟨o, st₁⟩, tr₂, rfl, hr, hf⟩ := exec_bind.mp h₂
  obtain ⟨rfl, rfl, rfl⟩ := finishAttempt_session hf
  obtain ⟨approval, k, code, rfl, hk, hv, rfl⟩ := askApproval_session hr
  refine ⟨k, ?_⟩
  rw [asked_append, asked_skipped hs, asked_cons rfl, asked_append, g.asked_trace, asked_append,
    asked_append, hk, hv]
  exact (List.append_nil _).trans (List.append_nil _)

end

-- the code last drawn, and whether it has let a viewer in
structure Current where
  code : OneTimeCode
  spent : Bool
  deriving DecidableEq

def Current.next (c : Option Current) : Ev HostSig → Option Current
  | ⟨.generateCode, code⟩ => some ⟨code, false⟩
  | ⟨.peerSend data, .ok ()⟩ =>
      if data = Control.encode (.decision .accepted) then c.map fun c => { c with spent := true } else c
  | _ => c

def Current.after (c : Option Current) (tr : List (Ev HostSig)) : Option Current :=
  tr.foldl Current.next c

namespace Current
variable {c : Option Current}

theorem after_append (c : Option Current) (tr tr' : List (Ev HostSig)) :
    after c (tr ++ tr') = after (after c tr) tr' := List.foldl_append

-- the calls that leave the code as it is
def still (e : Ev HostSig) : Bool := !isAssign e.op && !isAccepted e

theorem next_still {e : Ev HostSig} (h : still e = true) : next c e = c := by
  obtain ⟨o, r⟩ := e
  cases o with
  | generateCode => cases h
  | peerSend data =>
      cases r with
      | error e => rfl
      | ok u =>
          have hnot : data ≠ Control.encode (.decision .accepted) := by
            simpa [still, isAssign, isAccepted] using h
          exact if_neg hnot
  | _ => rfl

theorem after_still {tr : List (Ev HostSig)} (h : ∀ e ∈ tr, still e = true) : after c tr = c := by
  induction tr with
  | nil => rfl
  | cons e tr ih =>
      obtain ⟨he, htr⟩ := List.forall_mem_cons.mp h
      rw [after, List.foldl_cons, next_still he]
      exact ih htr

theorem still_of_quiet {e : Ev HostSig} (h : quiet e = true) : still e = true := by
  simp only [quiet, Bool.and_eq_true] at h
  rw [still, h.1.2, h.2]
  rfl

theorem after_quiet {tr : List (Ev HostSig)} (h : ∀ e ∈ tr, quiet e = true) : after c tr = c :=
  after_still fun e he => still_of_quiet (h e he)

variable {C : Crypto} {cfg : HostConfig} {st st' : HostState}

theorem after_record {tr : List (Ev HostSig)} (h : Exec (recordAttempt st) tr st') :
    after (some ⟨st.code, false⟩) tr = some ⟨st'.code, false⟩ := by
  obtain ⟨t, tr₁, rfl, h₁⟩ := exec_call_bind.mp h
  split at h₁
  · simp at h₁
  · split at h₁
    · obtain ⟨code, tr₂, rfl, h₂⟩ := exec_call_bind.mp h₁
      obtain ⟨rfl, rfl⟩ := exec_ret.mp h₂
      rfl
    · obtain ⟨rfl, rfl⟩ := exec_ret.mp h₁
      rfl

theorem after_started (s : Started C cfg st) :
    after (some ⟨st.code, false⟩) s.trace = some ⟨s.recordedState.code, false⟩ := by
  rw [← after_record s.recorded]
  rfl

theorem after_confirmed (c : Confirmed C cfg st) :
    after (some ⟨st.code, false⟩) c.trace = some ⟨c.state.code, false⟩ := by
  rw [Confirmed.trace, after_append, after_started]
  rfl

end Current

open Current in
theorem Served.current {C : Crypto} {cfg : HostConfig} {st st' : HostState}
    {tr : List (Ev HostSig)} (h : Served C cfg st tr st') :
    after (some ⟨st.code, false⟩) tr = some ⟨st'.code, false⟩ := by
  cases h with
  | quiet h => exact after_quiet h
  | replied s sent hpre hrest =>
      rw [after_append, after_quiet hpre, after_append, after_started]
      exact after_still (List.forall_mem_cons.mpr ⟨rfl, fun e he => still_of_quiet (hrest e he)⟩)
  | confirmed c hpre hrest =>
      rw [after_append, after_quiet hpre, after_append, after_confirmed]
      exact after_quiet hrest
  | accepted c code hpre hrest =>
      rw [after_append, after_quiet hpre, after_append, after_confirmed, after_append,
        after_quiet hrest]
      rfl

end SimpleRemote
