import SimpleRemote.Host.Gate

namespace SimpleRemote
open ByteCodec Interaction

def Op.onLink {Out : Type} : Op Out → Bool
  | .linkSend _ => true
  | .linkRecv _ => true
  | _ => false

inductive LinkCall where
  | fine
  | unread
  | unsent

-- how a call went on the link
def linkCall : Ev HostSig → LinkCall
  | ⟨.linkRecv _, .error _⟩ => .unread
  | ⟨.linkSend _, .error _⟩ => .unsent
  | _ => .fine

theorem linkCall_offLink {e : Ev HostSig} (h : e.op.onLink = false) : linkCall e = .fine := by
  obtain ⟨o, r⟩ := e
  cases o <;> first | rfl | cases h

abbrev OffLink {α : Type} (p : HostM α) : Prop :=
  p.Uses fun o : Op HostToServer => o.onLink = false

-- `Err` only comes of a failed call on the link, and at once of one that failed to read; after
-- one that failed to send the link is let alone
def Sturdy : HostM (ServeResult × HostState) → Prop
  | .ret r => ∃ out, r.1 = .ok out
  | .halt => True
  | .act o k => ∀ r,
      match linkCall ⟨o, r⟩ with
      | .fine => Sturdy (k r)
      | .unread => ∃ e st, k r = .ret (.error e, st)
      | .unsent => OffLink (k r)

section
variable {α : Type} {C : Crypto} {fuel : Nat} {cfg : HostConfig} {st : HostState}

theorem sturdy_bind {p : HostM α} {f : α → HostM (ServeResult × HostState)} (hp : OffLink p)
    (hf : ∀ a, Sturdy (f a)) : Sturdy (p >>= f) := by
  induction p with
  | ret a => exact hf a
  | halt => trivial
  | act o k ih =>
      intro r
      rw [linkCall_offLink hp.1]
      exact ih r (hp.2 r)

theorem sturdy_send {m : HostToServer} {f : Except LinkError Unit → HostM (ServeResult × HostState)}
    (herror : ∀ e, OffLink (f (.error e))) (hf : ∀ u, Sturdy (f (.ok u))) :
    Sturdy (call (.linkSend m) >>= f) := by
  intro r
  cases r with
  | error e => exact herror e
  | ok u => exact hf u

theorem sturdy_recv {t : Duration}
    {f : Except LinkError (Option ServerToHost) → HostM (ServeResult × HostState)}
    (herror : ∀ e, ∃ e' st, f (.error e) = .ret (.error e', st)) (hf : ∀ m, Sturdy (f (.ok m))) :
    Sturdy (call (.linkRecv t) >>= f) := by
  intro r
  cases r with
  | error e => exact herror e
  | ok m => exact hf m

theorem sturdy_recvRelay {t : Duration}
    {f : Except LinkError Relay → HostM (ServeResult × HostState)}
    (herror : ∀ e, ∃ e' st, f (.error e) = .ret (.error e', st)) (hf : ∀ m, Sturdy (f (.ok m))) :
    Sturdy (recvRelay t >>= f) := by
  rw [recvRelay, Prog.bind_assoc]
  refine sturdy_recv herror fun m => ?_
  rcases m with _ | m
  · exact hf _
  · cases m <;> exact hf _

theorem sturdy_kicked {failure : AttemptFailure} {f : ServeResult → HostM (ServeResult × HostState)}
    (herror : ∀ e, OffLink (f (.error e))) (hf : Sturdy (f (.ok (.failed failure)))) :
    Sturdy (kicked failure >>= f) := by
  rw [kicked, Prog.bind_assoc]
  exact sturdy_send (fun e => herror _) fun _ => hf

theorem sturdy_rejectRelay {failure : AttemptFailure}
    {f : ServeResult → HostM (ServeResult × HostState)}
    (herror : ∀ e, OffLink (f (.error e))) (hf : Sturdy (f (.ok (.failed failure)))) :
    Sturdy (rejectRelay failure >>= f) := by
  rw [rejectRelay, sendRelay, Prog.bind_assoc]
  exact sturdy_send (fun e => herror _) fun _ => sturdy_kicked herror hf

theorem sturdy_kick (failure : AttemptFailure) :
    Sturdy (kicked failure >>= fun r => pure (r, st)) := sturdy_kicked (fun _ => trivial) ⟨_, rfl⟩

theorem sturdy_reject (failure : AttemptFailure) :
    Sturdy (rejectRelay failure >>= fun r => pure (r, st)) :=
  sturdy_rejectRelay (fun _ => trivial) ⟨_, rfl⟩

theorem sturdy_finishAttempt (r : ServeOutcome × HostState) : Sturdy (finishAttempt r) := by
  obtain ⟨outcome, st⟩ := r
  cases outcome with
  | failed failure => exact sturdy_kick failure
  | _ => exact ⟨_, rfl⟩

theorem offLink_of_waits {p : HostM α} (h : Waits p) : OffLink p :=
  h.mono fun o ho => by cases o <;> first | rfl | cases ho

theorem Fails.offLink {p : HostM (ServeOutcome × HostState)} (h : Fails st p) : OffLink p :=
  h.mono (fun o ho => by cases o <;> first | rfl | cases ho) fun _ _ => trivial

theorem accept_offLink (viewer : PeerIdentity) (ch : Channel) : OffLink (accept st viewer ch) := by
  refine uses_bind (uses_call.mpr rfl) fun r => ?_
  cases r with
  | error e => exact (failWith_fails ch _ st).offLink
  | ok u => exact uses_bind (uses_call.mpr rfl) fun _ => trivial

theorem askApproval_offLink (viewer : PeerIdentity) (ch : Channel) :
    OffLink (askApproval C fuel cfg st viewer ch) := by
  refine uses_bind ((waitApproval_uses _ _ _ _).mono fun o ho => ?_) fun r => ?_
  · cases o <;> first | rfl | simp [Op.waiting, Op.isApprove] at ho
  · obtain ⟨approval, ch'⟩ := r
    cases approval with
    | granted => exact accept_offLink viewer ch'
    | denied => exact (rejectDecision_fails _ _ _ _ _ _).offLink
    | noResponse => exact (rejectDecision_fails _ _ _ _ _ _).offLink
    | failed f => exact (failWith_fails _ _ _).offLink

theorem judgeHello_offLink (sk : SessionKeys) (localFp remoteFp : Bytes) (hello : Hello)
    (ch : Channel) : OffLink (judgeHello C fuel cfg st sk localFp remoteFp hello ch) := by
  rw [judgeHello]
  split
  · exact (rejectDecision_fails _ _ _ _ _ _).offLink
  · split
    · exact (rejectDecision_fails _ _ _ _ _ _).offLink
    · exact askApproval_offLink _ ch

theorem exchangeHello_offLink (sk : SessionKeys) (ch : Channel) :
    OffLink (exchangeHello C fuel cfg st sk ch) := by
  refine uses_bind (uses_call.mpr rfl) fun localFp => uses_bind (uses_call.mpr rfl) fun r => ?_
  cases r with
  | none => exact (failWith_fails _ _ _).offLink
  | some remoteFp =>
      refine uses_bind (uses_call.mpr rfl) fun sent => ?_
      cases sent with
      | error e => exact (failWith_fails _ _ _).offLink
      | ok u =>
          refine uses_bind (uses_call.mpr rfl) fun start => ?_
          refine uses_bind (offLink_of_waits (Channel.next_uses _ _ _)) fun r => ?_
          obtain ⟨r, ch'⟩ := r
          rcases r with e | (c | _ | _ | _)
          case ok.msg =>
            cases c with
            | hello h => exact judgeHello_offLink sk localFp remoteFp h ch'
            | _ => exact (failWith_fails _ _ _).offLink
          all_goals exact (failWith_fails _ _ _).offLink

theorem handshake_offLink (sk : SessionKeys) (ch : Channel) :
    OffLink (handshake C fuel cfg st sk ch) := by
  refine uses_bind (uses_call.mpr rfl) fun start => ?_
  refine uses_bind (offLink_of_waits (Channel.waitOpen_uses _ _ _)) fun r => ?_
  obtain ⟨r, ch'⟩ := r
  rcases r with e | (_ | _ | _)
  case ok.ready => exact exchangeHello_offLink sk ch'
  all_goals exact (failWith_fails _ _ _).offLink

theorem close_offLink (ch : Channel) : OffLink ch.close := offLink_of_waits (Channel.close_uses ch)

theorem sturdy_sendAnswer (sk : SessionKeys) (sealedAnswer : Bytes) (ch : Channel) :
    Sturdy (sendAnswer C fuel cfg st sk sealedAnswer ch) := by
  rw [sendAnswer, sendRelay]
  exact sturdy_send (fun _ => uses_bind (close_offLink ch) fun _ => trivial)
    fun _ => sturdy_bind (handshake_offLink sk ch) sturdy_finishAttempt

theorem sturdy_answerOffer (sk : SessionKeys) (offer : Text) :
    Sturdy (answerOffer C fuel cfg st sk offer) := by
  rw [answerOffer]
  refine sturdy_bind (uses_call.mpr rfl) fun r => ?_
  cases r with
  | error e => exact sturdy_kick _
  | ok u =>
      refine sturdy_bind (uses_call.mpr rfl) fun r => ?_
      cases r with
      | error e =>
          exact sturdy_rejectRelay (fun _ => uses_bind (close_offLink Channel.new) fun _ => trivial)
            (sturdy_bind (close_offLink Channel.new) fun _ => ⟨_, rfl⟩)
      | ok answer =>
          dsimp only
          split
          · trivial
          · exact sturdy_sendAnswer sk _ _

theorem sturdy_confirmed (sk : SessionKeys) (sealedOffer : Bytes) :
    Sturdy (confirmed C fuel cfg st sk sealedOffer) := by
  rw [confirmed]
  split
  · exact sturdy_reject _
  · exact sturdy_answerOffer sk _

theorem confirm_offLink (pake : HostPake) (macA : Bytes) : OffLink (pake.confirm C macA) := by
  rw [HostPake.confirm]
  split
  · trivial
  · refine uses_bind (uses_call.mpr rfl) fun r => ?_
    cases r <;> trivial

theorem sturdy_judgeConfirm (pake : HostPake) (macA sealedOffer : Bytes) :
    Sturdy (judgeConfirm C fuel cfg st pake macA sealedOffer) := by
  rw [judgeConfirm]
  refine sturdy_bind (confirm_offLink pake macA) fun r => ?_
  cases r with
  | error e => exact sturdy_reject _
  | ok sk => exact sturdy_confirmed sk sealedOffer

theorem sturdy_awaitConfirm (pake : HostPake) : Sturdy (awaitConfirm C fuel cfg st pake) := by
  rw [awaitConfirm]
  refine sturdy_recvRelay (fun e => ⟨_, _, rfl⟩) fun m => ?_
  rcases m with m | _ | _ | _
  · cases m with
    | confirm macA sealedOffer => exact sturdy_judgeConfirm pake macA sealedOffer
    | _ => exact sturdy_reject _
  · exact sturdy_reject _
  · exact ⟨_, rfl⟩
  · exact sturdy_kick _

theorem recordAttempt_offLink : OffLink (recordAttempt st) := by
  refine uses_bind (uses_call.mpr rfl) fun now => ?_
  split
  · trivial
  · split
    · exact uses_bind (uses_call.mpr rfl) fun _ => trivial
    · trivial

theorem respond_offLink (code : OneTimeCode) (hostId : Text) (pa : Bytes) :
    OffLink (HostPake.respond C code hostId pa) := by
  rw [HostPake.respond]
  split
  · trivial
  · refine uses_bind (uses_call.mpr rfl) fun r => ?_
    cases r with
    | error e => trivial
    | ok p =>
        refine uses_bind (uses_call.mpr rfl) fun r => ?_
        cases r <;> trivial

theorem sturdy_answerStart (pa : Bytes) : Sturdy (answerStart C fuel cfg st pa) := by
  rw [answerStart]
  refine sturdy_bind (respond_offLink _ _ _) fun r => ?_
  rcases r with e | ⟨pake, pb, macB⟩
  · exact sturdy_reject _
  · refine sturdy_bind recordAttempt_offLink fun st' => ?_
    rw [sendReply, sendRelay]
    exact sturdy_send (fun _ => trivial) fun _ => sturdy_awaitConfirm pake

theorem sturdy_attempt : Sturdy (attempt C fuel cfg st) := by
  rw [attempt]
  refine sturdy_bind (uses_call.mpr rfl) fun now => ?_
  split
  · rw [sendRelay]
    exact sturdy_send (fun _ => trivial) fun _ => sturdy_kick _
  · refine sturdy_recvRelay (fun e => ⟨_, _, rfl⟩) fun m => ?_
    rcases m with m | _ | _ | _
    · cases m with
      | start pa => exact sturdy_answerStart pa
      | _ => exact sturdy_reject _
    · exact sturdy_reject _
    · exact ⟨_, rfl⟩
    · exact sturdy_kick _

theorem sturdy_serveNext (fuel : Nat) : Sturdy (serveNext C cfg st fuel) := by
  induction fuel with
  | zero => trivial
  | succ fuel ih =>
      rw [serveNext]
      refine sturdy_recv (fun e => ⟨_, _, rfl⟩) fun m => ?_
      rcases m with _ | m
      · exact ih
      · cases m with
        | viewerJoined => exact sturdy_attempt
        | _ => exact ih

end

end SimpleRemote
