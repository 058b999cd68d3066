import SimpleRemote.Transport.Clock
import SimpleRemote.Meeting.Viewer
import SimpleRemote.Meeting.Host

namespace SimpleRemote
open ByteCodec Interaction

namespace Viewer

-- the waits of a viewer on its peer connection
def waits (t : Timeouts) : List Wait :=
  [⟨t.connect, .opening⟩, ⟨t.signalingStep, .message 1⟩, ⟨t.approval + t.signalingStep, .message 2⟩]

def OnTime {α : Type} (r : Except ConnectError α) : Prop := ∀ stage, r ≠ .error (.timeout stage)

theorem onTime_error {α β : Type} {e : ConnectError} (h : OnTime (.error e : Except ConnectError α)) :
    OnTime (.error e : Except ConnectError β) :=
  fun stage he => h stage (congrArg Except.error (Except.error.inj he))

section
variable {C : Crypto} {fuel : Nat} {cfg : Config} {sk : SessionKeys} {ch : Channel} {c : Clock}
  {ws later : List Wait} {deadline : Instant}

theorem sendRelay_onTime (msg : PakeMsg) :
    (sendRelay msg).wp (watch ws) (fun c' r => c' = c ∧ OnTime r) c := by
  refine wp_watched fun r _ => ?_
  rcases r with e | u
  · cases e <;> exact ⟨rfl, nofun⟩
  · exact ⟨rfl, nofun⟩

theorem fromLink_onTime (e : LinkError) (stage : Stage) : fromLink e ≠ .timeout stage := by
  cases e <;> exact nofun

theorem recvRelay_onTime (timeout : Duration) (stage : Stage) :
    (recvRelay timeout stage).wp (watch ws) (fun c' r => c' = c ∧ OnTime r) c := by
  refine wp_watched fun r hr => ?_
  rcases r with e | (_ | m)
  · exact ⟨rfl, fun stage h => fromLink_onTime e stage (Except.error.inj h)⟩
  · exact absurd rfl hr
  · cases m with
    | relay data =>
        dsimp only
        split <;> exact ⟨rfl, fun _ h => by cases h⟩
    | _ => exact ⟨rfl, fun _ h => by cases h⟩

theorem nextControl_onTime {read : Nat} (stage : Stage) :
    (nextControl fuel ch deadline stage).wp (watch ws)
      (fun c r => OnTime r.1 ∧ ∀ msg, r.1 = .ok msg →
        c = ⟨some (.message (read + 1), deadline), later, true, read + 1 + r.2.pending.length⟩)
      ⟨some (.message (read + 1), deadline), later, true, read + ch.pending.length⟩ := by
  refine wp_bind.mpr (Prog.wp_mono (Channel.next_wp fuel ch) fun c r hr => ?_)
  obtain ⟨r, ch'⟩ := r
  obtain ⟨htime, hmsg⟩ := hr
  rcases r with e | (msg | _ | _ | _)
  · exact ⟨nofun, nofun⟩
  · exact ⟨nofun, fun _ _ => hmsg msg rfl⟩
  · exact ⟨nofun, nofun⟩
  · exact ⟨nofun, nofun⟩
  · exact absurd rfl htime

theorem judgeDecision_onTime (host : PeerIdentity) (msg : Control) :
    OnTime (judgeDecision host msg) := by
  cases msg with
  | decision d =>
      rcases d with _ | reason
      · exact nofun
      · cases reason <;> exact nofun
  | _ => exact nofun

theorem awaitDecision_onTime (host : PeerIdentity) :
    (awaitDecision fuel cfg host ch).wp (watch ws) (fun _ r => OnTime r.1)
      ⟨some (.message 1, deadline), [⟨cfg.t.approval + cfg.t.signalingStep, .message 2⟩], true,
        1 + ch.pending.length⟩ := by
  refine wp_watched fun now _ => ?_
  have hover : Clock.due ⟨some (.message 1, deadline),
      [⟨cfg.t.approval + cfg.t.signalingStep, .message 2⟩], true, 1 + ch.pending.length⟩ = none := by
    simp [Clock.due, Clock.come]
  change Prog.wp _ _ _ (Clock.read _ now)
  rw [Clock.read_over hover]
  dsimp only
  rw [← Nat.add_assoc]
  refine wp_bind.mpr (Prog.wp_mono (nextControl_onTime .decision) fun c r hr => ?_)
  obtain ⟨r, ch'⟩ := r
  cases r with
  | error e => exact onTime_error hr.1
  | ok msg => exact judgeDecision_onTime host msg

theorem judgeHello_onTime (localFp remoteFp : Bytes) (hello : Hello) :
    (judgeHello C fuel cfg sk localFp remoteFp hello ch).wp (watch ws) (fun _ r => OnTime r.1)
      ⟨some (.message 1, deadline), [⟨cfg.t.approval + cfg.t.signalingStep, .message 2⟩], true,
        1 + ch.pending.length⟩ := by
  rw [judgeHello]
  split
  · exact fun _ h => by cases h
  · exact awaitDecision_onTime _

theorem exchangeHello_onTime :
    (exchangeHello C fuel cfg sk ch).wp (watch ws) (fun _ r => OnTime r.1)
      ⟨some (.opening, deadline), [⟨cfg.t.signalingStep, .message 1⟩,
        ⟨cfg.t.approval + cfg.t.signalingStep, .message 2⟩], true, ch.pending.length⟩ := by
  refine wp_untimed (uses_call.mpr rfl) fun localFp => wp_untimed (uses_call.mpr rfl) fun fp => ?_
  cases fp with
  | none => exact nofun
  | some remoteFp =>
      refine wp_untimed (uses_call.mpr rfl) fun sent => ?_
      cases sent with
      | error e => exact nofun
      | ok u =>
          refine wp_watched fun now _ => ?_
          change Prog.wp _ _ _ (Clock.mk (some (.message 1, now + cfg.t.signalingStep))
            [⟨cfg.t.approval + cfg.t.signalingStep, .message 2⟩] true ch.pending.length)
          rw [← Nat.zero_add ch.pending.length]
          refine wp_bind.mpr (Prog.wp_mono (nextControl_onTime .hello) fun c r hr => ?_)
          obtain ⟨r, ch'⟩ := r
          rcases r with e | msg
          · exact onTime_error hr.1
          · rw [hr.2 msg rfl]
            cases msg with
            | hello h => exact judgeHello_onTime localFp remoteFp h
            | _ => exact nofun

theorem waitReady_onTime : (waitReady C fuel cfg sk .new).wp (watch ws) (fun _ r => OnTime r.1)
    ⟨none, waits cfg.t, false, 0⟩ := by
  refine wp_watched fun now _ => ?_
  refine wp_bind.mpr (Prog.wp_mono (Channel.waitOpen_wp fuel .new) fun c r hr => ?_)
  obtain ⟨r, ch'⟩ := r
  rcases r with e | (_ | _ | _)
  · exact nofun
  · rw [hr.2 rfl]
    exact exchangeHello_onTime
  · exact nofun
  · exact absurd rfl hr.1

theorem takeAnswer_onTime (pending : PendingOffer) (sealedAnswer : Bytes) :
    (takeAnswer C fuel cfg sk pending sealedAnswer .new).wp (watch ws) (fun _ r => OnTime r.1)
      ⟨none, waits cfg.t, false, 0⟩ := by
  rw [takeAnswer]
  split
  · exact fun _ h => by cases h
  · refine wp_untimed (uses_call.mpr rfl) fun r => ?_
    cases r with
    | error e => exact fun _ h => by cases h
    | ok u => exact waitReady_onTime

theorem awaitAnswer_onTime (pending : PendingOffer) :
    (awaitAnswer C fuel cfg sk pending .new).wp (watch ws) (fun _ r => OnTime r.1)
      ⟨none, waits cfg.t, false, 0⟩ := by
  refine wp_bind.mpr (Prog.wp_mono (recvRelay_onTime _ .answer) ?_)
  rintro c r ⟨rfl, hr⟩
  rcases r with e | m
  · exact onTime_error hr
  · cases m with
    | answer sealedAnswer => exact takeAnswer_onTime pending sealedAnswer
    | _ => exact nofun

theorem handshake_onTime (macA : Bytes) :
    (handshake C fuel cfg sk macA .new).wp (watch ws) (fun _ r => OnTime r.1)
      ⟨none, waits cfg.t, false, 0⟩ := by
  refine wp_untimed (uses_call.mpr rfl) fun r => ?_
  rcases r with e | ⟨offer, pending⟩
  · exact nofun
  · dsimp only
    split
    · trivial
    · refine wp_bind.mpr (Prog.wp_mono (sendRelay_onTime _) ?_)
      rintro c r ⟨rfl, hr⟩
      cases r with
      | error e => exact onTime_error hr
      | ok u => exact awaitAnswer_onTime pending

theorem finishConnect_onTime {r : Handshake} (h : OnTime r.1) :
    (finishConnect r).wp (watch ws) (fun _ r => OnTime r) c := by
  obtain ⟨r, ch⟩ := r
  refine wp_any ?_
  cases r with
  | ok host => exact nofun
  | error e =>
      exact uses_bind (uses_true _) fun _ => onTime_error h

theorem openPeer_onTime (macA : Bytes) : (openPeer C fuel cfg sk macA).wp (watch (waits cfg.t))
    (fun _ r => OnTime r) .start := by
  refine wp_watched fun r _ => ?_
  cases r with
  | error e => exact nofun
  | ok u =>
      exact wp_bind.mpr (Prog.wp_mono (handshake_onTime macA) fun c r hr => finishConnect_onTime hr)

theorem start_untimed (code : OneTimeCode) (hostId : Text) :
    (ViewerPake.start C code hostId).Uses fun o : Op ViewerToServer => o.untimed = true := by
  rw [ViewerPake.start]
  split
  · trivial
  · refine uses_bind (uses_call.mpr rfl) fun r => ?_
    rcases r with e | ⟨pa, state⟩ <;> trivial

theorem finish_untimed (pake : ViewerPake) (pb macB : Bytes) :
    (pake.finish C pb macB).Uses fun o : Op ViewerToServer => o.untimed = true := by
  refine uses_bind (uses_call.mpr rfl) fun r => ?_
  cases r with
  | error e => trivial
  | ok output =>
      dsimp only
      split
      · trivial
      · refine uses_bind (uses_call.mpr rfl) fun r => ?_
        cases r <;> trivial

theorem finishErr_onTime (e : AuthError) (stage : Stage) : finishErr e ≠ .timeout stage := by
  cases e <;> exact nofun

theorem awaitReply_onTime (pake : ViewerPake) : (awaitReply C fuel cfg pake).wp
    (watch (waits cfg.t)) (fun _ r => OnTime r) .start := by
  refine wp_bind.mpr (Prog.wp_mono (recvRelay_onTime _ .pake) ?_)
  rintro c r ⟨rfl, hr⟩
  rcases r with e | m
  · exact onTime_error hr
  · cases m with
    | reply pb macB =>
        refine wp_untimed (finish_untimed pake pb macB) fun r => ?_
        rcases r with e | ⟨sk, macA⟩
        · exact fun stage h => finishErr_onTime e stage (Except.error.inj h)
        · exact openPeer_onTime macA
    | _ => exact nofun

-- while no timeout fires, `connect` does not end in one
theorem connect_onTime : (connect C fuel cfg).wp (watch (waits cfg.t)) (fun _ r => OnTime r)
    .start := by
  refine wp_watched fun r hr => ?_
  rcases r with e | (_ | m)
  · exact fun stage h => fromLink_onTime e stage (Except.error.inj h)
  · exact absurd rfl hr
  · cases m with
    | joined =>
        refine wp_untimed (start_untimed _ _) fun r => ?_
        rcases r with e | ⟨pake, pa⟩
        · exact nofun
        · refine wp_bind.mpr (Prog.wp_mono (sendRelay_onTime _) ?_)
          rintro c r ⟨rfl, hr⟩
          cases r with
          | error e => exact onTime_error hr
          | ok u => exact awaitReply_onTime pake
    | _ => exact nofun

end

end Viewer

-- and those of a host; the person's answer and the linger after it are not among them
def hostWaits (t : Timeouts) : List Wait := [⟨t.connect, .opening⟩, ⟨t.signalingStep, .message 1⟩]

def AttemptFailure.OnTime (failure : AttemptFailure) : Prop := ∀ stage, failure ≠ .timeout stage

def ServeOutcome.OnTime (out : ServeOutcome) : Prop := ∀ failure, out = .failed failure → failure.OnTime

def HostOnTime (r : ServeResult) : Prop := ∀ out, r = .ok out → out.OnTime

namespace HostMeets

section
variable {C : Crypto} {fuel : Nat} {cfg : HostConfig} {st : HostState} {sk : SessionKeys}
  {ch : Channel} {c : Clock} {ws : List Wait} {deadline : Instant} {failure : AttemptFailure}

-- the program does not end in a timeout, whatever is answered
abbrev Punctual {α : Type} (R : α → Prop) (p : HostM α) : Prop :=
  p.Only (fun _ : Op HostToServer => True) R

theorem failed_onTime (h : failure.OnTime) : (ServeOutcome.failed failure).OnTime := by
  rintro _ ⟨⟩
  exact h

theorem with_state {α : Type} {R : α → Prop} {p : HostM α} (hp : Punctual R p) :
    Punctual (fun r => R r.1) (do return (← p, st)) :=
  only_bind hp fun _ hr => hr

theorem failWith_punctual (h : failure.OnTime) : Punctual ServeOutcome.OnTime (failWith ch failure) :=
  uses_bind (uses_true _) fun _ => failed_onTime h

theorem rejectDecision_punctual (reason : RejectReason) (lingerFor : Duration) (h : failure.OnTime) :
    Punctual ServeOutcome.OnTime (rejectDecision fuel ch reason failure lingerFor) := by
  refine uses_bind (uses_call.mpr trivial) fun r => ?_
  cases r with
  | error e => exact failWith_punctual h
  | ok u =>
      exact uses_bind (uses_true _) fun _ => uses_bind (uses_true _) fun _ => failWith_punctual h

theorem waitApprovalLoop_punctual (req : ApprovalRequest) (n : Nat) :
    Punctual (fun r => ∀ failure, r.1 = .failed failure → failure.OnTime)
      (waitApprovalLoop fuel req deadline n ch) := by
  induction n generalizing ch with
  | zero => trivial
  | succ n ih =>
      refine uses_bind (uses_call.mpr trivial) fun answer => ?_
      rcases answer with _ | _ | _
      · refine uses_bind (uses_call.mpr trivial) fun now => ?_
        split
        · exact nofun
        · refine uses_bind (uses_true _) fun r => ?_
          obtain ⟨r, ch'⟩ := r
          rcases r with e | (_ | _ | _ | _)
          · rintro _ ⟨⟩
            exact nofun
          · rintro _ ⟨⟩
            exact nofun
          · rintro _ ⟨⟩
            exact nofun
          · rintro _ ⟨⟩
            exact nofun
          · exact ih
      · exact nofun
      · exact nofun

theorem askApproval_punctual (viewer : PeerIdentity) :
    Punctual (fun r => r.1.OnTime) (askApproval C fuel cfg st viewer ch) := by
  refine only_bind (uses_bind (uses_call.mpr trivial) fun now => waitApprovalLoop_punctual _ fuel)
    fun r hr => ?_
  obtain ⟨r, ch'⟩ := r
  cases r with
  | granted =>
      refine uses_bind (uses_call.mpr trivial) fun sent => ?_
      cases sent with
      | error e => exact with_state (failWith_punctual nofun)
      | ok u => exact uses_bind (uses_call.mpr trivial) fun _ => nofun
  | denied => exact with_state (rejectDecision_punctual .denied _ nofun)
  | noResponse => exact with_state (rejectDecision_punctual .noResponse _ nofun)
  | failed f => exact with_state (failWith_punctual (hr f rfl))

theorem judgeHello_punctual (localFp remoteFp : Bytes) (viewerHello : Hello) :
    Punctual (fun r => r.1.OnTime)
      (judgeHello C fuel cfg st sk localFp remoteFp viewerHello ch) := by
  rw [judgeHello]
  split
  · exact with_state (rejectDecision_punctual .badIdentity _ fun _ h => by cases h)
  · split
    · exact with_state (rejectDecision_punctual _ _ fun _ h => by cases h)
    · exact askApproval_punctual _

theorem exchangeHello_onTime :
    (exchangeHello C fuel cfg st sk ch).wp (watch ws) (fun _ r => r.1.OnTime)
      ⟨some (.opening, deadline), [⟨cfg.timeouts.signalingStep, .message 1⟩], true,
        ch.pending.length⟩ := by
  refine wp_untimed (uses_call.mpr rfl) fun localFp => wp_untimed (uses_call.mpr rfl) fun fp => ?_
  cases fp with
  | none => exact wp_any (with_state (failWith_punctual nofun))
  | some remoteFp =>
      refine wp_untimed (uses_call.mpr rfl) fun sent => ?_
      cases sent with
      | error e => exact wp_any (with_state (failWith_punctual nofun))
      | ok u =>
          refine wp_watched fun now _ => ?_
          change Prog.wp _ _ _ (Clock.mk (some (.message 1, now + cfg.timeouts.signalingStep)) [] true
            ch.pending.length)
          rw [← Nat.zero_add ch.pending.length]
          refine wp_bind.mpr (Prog.wp_mono (Channel.next_wp fuel ch) fun c r hr => ?_)
          obtain ⟨r, ch'⟩ := r
          rcases r with e | (msg | _ | _ | _)
          · exact wp_any (with_state (failWith_punctual nofun))
          · cases msg with
            | hello h => exact wp_any (judgeHello_punctual localFp remoteFp h)
            | _ => exact wp_any (with_state (failWith_punctual nofun))
          · exact wp_any (with_state (failWith_punctual nofun))
          · exact wp_any (with_state (failWith_punctual nofun))
          · exact absurd rfl hr.1

theorem handshake_onTime : (handshake C fuel cfg st sk .new).wp (watch ws) (fun _ r => r.1.OnTime)
    ⟨none, hostWaits cfg.timeouts, false, 0⟩ := by
  refine wp_watched fun now _ => ?_
  refine wp_bind.mpr (Prog.wp_mono (Channel.waitOpen_wp fuel .new) fun c r hr => ?_)
  obtain ⟨r, ch'⟩ := r
  rcases r with e | (_ | _ | _)
  · exact wp_any (with_state (failWith_punctual nofun))
  · rw [hr.2 rfl]
    exact exchangeHello_onTime
  · exact wp_any (with_state (failWith_punctual nofun))
  · exact absurd rfl hr.1

theorem kicked_punctual (h : failure.OnTime) : Punctual HostOnTime (kicked failure) := by
  refine uses_bind (uses_call.mpr trivial) fun r => ?_
  cases r with
  | error e => exact nofun
  | ok u =>
      rintro _ ⟨⟩
      exact failed_onTime h

theorem rejectRelay_punctual (h : failure.OnTime) : Punctual HostOnTime (rejectRelay failure) := by
  refine uses_bind (uses_call.mpr trivial) fun r => ?_
  cases r with
  | error e => exact nofun
  | ok u => exact kicked_punctual h

theorem finishAttempt_punctual {r : ServeOutcome × HostState} (h : r.1.OnTime) :
    Punctual (fun r => HostOnTime r.1) (finishAttempt r) := by
  obtain ⟨out, st⟩ := r
  cases out with
  | failed failure => exact with_state (kicked_punctual (h failure rfl))
  | _ =>
      rintro _ ⟨⟩
      exact h

theorem sendAnswer_onTime (sealedAnswer : Bytes) :
    (sendAnswer C fuel cfg st sk sealedAnswer .new).wp (watch ws) (fun _ r => HostOnTime r.1)
      ⟨none, hostWaits cfg.timeouts, false, 0⟩ := by
  refine wp_untimed (uses_call.mpr rfl) fun r => ?_
  cases r with
  | error e => exact wp_any (uses_bind (uses_true _) fun _ => nofun)
  | ok u =>
      refine wp_bind.mpr (Prog.wp_mono handshake_onTime fun c r hr => ?_)
      exact wp_any (finishAttempt_punctual hr)

abbrev InTime (cfg : HostConfig) (p : HostM (ServeResult × HostState)) : Prop :=
  p.wp (watch (hostWaits cfg.timeouts)) (fun _ r => HostOnTime r.1) .start

theorem answerOffer_onTime (offer : Text) : InTime cfg (answerOffer C fuel cfg st sk offer) := by
  refine wp_watched fun r _ => ?_
  cases r with
  | error e => exact wp_any (with_state (kicked_punctual nofun))
  | ok u =>
      refine wp_untimed (uses_call.mpr rfl) fun r => ?_
      cases r with
      | error e =>
          exact wp_any (only_bind (rejectRelay_punctual nofun) fun r hr =>
            uses_bind (uses_true _) fun _ => hr)
      | ok answer =>
          dsimp only
          split
          · trivial
          · exact sendAnswer_onTime _

theorem dropped_onTime (h : failure.OnTime) :
    InTime cfg (do return (← rejectRelay failure, st)) :=
  wp_any (with_state (rejectRelay_punctual h))

theorem confirm_untimed (pake : HostPake) (macA : Bytes) :
    (pake.confirm C macA).Uses fun o : Op HostToServer => o.untimed = true := by
  rw [HostPake.confirm]
  split
  · trivial
  · refine uses_bind (uses_call.mpr rfl) fun r => ?_
    cases r <;> trivial

theorem judgeConfirm_onTime (pake : HostPake) (macA sealedOffer : Bytes) :
    InTime cfg (judgeConfirm C fuel cfg st pake macA sealedOffer) := by
  refine wp_untimed (confirm_untimed pake macA) fun r => ?_
  cases r with
  | error e => exact dropped_onTime fun _ h => by cases h
  | ok sk =>
      dsimp only
      rw [confirmed]
      split
      · exact dropped_onTime fun _ h => by cases h
      · exact answerOffer_onTime _

theorem recvRelay_onTime (timeout : Duration) :
    (recvRelay timeout).wp (watch ws) (fun c' r => c' = c ∧ r ≠ .ok .timedOut) c := by
  refine wp_watched fun r hr => ?_
  rcases r with e | (_ | m)
  · exact ⟨rfl, fun h => by cases h⟩
  · exact absurd rfl hr
  · cases m with
    | relay data =>
        refine ⟨rfl, fun h => ?_⟩
        have hdecode := Except.ok.inj h
        rw [decodeRelay] at hdecode
        split at hdecode
        · cases hdecode
        · split at hdecode <;> cases hdecode
    | _ => exact ⟨rfl, fun h => by cases h⟩

theorem awaitConfirm_onTime (pake : HostPake) :
    InTime cfg (awaitConfirm C fuel cfg st pake) := by
  refine wp_bind.mpr (Prog.wp_mono (recvRelay_onTime _) ?_)
  rintro c r ⟨rfl, hr⟩
  rcases r with e | (m | _ | _ | _)
  · exact nofun
  · cases m with
    | confirm macA sealedOffer => exact judgeConfirm_onTime pake macA sealedOffer
    | _ => exact dropped_onTime nofun
  · exact dropped_onTime nofun
  · rintro _ ⟨⟩
    exact failed_onTime nofun
  · exact absurd rfl hr

theorem respond_untimed (code : OneTimeCode) (hostId : Text) (pa : Bytes) :
    (HostPake.respond C code hostId pa).Uses fun o : Op HostToServer => o.untimed = true := by
  rw [HostPake.respond]
  split
  · trivial
  · refine uses_bind (uses_call.mpr rfl) fun r => ?_
    rcases r with e | ⟨pb, state⟩
    · trivial
    · refine uses_bind (uses_call.mpr rfl) fun r => ?_
      cases r <;> trivial

-- before the peer is there, the readings of the clock are in no wait
theorem read_start (now : Instant) : Clock.start.read now = .start := rfl

theorem recordAttempt_onTime {f : HostState → HostM (ServeResult × HostState)}
    (hf : ∀ st, InTime cfg (f st)) : InTime cfg (recordAttempt st >>= f) := by
  rw [recordAttempt, Prog.bind_assoc]
  refine wp_watched fun now _ => ?_
  change Prog.wp _ _ _ (Clock.start.read now)
  rw [read_start]
  split
  · trivial
  split
  · exact wp_untimed (uses_bind (uses_call.mpr rfl) fun _ => trivial) hf
  · exact hf _

theorem answerStart_onTime (pa : Bytes) : InTime cfg (answerStart C fuel cfg st pa) := by
  refine wp_untimed (respond_untimed _ _ pa) fun r => ?_
  rcases r with e | ⟨pake, pb, macB⟩
  · exact dropped_onTime nofun
  · refine recordAttempt_onTime fun st => wp_untimed (uses_call.mpr rfl) fun sent => ?_
    cases sent with
    | error e => exact nofun
    | ok u => exact awaitConfirm_onTime pake

theorem attempt_onTime : InTime cfg (attempt C fuel cfg st) := by
  refine wp_watched fun now _ => ?_
  change Prog.wp _ _ _ (Clock.start.read now)
  rw [read_start]
  split
  · refine wp_untimed (uses_call.mpr rfl) fun sent => ?_
    cases sent with
    | error e => exact nofun
    | ok u => exact wp_any (with_state (kicked_punctual nofun))
  · refine wp_bind.mpr (Prog.wp_mono (recvRelay_onTime _) ?_)
    rintro c r ⟨rfl, hr⟩
    rcases r with e | (m | _ | _ | _)
    · exact nofun
    · cases m with
      | start pa => exact answerStart_onTime pa
      | _ => exact dropped_onTime nofun
    · exact dropped_onTime nofun
    · rintro _ ⟨⟩
      exact nofun
    · exact absurd rfl hr

-- while no timeout fires, `serve_next` does not end in one
theorem serveNext_onTime : InTime cfg (serveNext C cfg st fuel) := by
  induction fuel with
  | zero => trivial
  | succ fuel ih =>
      refine wp_watched fun r hr => ?_
      rcases r with e | (_ | m)
      · exact nofun
      · exact absurd rfl hr
      · cases m with
        | viewerJoined => exact attempt_onTime
        | _ => exact ih

end

end HostMeets

end SimpleRemote
