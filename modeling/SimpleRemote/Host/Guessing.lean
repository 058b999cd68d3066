import SimpleRemote.Host.Serve

namespace SimpleRemote
open ByteCodec Interaction

variable {C : Crypto}

inductive RunWith (C : Crypto) (ok : HostState → List (Ev HostSig) → Prop) :
    HostState → List (List (Ev HostSig)) → HostState → Prop
  | nil (st : HostState) : RunWith C ok st [] st
  | call {st st' st'' : HostState} {cfg : HostConfig} {fuel : Nat} {tr : List (Ev HostSig)}
      {r : ServeResult} {calls : List (List (Ev HostSig))}
      (h : Exec (serveNext C cfg st fuel) tr (r, st')) (hok : ok st tr)
      (rest : RunWith C ok st' calls st'') : RunWith C ok st (tr :: calls) st''

abbrev Run (C : Crypto) := RunWith C fun _ _ => True

def replayCalls (C : Crypto) (cfg : HostConfig) (fuel : Nat) :
    List (List (Ev HostSig)) → HostState → Option HostState
  | [], st => some st
  | tr :: calls, st =>
      match Prog.replay tr (serveNext C cfg st fuel) with
      | some (_, st') => replayCalls C cfg fuel calls st'
      | none => none

theorem run_of_replay (cfg : HostConfig) (fuel : Nat) {calls : List (List (Ev HostSig))}
    {st st' : HostState} (h : replayCalls C cfg fuel calls st = some st') : Run C st calls st' := by
  induction calls generalizing st with
  | nil =>
      obtain rfl := Option.some.inj h
      exact .nil _
  | cons tr calls ih =>
      rw [replayCalls] at h
      split at h
      · rename_i r st₁ hr
        exact .call (exec_of_replay hr) trivial (ih h)
      · cases h

def HostState.new (code : OneTimeCode) : HostState := ⟨code, .new⟩

section Reply

abbrev replies (o : Op HostToServer) : Prop := isReply o = true

theorem not_replies_relay {msg : PakeMsg} (h : msg.index ≠ 1) :
    ¬ replies (.linkSend (relayOf msg)) := by
  simp [replies, isReply_relayOf, h]

theorem replies_silent (st : HostState) : Silent replies (fun _ => False) st where
  now := nofun
  recv := nofun
  kick := nofun
  retryAfter _ := not_replies_relay (by simp [PakeMsg.index])
  rejected := not_replies_relay (by simp [PakeMsg.index])
  partyBStart := nofun
  finish := nofun
  error := nofun
  failed := nofun
  left := nofun
  waiting o h := by cases o <;> simp_all [replies, isReply, Op.waiting]
  peerNew := nofun
  acceptOffer := nofun
  answer _ := not_replies_relay (by simp [PakeMsg.index])
  localFp := nofun
  remoteFp := nofun
  send := nofun

theorem replies_early : Early replies fun _ => False where
  late st := (replies_silent st).toLate
  generateCode := nofun
  verify := nofun

theorem confirmed_not_replies {fuel : Nat} {cfg : HostConfig} {st : HostState}
    {c : Confirmed C cfg st} {tr : List (Ev HostSig)} {q : HostM (ServeResult × HostState)}
    (h : Path (confirmed C fuel cfg c.state c.keys c.sealedOffer) tr q) :
    ¬ Hits replies (fun _ => False) tr q := by
  intro hh
  have L := replies_silent c.state
  obtain ⟨g, tr', rfl, rfl, h₁, hh₁⟩ := confirmed_gate L h hh
  exact askApproval_never L.toCalm nofun nofun nofun (fun _ => id) h₁ hh₁

theorem attempt_replied {fuel : Nat} {cfg : HostConfig} {st : HostState} {tr : List (Ev HostSig)}
    {q : HostM (ServeResult × HostState)} (h : Path (attempt C fuel cfg st) tr q)
    (hh : ∃ e ∈ tr, replies e.op) :
    ∃ (s : Started C cfg st) (sent : Except LinkError Unit) (rest : List (Ev HostSig)),
      tr = s.trace ++ ⟨.linkSend (relayOf s.reply), sent⟩ :: rest ∧
      ∀ e ∈ rest, isReply e.op = false := by
  obtain ⟨s, tr', rfl, h₁, hh₁⟩ := attempt_started replies_early h (.inl hh)
  rcases path_call h₁ with ⟨rfl, rfl⟩ | ⟨sent, rest, rfl, h₂⟩
  · simp [Hits] at hh₁
  refine ⟨s, sent, rest, rfl, fun e he => ?_⟩
  by_contra hr
  have hh₂ : Hits replies (fun _ => False) rest q := .inl ⟨e, he, by simpa using hr⟩
  cases sent with
  | error err => exact absurd hh₂ (Prog.Never.not_hits (only_ret.mpr id) h₂)
  | ok u =>
      obtain ⟨data, macA, sealedOffer, tr', rfl, hd, h₃, hh₃⟩ :=
        awaitConfirm_hits (replies_early.late _) h₂ hh₂
      obtain ⟨mac, tr', rfl, hmac, h₄, hh₄⟩ := judgeConfirm_hits replies_early h₃ hh₃
      exact confirmed_not_replies (c := ⟨s, data, macA, sealedOffer, hd, mac, hmac⟩) h₄ hh₄

end Reply

theorem recordAttempt_cases {st st' : HostState} {tr : List (Ev HostSig)}
    (h : Exec (recordAttempt st) tr st') :
    ∃ t out, AttemptLimiter.FailureRecorded st.limiter t st'.limiter out ∧
      ((out.rotateCode = true ∧ ∃ code, tr = [⟨.now, t⟩, ⟨.generateCode, code⟩]) ∨
        (out.rotateCode = false ∧ tr = [⟨.now, t⟩])) := by
  obtain ⟨t, tr₁, rfl, h₁⟩ := exec_call_bind.mp h
  split at h₁
  · simp at h₁
  · rename_i limiter out hl
    have hrec := AttemptLimiter.recordFailure_some hl
    split at h₁
    · rename_i hrot
      obtain ⟨code, tr₂, rfl, h₂⟩ := exec_call_bind.mp h₁
      obtain ⟨rfl, rfl⟩ := exec_ret.mp h₂
      exact ⟨t, out, hrec, .inl ⟨hrot, code, rfl⟩⟩
    · rename_i hrot
      obtain ⟨rfl, rfl⟩ := exec_ret.mp h₁
      exact ⟨t, out, hrec, .inr ⟨by simpa using hrot, rfl⟩⟩

structure Watch where
  clock : Instant
  replies : Nat
  last : Instant

def backoff (k : Nat) : Duration := Duration.fromSecs (min (2 ^ (k - 1)) 86400)

def Watch.next (w : Watch) : Ev HostSig → Watch
  | ⟨.now, t⟩ => { w with clock := t }
  | ⟨.verifyPeerConfirmation _ _, .ok _⟩ => { w with replies := 0 }
  | e => if isReply e.op then { w with replies := w.replies + 1, last := w.clock } else w

def rateGuard : Monitor HostSig Watch where
  allow w o := isReply o = true → 1 ≤ w.replies → w.last + backoff w.replies ≤ w.clock
  valid w
    | ⟨.now, t⟩ => w.clock ≤ t
    | _ => True
  next := Watch.next

def readings : List (Ev HostSig) → List Instant
  | [] => []
  | ⟨.now, t⟩ :: tr => t :: readings tr
  | _ :: tr => readings tr

abbrev clockOk (tr : List (Ev HostSig)) : Prop := (readings tr).Pairwise (· ≤ ·)

theorem next_clock {w : Watch} {o : Op HostToServer} {r : HostSig.Res o} (h : o ≠ .now) :
    (w.next ⟨o, r⟩).clock = w.clock := by
  cases o with
  | now => exact absurd rfl h
  | linkSend m =>
      simp only [Watch.next]
      split <;> rfl
  | verifyPeerConfirmation out mac => cases r <;> rfl
  | _ => rfl

theorem readings_cons {o : Op HostToServer} {r : HostSig.Res o} {tr : List (Ev HostSig)}
    (h : o ≠ .now) : readings (⟨o, r⟩ :: tr) = readings tr := by
  cases o <;> first | rfl | exact absurd rfl h

theorem valid_of_pairwise {w : Watch} {tr : List (Ev HostSig)}
    (h : (w.clock :: readings tr).Pairwise (· ≤ ·)) : rateGuard.Valid w tr := by
  induction tr generalizing w with
  | nil => trivial
  | cons e tr ih =>
      obtain ⟨o, r⟩ := e
      by_cases ho : o = .now
      · subst ho
        simp only [readings, List.pairwise_cons, List.mem_cons, forall_eq_or_imp] at h
        exact ⟨h.1.1, ih (List.pairwise_cons.mpr h.2)⟩
      · rw [readings_cons ho] at h
        refine ⟨?_, ih ((next_clock ho).symm ▸ h)⟩
        simp only [rateGuard]
        split
        · rename_i heq
          exact absurd (congrArg Ev.op heq) ho
        · trivial

namespace Watch

def still (e : Ev HostSig) : Prop := isReply e.op = false ∧ isVerified e = false

theorem still_of_quiet {e : Ev HostSig} (h : quiet e = true) : still e := by
  simp only [quiet, Bool.and_eq_true, Bool.not_eq_true'] at h
  exact h.1.1

theorem next_still {w : Watch} {e : Ev HostSig} (h : still e) :
    (w.next e).replies = w.replies ∧ (w.next e).last = w.last := by
  obtain ⟨o, r⟩ := e
  cases o with
  | verifyPeerConfirmation out mac => cases r <;> simp_all [Watch.next, still, isReply, isVerified]
  | linkSend m => simp_all [Watch.next, still]
  | _ => simp_all [Watch.next, still, isReply, isVerified]

theorem run_still {w : Watch} {tr : List (Ev HostSig)} (h : ∀ e ∈ tr, still e) :
    (rateGuard.run w tr).replies = w.replies ∧ (rateGuard.run w tr).last = w.last := by
  induction tr generalizing w with
  | nil => exact ⟨rfl, rfl⟩
  | cons e tr ih =>
      obtain ⟨he, htr⟩ := List.forall_mem_cons.mp h
      obtain ⟨hr, hl⟩ := next_still (w := w) he
      obtain ⟨hr', hl'⟩ := ih (w := w.next e) htr
      exact ⟨hr'.trans hr, hl'.trans hl⟩

def agrees (w : Watch) (l : AttemptLimiter) : Prop :=
  l.consecutiveFailures = w.replies ∧
    (1 ≤ w.replies → l.waitUntil = some (w.last + backoff w.replies))

theorem agrees_still {w : Watch} {l : AttemptLimiter} {tr : List (Ev HostSig)}
    (h : w.agrees l) (hs : ∀ e ∈ tr, still e) : (rateGuard.run w tr).agrees l := by
  obtain ⟨hr, hl⟩ := run_still (w := w) hs
  rw [agrees, hr, hl]
  exact h

theorem agrees_quiet {w : Watch} {l : AttemptLimiter} {tr : List (Ev HostSig)}
    (h : w.agrees l) (hq : ∀ e ∈ tr, quiet e = true) : (rateGuard.run w tr).agrees l :=
  agrees_still h fun e he => still_of_quiet (hq e he)

theorem agrees_cleared {w : Watch} (h : w.replies = 0) : w.agrees .new :=
  ⟨h.symm, fun h' => absurd h' (by omega)⟩

theorem allowed_of_not_replies {w : Watch} {tr : List (Ev HostSig)}
    (h : ∀ e ∈ tr, isReply e.op = false) : rateGuard.Allowed w tr := by
  induction tr generalizing w with
  | nil => trivial
  | cons e tr ih =>
      obtain ⟨he, htr⟩ := List.forall_mem_cons.mp h
      exact ⟨fun hr => absurd (he.symm.trans hr) (by simp), ih htr⟩

end Watch

namespace Started
variable {cfg : HostConfig} {st : HostState}

theorem run_trace (s : Started C cfg st) (w : Watch) (hv : rateGuard.Valid w s.trace) :
    ∃ t out, AttemptLimiter.FailureRecorded st.limiter t s.recordedState.limiter out ∧
      s.checkedAt ≤ t ∧ rateGuard.run w s.trace = { w with clock := t } := by
  obtain ⟨t, out, hrec, htr⟩ := recordAttempt_cases s.recorded
  refine ⟨t, out, hrec, ?_⟩
  have hrecord : s.recordTrace = [⟨.now, t⟩] ∨
      ∃ code, s.recordTrace = [⟨.now, t⟩, ⟨.generateCode, code⟩] :=
    htr.elim (fun h => .inr h.2) fun h => .inl h.2
  rcases hrecord with hrecord | ⟨code, hrecord⟩ <;>
    simp_all [Started.trace, Monitor.Valid, rateGuard, Watch.next, isReply]

theorem check_passed (s : Started C cfg st) {w : Watch} (h : w.agrees st.limiter)
    (hw : 1 ≤ w.replies) : w.last + backoff w.replies ≤ s.checkedAt :=
  AttemptLimiter.check_ok.mp s.checked _ (h.2 hw)

theorem agrees_replied (s : Started C cfg st) {w : Watch} (sent : Except LinkError Unit)
    (h : w.agrees st.limiter) (hv : rateGuard.Valid w s.trace) :
    (rateGuard.run w (s.trace ++ [⟨.linkSend (relayOf s.reply), sent⟩])).agrees
      s.recordedState.limiter := by
  obtain ⟨t, out, hrec, -, hrun⟩ := s.run_trace w hv
  have hreply : isReply (.linkSend (relayOf s.reply)) = true := by
    simp [isReply_relayOf, Started.reply, PakeMsg.index]
  rw [Monitor.run_append, hrun, Monitor.run_cons, Monitor.run_nil]
  simp only [rateGuard, Watch.next, hreply, if_true]
  refine ⟨by rw [hrec.consecutive, h.1], fun _ => ?_⟩
  rw [hrec.waitUntil, h.1]
  rfl

end Started

theorem Confirmed.run_trace {cfg : HostConfig} {st : HostState} (c : Confirmed C cfg st) (w : Watch) :
    (rateGuard.run w c.trace).replies = 0 := by
  rw [Confirmed.trace, Monitor.run_append]
  rfl

theorem Served.agrees {cfg : HostConfig} {st st' : HostState} {tr : List (Ev HostSig)} {w : Watch}
    (h : Served C cfg st tr st') (hw : w.agrees st.limiter) (hv : rateGuard.Valid w tr) :
    (rateGuard.run w tr).agrees st'.limiter := by
  cases h with
  | quiet hq => exact Watch.agrees_quiet hw hq
  | @replied s pre rest sent hpre hrest =>
      rw [Monitor.valid_append, Monitor.valid_append] at hv
      have hs := s.agrees_replied sent (Watch.agrees_quiet hw hpre) hv.2.1
      rw [List.append_cons, Monitor.run_append, Monitor.run_append]
      exact Watch.agrees_quiet hs hrest
  | @confirmed c pre rest hpre hrest =>
      rw [Monitor.run_append, Monitor.run_append]
      exact Watch.agrees_quiet (Watch.agrees_cleared (c.run_trace _)) hrest
  | @accepted c pre rest code hpre hrest =>
      rw [Monitor.run_append, Monitor.run_append]
      refine Watch.agrees_still (Watch.agrees_cleared (c.run_trace _)) ?_
      refine List.forall_mem_append.mpr ⟨fun e he => Watch.still_of_quiet (hrest e he), ?_⟩
      simp [Watch.still, isReply, isVerified]

theorem Started.not_replies {cfg : HostConfig} {st : HostState} (s : Started C cfg st) :
    ∀ e ∈ s.trace, isReply e.op = false := by
  obtain ⟨t, out, -, ⟨-, code, htr⟩ | ⟨-, htr⟩⟩ := recordAttempt_cases s.recorded <;>
    simp [Started.trace, htr, isReply]

theorem skips_still {cfg : HostConfig} {e : Ev HostSig} (h : skips cfg e) : Watch.still e := by
  obtain ⟨r, rfl, -⟩ := h
  exact ⟨rfl, rfl⟩

theorem serveNext_replied {cfg : HostConfig} {st : HostState} {fuel : Nat}
    {tr : List (Ev HostSig)} {q : HostM (ServeResult × HostState)}
    (h : Path (serveNext C cfg st fuel) tr q) (hh : ∃ e ∈ tr, isReply e.op = true) :
    ∃ (pre : List (Ev HostSig)) (s : Started C cfg st) (sent : Except LinkError Unit)
      (rest : List (Ev HostSig)),
      tr = pre ++ (s.trace ++ ⟨.linkSend (relayOf s.reply), sent⟩ :: rest) ∧
      (∀ e ∈ pre, Watch.still e) ∧ (∀ e ∈ rest, isReply e.op = false) := by
  obtain ⟨n, skipped, tr', rfl, hs, h₁, hh₁⟩ := serveNext_hits (replies_early.late st) h (.inl hh)
  obtain ⟨s, sent, rest, rfl, hrest⟩ := attempt_replied h₁ (hh₁.resolve_right nofun)
  refine ⟨skipped ++ [viewerJoined cfg], s, sent, rest, by simp, ?_, hrest⟩
  exact List.forall_mem_append.mpr ⟨fun e he => skips_still (hs e he),
    by simp [viewerJoined, Watch.still, isReply, isVerified]⟩

theorem serveNext_allowed {cfg : HostConfig} {st : HostState} {fuel : Nat}
    {tr : List (Ev HostSig)} {q : HostM (ServeResult × HostState)} {w : Watch}
    (h : Path (serveNext C cfg st fuel) tr q) (hw : w.agrees st.limiter)
    (hv : rateGuard.Valid w tr) : rateGuard.Allowed w tr := by
  by_cases hh : ∃ e ∈ tr, isReply e.op = true
  · obtain ⟨pre, s, sent, rest, rfl, hpre, hrest⟩ := serveNext_replied h hh
    rw [Monitor.valid_append, Monitor.valid_append] at hv
    obtain ⟨t, out, -, hle, hrun⟩ := s.run_trace (rateGuard.run w pre) hv.2.1
    rw [Monitor.allowed_append, Monitor.allowed_append, hrun]
    refine ⟨Watch.allowed_of_not_replies fun e he => (hpre e he).1,
      Watch.allowed_of_not_replies s.not_replies, fun _ hr => ?_,
      Watch.allowed_of_not_replies hrest⟩
    exact le_trans (s.check_passed (Watch.agrees_still hw hpre) hr) hle
  · exact Watch.allowed_of_not_replies fun e he => by simpa using fun hr => hh ⟨e, he, hr⟩

theorem RunWith.allowed {ok : HostState → List (Ev HostSig) → Prop} {st st' : HostState}
    {calls : List (List (Ev HostSig))} {w : Watch}
    (h : RunWith C ok st calls st') (hw : w.agrees st.limiter) (hv : rateGuard.Valid w calls.flatten) :
    rateGuard.Allowed w calls.flatten ∧ (rateGuard.run w calls.flatten).agrees st'.limiter := by
  induction h generalizing w with
  | nil st => exact ⟨trivial, hw⟩
  | call h _ _ ih =>
      rw [List.flatten_cons, Monitor.valid_append] at hv
      obtain ⟨hall, hagree⟩ := ih ((serveNext_served h).agrees hw hv.1) hv.2
      rw [List.flatten_cons, Monitor.allowed_append, Monitor.run_append]
      exact ⟨⟨serveNext_allowed h hw hv.1, hall⟩, hagree⟩

theorem serveNext_joined {cfg : HostConfig} {st : HostState} {fuel : Nat}
    {skipped rest : List (Ev HostSig)} {q : HostM (ServeResult × HostState)}
    (h : Path (serveNext C cfg st fuel) (skipped ++ viewerJoined cfg :: rest) q)
    (hs : ∀ e ∈ skipped, skips cfg e) : ∃ n, Path (attempt C n cfg st) rest q := by
  induction skipped generalizing fuel with
  | nil =>
      cases fuel with
      | zero => exact absurd (path_halt h).1 (by simp)
      | succ fuel =>
          rw [serveNext] at h
          rcases path_call h with ⟨h', -⟩ | ⟨r, tr, htr, h'⟩
          · cases h'
          · obtain ⟨he, rfl⟩ := List.cons.inj htr
            cases he
            exact ⟨fuel, h'⟩
  | cons e skipped ih =>
      obtain ⟨⟨r, rfl, hr⟩, hs'⟩ := List.forall_mem_cons.mp hs
      cases fuel with
      | zero => exact absurd (path_halt h).1 (by simp)
      | succ fuel =>
          rw [serveNext] at h
          rcases path_call h with ⟨h', -⟩ | ⟨r', tr, htr, h'⟩
          · cases h'
          · obtain ⟨he, rfl⟩ := List.cons.inj htr
            cases he
            rcases r with err | _ | m
            · exact absurd (path_ret h').1 (by simp)
            · exact ih h' hs'
            · cases m with
              | viewerJoined => exact absurd rfl hr
              | _ => exact ih h' hs'

def refusal (o : Op HostToServer) : Prop :=
  (∃ ms, o = .linkSend (relayOf (.retryAfter ms))) ∨ o = .linkSend .kick

theorem attempt_refused {cfg : HostConfig} {st : HostState} {fuel : Nat} {t : Instant}
    {post : List (Ev HostSig)} {q : HostM (ServeResult × HostState)} {wait : Duration}
    (h : Path (attempt C fuel cfg st) (⟨.now, t⟩ :: post) q)
    (hc : st.limiter.check t = .error wait) : ∀ e ∈ post, refusal e.op := by
  rw [attempt] at h
  rcases path_call h with ⟨h', -⟩ | ⟨t', tr, htr, h'⟩
  · cases h'
  obtain ⟨he, rfl⟩ := List.cons.inj htr
  cases he
  simp only [hc] at h'
  refine (Prog.Only.path (R := fun _ => True) (P := refusal) ?_ h').1
  refine ⟨.inl ⟨_, rfl⟩, fun r => ?_⟩
  cases r with
  | error e => trivial
  | ok u =>
      refine ⟨.inr rfl, fun r => ?_⟩
      cases r <;> trivial

theorem Watch.check_refused {w : Watch} {l : AttemptLimiter} {t : Instant} (h : w.agrees l)
    (hw : 1 ≤ w.replies) (ht : t < w.last + backoff w.replies) :
    ∃ wait, l.check t = .error wait := by
  rw [AttemptLimiter.check, h.2 hw]
  exact ⟨_, if_pos ht⟩

def Watch.start : Watch := ⟨0, 0, 0⟩

def watched (tr : List (Ev HostSig)) : Watch := rateGuard.run .start tr

theorem Watch.start_agrees : Watch.start.agrees .new :=
  ⟨rfl, fun h => absurd h (by simp [Watch.start])⟩

theorem Watch.start_valid {tr : List (Ev HostSig)} (h : clockOk tr) :
    rateGuard.Valid .start tr :=
  valid_of_pairwise (List.pairwise_cons.mpr ⟨fun _ _ => Nat.zero_le _, h⟩)

structure RateKept (C : Crypto) (cfg : HostConfig) (st : HostState)
    (earlier tr : List (Ev HostSig)) (q : HostM (ServeResult × HostState)) : Prop where
  replied : (∃ e ∈ tr, isReply e.op = true) →
    ∃ (pre : List (Ev HostSig)) (s : Started C cfg st) (sent : Except LinkError Unit)
      (rest : List (Ev HostSig)),
      tr = pre ++ (s.trace ++ ⟨.linkSend (relayOf s.reply), sent⟩ :: rest) ∧
      (∀ e ∈ pre, Watch.still e) ∧ (∀ e ∈ s.trace, isReply e.op = false) ∧
      (∀ e ∈ rest, isReply e.op = false) ∧
      s.recordedState.limiter.consecutiveFailures = st.limiter.consecutiveFailures + 1
  cleared : ∀ r st', q = .ret (r, st') → Served C cfg st tr st'
  spaced : clockOk (earlier ++ tr) → ∀ pre e post,
    earlier ++ tr = pre ++ e :: post → isReply e.op = true → 1 ≤ (watched pre).replies →
    (watched pre).last + backoff (watched pre).replies ≤ (watched pre).clock
  refused : clockOk (earlier ++ tr) → ∀ skipped t post,
    tr = skipped ++ viewerJoined cfg :: ⟨.now, t⟩ :: post → (∀ e ∈ skipped, skips cfg e) →
    1 ≤ (watched earlier).replies →
    t < (watched earlier).last + backoff (watched earlier).replies →
    ∀ e ∈ post, refusal e.op

theorem guess_rate {code : OneTimeCode} {calls : List (List (Ev HostSig))} {st : HostState}
    (hrun : Run C (.new code) calls st) {cfg : HostConfig} {fuel : Nat} {tr : List (Ev HostSig)}
    {q : HostM (ServeResult × HostState)} (hlast : Path (serveNext C cfg st fuel) tr q) :
    RateKept C cfg st calls.flatten tr q where
  replied hh := by
    obtain ⟨pre, s, sent, rest, rfl, hpre, hrest⟩ := serveNext_replied hlast hh
    obtain ⟨t, out, hrec, -⟩ := recordAttempt_cases s.recorded
    exact ⟨pre, s, sent, rest, rfl, hpre, s.not_replies, hrest, hrec.consecutive⟩
  cleared r st' hq := serveNext_served (hq ▸ hlast)
  spaced hclock pre e post htr he hw := by
    have hv := Watch.start_valid hclock
    rw [Monitor.valid_append] at hv
    obtain ⟨hall, hagree⟩ := hrun.allowed Watch.start_agrees hv.1
    have hallowed : rateGuard.Allowed .start (calls.flatten ++ tr) :=
      (rateGuard.allowed_append _ _ _).mpr ⟨hall, serveNext_allowed hlast hagree hv.2⟩
    rw [htr] at hallowed
    exact hallowed.at he hw
  refused hclock skipped t post htr hs hw ht := by
    have hv := Watch.start_valid hclock
    rw [Monitor.valid_append] at hv
    obtain ⟨-, hagree⟩ := hrun.allowed Watch.start_agrees hv.1
    obtain ⟨wait, hc⟩ := Watch.check_refused hagree hw ht
    subst htr
    obtain ⟨n, h⟩ := serveNext_joined hlast hs
    exact attempt_refused h hc

def sampleWrong (t : Instant) (assigned : List (Ev HostSig)) : List (Ev HostSig) :=
  sampleStart t assigned ++
    [⟨.linkRecv HostConfig.sample.timeouts.signalingStep, .ok (some .viewerLeft)⟩]

def sampleAfter (consecutive onCode : Nat) (waitUntil : Instant) : HostState :=
  ⟨.sample, ⟨consecutive, onCode, some waitUntil⟩⟩

theorem sample_guess_rate :
    RateKept .sample .sample (sampleAfter 1 1 1000000010) (sampleWrong 10 [])
      (sampleWrong 2000000000 [])
      (.ret (.ok (.failed .noConfirm), sampleAfter 2 2 4000000000)) ∧
    (watched (sampleWrong 10 [])).replies = 1 ∧
    (∃ e ∈ sampleWrong 2000000000 [], isReply e.op = true) := by
  refine ⟨?_, by decide, by decide⟩
  have hfirst : Exec (serveNext .sample .sample (.new .sample) 5) (sampleWrong 10 [])
      (.ok (.failed .noConfirm), sampleAfter 1 1 1000000010) := exec_of_replay (by decide)
  have hsecond : Exec (serveNext .sample .sample (sampleAfter 1 1 1000000010) 5)
      (sampleWrong 2000000000 []) (.ok (.failed .noConfirm), sampleAfter 2 2 4000000000) :=
    exec_of_replay (by decide)
  have hrun : Run .sample (.new .sample) [sampleWrong 10 []] (sampleAfter 1 1 1000000010) :=
    .call hfirst trivial (.nil _)
  exact guess_rate hrun hsecond

section Budget

def assigns (tr : List (Ev HostSig)) : Nat := tr.countP fun e => isAssign e.op

def bad (tr : List (Ev HostSig)) : Bool :=
  tr.any (fun e => isReply e.op) && !tr.any isVerified

-- attempts begun in generation `gen` that got a Reply and gave no correct MAC, with `now` the
-- generation of the first call
def badIn (gen now : Nat) : List (List (Ev HostSig)) → Nat
  | [] => 0
  | tr :: calls => (if gen = now ∧ bad tr = true then 1 else 0) + badIn gen (now + assigns tr) calls

def keepsCount (st : HostState) (tr : List (Ev HostSig)) : Prop :=
  tr.any isVerified = true →
    st.limiter.failuresOnCode = 0 ∨ st.limiter.failuresOnCode = 4 ∨ tr.any isAccepted = true

theorem badIn_of_lt {gen now : Nat} (h : gen < now) (calls : List (List (Ev HostSig))) :
    badIn gen now calls = 0 := by
  induction calls generalizing now with
  | nil => rfl
  | cons tr calls ih => simp [badIn, Nat.ne_of_lt h, ih (Nat.lt_add_right _ h)]

theorem assigns_append (tr tr' : List (Ev HostSig)) : assigns (tr ++ tr') = assigns tr + assigns tr' :=
  List.countP_append ..

theorem assigns_quiet {tr : List (Ev HostSig)} (h : ∀ e ∈ tr, quiet e = true) : assigns tr = 0 := by
  refine List.countP_eq_zero.mpr fun e he => ?_
  have := h e he
  simp_all [quiet]

theorem any_quiet {tr : List (Ev HostSig)} (h : ∀ e ∈ tr, quiet e = true) :
    tr.any (fun e => isReply e.op) = false ∧ tr.any isVerified = false ∧
      tr.any isAccepted = false := by
  simp only [List.any_eq_false, Bool.not_eq_true]
  have (e : Ev HostSig) (he : e ∈ tr) := h e he
  simp only [quiet, Bool.and_eq_true, Bool.not_eq_true'] at this
  exact ⟨fun e he => (this e he).1.1.1, fun e he => (this e he).1.1.2, fun e he => (this e he).2⟩

structure Counted (f f' : Nat) (assigned : Nat) : Prop where
  rotated : 4 ≤ f → f' = 0 ∧ assigned = 1
  kept : f < 4 → f' = f + 1 ∧ assigned = 0

theorem Started.counted {cfg : HostConfig} {st : HostState} (s : Started C cfg st) :
    Counted st.limiter.failuresOnCode s.recordedState.limiter.failuresOnCode (assigns s.trace) := by
  obtain ⟨t, out, hrec, ⟨hrot, code, htr⟩ | ⟨hrot, htr⟩⟩ := recordAttempt_cases s.recorded
  · have hf : 5 ≤ st.limiter.failuresOnCode + 1 := hrec.rotate.mp hrot
    have hassigns : assigns s.trace = 1 := by simp [Started.trace, htr, assigns, isAssign]
    exact ⟨fun _ => ⟨by rw [hrec.onCode, if_pos hrot], hassigns⟩, fun h => absurd hf (by omega)⟩
  · have hf : ¬ 5 ≤ st.limiter.failuresOnCode + 1 := fun h => by simp [hrec.rotate.mpr h] at hrot
    have hassigns : assigns s.trace = 0 := by simp [Started.trace, htr, assigns, isAssign]
    exact ⟨fun h => absurd h (by omega), fun _ => ⟨by rw [hrec.onCode]; simp [hrot], hassigns⟩⟩

theorem Started.any_trace {cfg : HostConfig} {st : HostState} (s : Started C cfg st) :
    s.trace.any isVerified = false ∧ s.trace.any isAccepted = false := by
  obtain ⟨t, out, -, ⟨-, code, htr⟩ | ⟨-, htr⟩⟩ := recordAttempt_cases s.recorded <;>
    simp [Started.trace, htr, isVerified, isAccepted]

structure Spent (f f' : Nat) (tr : List (Ev HostSig)) : Prop where
  bound : f' ≤ 4
  same : assigns tr = 0 → f + (if bad tr = true then 1 else 0) ≤ f'
  fresh : f + (if bad tr = true then 1 else 0) ≤ 5

theorem Confirmed.verified {cfg : HostConfig} {st : HostState} (c : Confirmed C cfg st) :
    c.trace.any isVerified = true := by
  simp [Confirmed.trace, isVerified]

theorem not_bad_of_confirmed {cfg : HostConfig} {st : HostState} (c : Confirmed C cfg st)
    (pre rest : List (Ev HostSig)) : bad (pre ++ (c.trace ++ rest)) = false := by
  simp [bad, c.verified]

theorem Confirmed.assigns_trace {cfg : HostConfig} {st : HostState} (c : Confirmed C cfg st) :
    assigns c.trace = assigns c.toStarted.trace := by
  simp [Confirmed.trace, assigns, isAssign]

theorem Served.spent {cfg : HostConfig} {st st' : HostState} {tr : List (Ev HostSig)}
    (h : Served C cfg st tr st') (hk : keepsCount st tr) (hf : st.limiter.failuresOnCode ≤ 4) :
    Spent st.limiter.failuresOnCode st'.limiter.failuresOnCode tr := by
  cases h with
  | quiet hq =>
      have hbad : bad tr = false := by simp [bad, any_quiet hq]
      exact ⟨hf, fun _ => by simp [hbad], by simp [hbad]; omega⟩
  | @replied s pre rest sent hpre hrest =>
      have hc := s.counted
      have hassigns : assigns (pre ++ (s.trace ++ ⟨.linkSend (relayOf s.reply), sent⟩ :: rest)) =
          assigns s.trace := by
        have hreply : assigns (⟨.linkSend (relayOf s.reply), sent⟩ :: rest) = 0 := by
          rw [assigns, List.countP_cons_of_neg (by simp [isAssign])]
          exact assigns_quiet hrest
        rw [assigns_append, assigns_append, assigns_quiet hpre, hreply]
        omega
      by_cases hlt : st.limiter.failuresOnCode < 4
      · obtain ⟨hf', -⟩ := hc.kept hlt
        refine ⟨by omega, fun _ => ?_, ?_⟩ <;> split <;> omega
      · obtain ⟨hf', ha⟩ := hc.rotated (by omega)
        refine ⟨by omega, fun h => absurd (hassigns.symm.trans h) (by omega), ?_⟩
        split <;> omega
  | @confirmed c pre rest hpre hrest =>
      have hbad := not_bad_of_confirmed c pre rest
      have haccepted : (pre ++ (c.trace ++ rest)).any isAccepted = false := by
        simp only [List.any_append, (any_quiet hpre).2.2, (any_quiet hrest).2.2, Confirmed.trace,
          c.any_trace.2]
        simp [isAccepted]
      refine ⟨Nat.zero_le 4, fun h => ?_, by simp [hbad]; omega⟩
      rw [assigns_append, assigns_append, c.assigns_trace] at h
      have hlt : st.limiter.failuresOnCode < 4 := by
        by_contra hge
        have := (c.counted.rotated (by omega)).2
        omega
      rcases hk (by simp [c.verified]) with h0 | h4 | ha
      · simp [hbad, h0]
      · omega
      · simp [haccepted] at ha
  | @accepted c pre rest code hpre hrest =>
      have hbad := not_bad_of_confirmed c pre (rest ++
        [⟨.peerSend (Control.encode (.decision .accepted)), .ok ()⟩, ⟨.generateCode, code⟩])
      refine ⟨Nat.zero_le 4, fun h => ?_, by simp [hbad]; omega⟩
      simp [assigns, isAssign] at h

theorem RunWith.spent {st st' : HostState} {calls : List (List (Ev HostSig))}
    (h : RunWith C keepsCount st calls st') (hf : st.limiter.failuresOnCode ≤ 4)
    (gen now : Nat) (tr : List (Ev HostSig)) :
    (if gen = now then st.limiter.failuresOnCode else 0) + badIn gen now (calls ++ [tr]) ≤ 5 := by
  induction h generalizing now with
  | nil st =>
      simp only [List.nil_append, badIn]
      split <;> split <;> omega
  | @call st st₁ st₂ cfg fuel tr₁ r calls h hok _ ih =>
      obtain ⟨hbound, hsame, hfresh⟩ := (serveNext_served h).spent hok hf
      have hrest := ih hbound (now + assigns tr₁)
      rw [List.cons_append, badIn]
      by_cases hg : gen = now
      · subst hg
        by_cases ha : assigns tr₁ = 0
        · have := hsame ha
          simp_all
          omega
        · rw [badIn_of_lt (show gen < gen + assigns tr₁ by omega)]
          simp_all
      · simp only [hg, if_false, false_and]
        omega

theorem guess_budget_spared {code : OneTimeCode} {calls : List (List (Ev HostSig))}
    {st : HostState} (hrun : RunWith C keepsCount (.new code) calls st) (gen : Nat)
    (tr : List (Ev HostSig)) : badIn gen 0 (calls ++ [tr]) ≤ 5 := by
  have := hrun.spent (Nat.zero_le 4) gen 0 tr
  omega

theorem sample_guess_budget_spared :
    badIn 0 0 ([sampleSession, sampleWrong 2000000000 []] ++ [sampleWrong 4000000000 []]) ≤ 5 := by
  have hfirst : Exec (serveNext .sample .sample (.new .sample) 5) sampleSession
      (.ok (.session sampleServed), .new .sample) := exec_of_replay (by decide +kernel)
  have hsecond : Exec (serveNext .sample .sample (.new .sample) 5) (sampleWrong 2000000000 [])
      (.ok (.failed .noConfirm), sampleAfter 1 1 3000000000) := exec_of_replay (by decide)
  exact guess_budget_spared
    (.call hfirst (fun _ => .inl rfl) (.call hsecond (fun _ => .inl rfl) (.nil _))) 0 _

def sampleUnconnected (t : Instant) : List (Ev HostSig) :=
  sampleStart t [] ++
  [relayed (.confirm (filled 32 8).val (sampleSealed sampleKeys.viewerToHost labelV2h)),
    ⟨.verifyPeerConfirmation sampleOutput (filled 32 8), .ok ()⟩,
    ⟨.peerNew sampleIps, .ok ()⟩, ⟨.acceptOffer ['s'], .ok ['s']⟩,
    relays (.answer (sampleSealed sampleKeys.hostToViewer labelH2v)),
    ⟨.now, t⟩, ⟨.now, t⟩, ⟨.poll (Duration.fromSecs 10), .ok [.closed]⟩, ⟨.peerClose, ()⟩,
    ⟨.poll 0, .ok []⟩, ⟨.linkSend .kick, .ok ()⟩]

def sampleGuesses : List (List (Ev HostSig)) :=
  [sampleWrong 10 [], sampleUnconnected 2000000000, sampleWrong 3000000000 [],
    sampleWrong 5000000000 [], sampleWrong 8000000000 [], sampleWrong 13000000000 [],
    sampleWrong 22000000000 [⟨.generateCode, .sample⟩]]

theorem guess_budget_exceeded :
    ∃ st, Run .sample (.new .sample) sampleGuesses st ∧
      clockOk sampleGuesses.flatten ∧ 5 < badIn 0 0 sampleGuesses := by
  refine ⟨sampleAfter 5 0 38000000000, run_of_replay .sample 5 ?_, ?_, ?_⟩ <;> decide +kernel

end Budget

end SimpleRemote
