import Mathlib.Data.List.Induction
import SimpleRemote.Host.Attempts

namespace SimpleRemote

def checkedAdd (width a b : Nat) : Option Nat := if a + b < 2 ^ width then some (a + b) else none

def checkedSub (a b : Nat) : Option Nat := if b ≤ a then some (a - b) else none

def checkedShl (width a k : Nat) : Option Nat :=
  if k < width ∧ a * 2 ^ k < 2 ^ width then some (a <<< k) else none

namespace AttemptLimiter

def checkedBackoff (n : Nat) : Option Nat := do
  let doublings ← checkedSub n 1
  if 17 ≤ doublings then some 86400 else (checkedShl 64 1 doublings).map (min · 86400)

-- `recordFailure` with every operation of its own on u32 and u64 checked: `none` is the one that
-- underflows, shifts a bit out or overflows
def recordFailureChecked (l : AttemptLimiter) (now : Instant) :
    Option (AttemptLimiter × FailureOutcome) := do
  let consecutiveFailures ← checkedAdd 32 l.consecutiveFailures 1
  let failuresOnCode ← checkedAdd 32 l.failuresOnCode 1
  let secs ← checkedBackoff consecutiveFailures
  let rotateCode := decide (5 ≤ failuresOnCode)
  return (⟨consecutiveFailures, if rotateCode then 0 else failuresOnCode,
    some (now + Duration.fromSecs secs)⟩, ⟨rotateCode⟩)

theorem checkedShl_one {k : Nat} (h : k < 17) : checkedShl 64 1 k = some (1 <<< k) := by
  have hpow : 2 ^ k < 2 ^ 64 := Nat.pow_lt_pow_right (by decide) (by omega)
  rw [checkedShl, if_pos]
  constructor
  · omega
  · rwa [Nat.one_mul]

theorem checkedBackoff_succ (k : Nat) : checkedBackoff (k + 1) = some (backoffSecs (k + 1)) := by
  have hsub : checkedSub (k + 1) 1 = some k := if_pos (Nat.le_add_left 1 k)
  rw [checkedBackoff, hsub, backoffSecs, Nat.add_sub_cancel]
  dsimp only [Option.bind_eq_bind, Option.bind_some]
  split
  · rfl
  · rw [checkedShl_one (by omega)]
    rfl

theorem recordFailureChecked_eq (l : AttemptLimiter) (now : Instant) :
    l.recordFailureChecked now = l.recordFailure now := by
  rw [recordFailureChecked, recordFailure, checkedAdd, checkedAdd]
  by_cases hconsecutive : l.consecutiveFailures + 1 < 2 ^ 32
  · by_cases honCode : l.failuresOnCode + 1 < 2 ^ 32
    · rw [if_pos hconsecutive, if_pos honCode, if_pos ⟨hconsecutive, honCode⟩]
      dsimp only [Option.bind_eq_bind, Option.bind_some]
      rw [checkedBackoff_succ]
      rfl
    · rw [if_pos hconsecutive, if_neg honCode, if_neg fun h => honCode h.2]
      rfl
  · have hnot : ¬ (l.consecutiveFailures + 1 < 2 ^ 32 ∧ l.failuresOnCode + 1 < 2 ^ 32) :=
      fun h => hconsecutive h.1
    rw [if_neg hconsecutive, if_neg hnot]
    rfl

inductive Call where
  | recordFailure (now : Instant)
  | recordSuccess

def perform (l : AttemptLimiter) : Call → Option AttemptLimiter
  | .recordFailure now => (l.recordFailureChecked now).map Prod.fst
  | .recordSuccess => some l.recordSuccess

def Call.isFailure : Call → Bool
  | .recordFailure _ => true
  | .recordSuccess => false

-- the times of the failures since the last success, the last one first
def since : List Instant → Call → List Instant
  | times, .recordFailure now => now :: times
  | _, .recordSuccess => []

def failuresSince (calls : List Call) : List Instant := calls.foldl since []

def doubled : List Instant → Option Instant
  | [] => none
  | t :: earlier => some (t + Duration.fromSecs (min (2 ^ earlier.length) 86400))

def checkReference (times : List Instant) (now : Instant) : Except Duration Unit :=
  match doubled times with
  | none => .ok ()
  | some t => if now < t then .error (t - now) else .ok ()

structure Matches (l : AttemptLimiter) (times : List Instant) : Prop where
  consecutive : l.consecutiveFailures = times.length
  onCode : l.failuresOnCode = times.length % 5
  waitUntil : l.waitUntil = doubled times

theorem matches_new : Matches new [] := ⟨rfl, rfl, rfl⟩

theorem Matches.check {l : AttemptLimiter} {times : List Instant} (h : Matches l times)
    (now : Instant) : l.check now = checkReference times now := by
  rw [AttemptLimiter.check, checkReference, h.waitUntil]
  cases doubled times <;> rfl

theorem Matches.recordFailure {l : AttemptLimiter} {times : List Instant} (h : Matches l times)
    (hfew : times.length + 1 < 2 ^ 32) (now : Instant) :
    ∃ l' out, l.recordFailureChecked now = some (l', out) ∧ Matches l' (now :: times) ∧
      (out.rotateCode = true ↔ 5 ∣ times.length + 1) := by
  have hconsecutive := h.consecutive
  have honCode := h.onCode
  rw [recordFailureChecked_eq, AttemptLimiter.recordFailure, if_pos ⟨by omega, by omega⟩]
  refine ⟨_, _, rfl, ⟨?_, ?_, ?_⟩, ?_⟩
  · exact congrArg (· + 1) hconsecutive
  · have hcase : decide (5 ≤ l.failuresOnCode + 1) = true ↔ 5 ≤ l.failuresOnCode + 1 := by simp
    dsimp only
    split <;> simp_all <;> omega
  · dsimp only [doubled]
    rw [backoffSecs_eq, Nat.add_sub_cancel, hconsecutive]
  · simp only [decide_eq_true_eq]
    omega

theorem Matches.recordSuccess (l : AttemptLimiter) : Matches l.recordSuccess [] := ⟨rfl, rfl, rfl⟩

theorem Matches.perform {l : AttemptLimiter} {times : List Instant} (h : Matches l times)
    {call : Call} (hfew : times.length + [call].countP Call.isFailure < 2 ^ 32) :
    ∃ l', l.perform call = some l' ∧ Matches l' (since times call) := by
  cases call with
  | recordFailure now =>
      obtain ⟨l', out, hrecord, hmatches, -⟩ := h.recordFailure hfew now
      exact ⟨l', by rw [AttemptLimiter.perform, hrecord]; rfl, hmatches⟩
  | recordSuccess => exact ⟨_, rfl, Matches.recordSuccess l⟩

theorem length_since_le (times : List Instant) (call : Call) :
    (since times call).length ≤ times.length + [call].countP Call.isFailure := by
  cases call with
  | recordFailure now => exact Nat.le_refl _
  | recordSuccess => exact Nat.zero_le _

theorem Matches.run {l : AttemptLimiter} {times : List Instant} (h : Matches l times)
    {calls : List Call} (hfew : times.length + calls.countP Call.isFailure < 2 ^ 32) :
    ∃ l', calls.foldlM AttemptLimiter.perform l = some l' ∧ Matches l' (calls.foldl since times) := by
  induction calls generalizing l times with
  | nil => exact ⟨l, rfl, h⟩
  | cons call calls ih =>
      have hcount : (call :: calls).countP Call.isFailure =
          [call].countP Call.isFailure + calls.countP Call.isFailure :=
        @List.countP_append _ _ [call] calls
      have hle := length_since_le times call
      obtain ⟨l₁, hperform, h₁⟩ := @Matches.perform l times h call (by omega)
      obtain ⟨l', hrun, h'⟩ := ih h₁ (by omega)
      refine ⟨l', ?_, h'⟩
      rw [List.foldlM_cons, hperform]
      exact hrun

theorem matches_calls {calls : List Call} (hfew : calls.countP Call.isFailure < 2 ^ 32) :
    ∃ l, calls.foldlM perform new = some l ∧ Matches l (failuresSince calls) :=
  matches_new.run (by simpa using hfew)

theorem length_failuresSince_le (calls : List Call) :
    (failuresSince calls).length ≤ calls.countP Call.isFailure := by
  induction calls using List.reverseRecOn with
  | nil => exact Nat.le_refl 0
  | append_singleton calls call ih =>
      have hle := length_since_le (failuresSince calls) call
      rw [failuresSince, List.foldl_append, List.countP_append]
      exact hle.trans (Nat.add_le_add_right ih _)

theorem limiter_reference {calls : List Call} (hfew : calls.countP Call.isFailure < 2 ^ 32) :
    (∃ l, calls.foldlM perform new = some l ∧
      (∀ now, l.check now = checkReference (failuresSince calls) now) ∧
      l.consecutiveFailures = (failuresSince calls).length ∧
      l.failuresOnCode = l.consecutiveFailures % 5) ∧
    ∀ before now after, calls = before ++ .recordFailure now :: after →
      ∃ l l' out, before.foldlM perform new = some l ∧
        l.recordFailureChecked now = some (l', out) ∧ l.recordFailure now = some (l', out) ∧
        (out.rotateCode = true ↔ 5 ∣ (failuresSince before).length + 1) := by
  constructor
  · obtain ⟨l, hrun, hmatches⟩ := matches_calls hfew
    refine ⟨l, hrun, hmatches.check, hmatches.consecutive, ?_⟩
    rw [hmatches.onCode, hmatches.consecutive]
  · intro before now after hsplit
    have hcount : calls.countP Call.isFailure =
        before.countP Call.isFailure + (after.countP Call.isFailure + 1) := by
      rw [hsplit, List.countP_append, List.countP_cons_of_pos rfl]
    have hle := length_failuresSince_le before
    obtain ⟨l, hrun, hmatches⟩ := @matches_calls before (by omega)
    obtain ⟨l', out, hrecord, -, hrotate⟩ := hmatches.recordFailure (by omega) now
    exact ⟨l, l', out, hrun, hrecord, recordFailureChecked_eq l now ▸ hrecord, hrotate⟩

def sampleCalls : List Call :=
  [.recordFailure 1, .recordSuccess] ++ [5, 6, 7, 8, 9].map .recordFailure

theorem sample_limiter_reference : ∃ l, sampleCalls.foldlM perform new = some l ∧
    l.check 10 = .error (Duration.fromSecs 16 - 1) ∧ l.failuresOnCode = 0 := by
  obtain ⟨⟨l, hrun, hcheck, hconsecutive, honCode⟩, -⟩ :=
    @limiter_reference sampleCalls (by decide)
  exact ⟨l, hrun, hcheck 10, by rw [honCode, hconsecutive]; rfl⟩

end AttemptLimiter

end SimpleRemote
