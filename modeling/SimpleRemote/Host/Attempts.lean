import SimpleRemote.Protocol

namespace SimpleRemote

structure AttemptLimiter where
  consecutiveFailures : Nat
  failuresOnCode : Nat
  waitUntil : Option Instant
  deriving DecidableEq, Repr

structure FailureOutcome where
  rotateCode : Bool
  deriving DecidableEq, Repr

namespace AttemptLimiter

def new : AttemptLimiter := ⟨0, 0, none⟩

def check (l : AttemptLimiter) (now : Instant) : Except Duration Unit :=
  match l.waitUntil with
  | some deadline => if now < deadline then .error (deadline - now) else .ok ()
  | none => .ok ()

def backoffSecs (n : Nat) : Nat :=
  if 17 ≤ n - 1 then 86400 else min (1 <<< (n - 1)) 86400

-- `none` is the panic of an overflowing u32 counter
def recordFailure (l : AttemptLimiter) (now : Instant) : Option (AttemptLimiter × FailureOutcome) :=
  if l.consecutiveFailures + 1 < 2 ^ 32 ∧ l.failuresOnCode + 1 < 2 ^ 32 then
    let n := l.consecutiveFailures + 1
    let onCode := l.failuresOnCode + 1
    let rotateCode := decide (5 ≤ onCode)
    some (⟨n, if rotateCode then 0 else onCode,
      some (now + Duration.fromSecs (backoffSecs n))⟩, ⟨rotateCode⟩)
  else none

def recordSuccess (_ : AttemptLimiter) : AttemptLimiter := ⟨0, 0, none⟩

theorem check_ok {l : AttemptLimiter} {now : Instant} :
    l.check now = .ok () ↔ ∀ d, l.waitUntil = some d → d ≤ now := by
  rw [check]
  cases l.waitUntil with
  | none => simp
  | some d =>
      by_cases h : now < d
      · simp [h]
      · simp [h, Nat.le_of_not_lt h]

theorem backoffSecs_eq (n : Nat) : backoffSecs n = min (2 ^ (n - 1)) 86400 := by
  rw [backoffSecs]
  split
  · rename_i h
    have : 2 ^ 17 ≤ 2 ^ (n - 1) := Nat.pow_le_pow_right (by omega) h
    omega
  · rw [Nat.one_shiftLeft]

structure FailureRecorded (l : AttemptLimiter) (now : Instant) (l' : AttemptLimiter)
    (out : FailureOutcome) : Prop where
  consecutive : l'.consecutiveFailures = l.consecutiveFailures + 1
  waitUntil : l'.waitUntil =
    some (now + Duration.fromSecs (min (2 ^ l.consecutiveFailures) 86400))
  rotate : out.rotateCode = true ↔ 5 ≤ l.failuresOnCode + 1
  onCode : l'.failuresOnCode = if out.rotateCode then 0 else l.failuresOnCode + 1

theorem recordFailure_some {l l' : AttemptLimiter} {now : Instant} {out : FailureOutcome}
    (h : l.recordFailure now = some (l', out)) : FailureRecorded l now l' out := by
  rw [recordFailure] at h
  split at h
  · obtain ⟨rfl, rfl⟩ := Prod.mk.inj (Option.some.inj h)
    exact {
      consecutive := rfl
      waitUntil := by simp [backoffSecs_eq]
      rotate := by simp
      onCode := rfl }
  · cases h

end AttemptLimiter

end SimpleRemote
