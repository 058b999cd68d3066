import SimpleRemote.Transport.Queue

namespace SimpleRemote
open ByteCodec Interaction

-- a poll that waits; `close` polls once without waiting
def Op.waitsPoll {Out : Type} : Op Out → Bool
  | .poll wait => decide (wait ≠ 0)
  | _ => false

-- the clock as last read, `fresh` if that was the last call
structure Reading where
  clock : Instant
  fresh : Bool

section
variable {In Out : Type}

def Reading.next (s : Reading) : Ev (conn In Out) → Reading
  | ⟨.now, t⟩ => ⟨t, true⟩
  | _ => ⟨s.clock, false⟩

-- over a clock that does not go back, the peer is only waited for right after a reading of the
-- clock before `deadline`
def pollsInTime (deadline : Instant) : Monitor (conn In Out) Reading where
  allow s o := o.waitsPoll = true → s.fresh = true ∧ s.clock < deadline
  valid s
    | ⟨.now, t⟩ => s.clock ≤ t
    | _ => True
  next := Reading.next

abbrev done {α : Type} : Reading → α → Prop := fun _ _ => True

-- in every run
def Punctual {α : Type} (deadline : Instant) (p : Conn In Out α) : Prop :=
  ∀ s, p.wp (pollsInTime deadline) done s

-- from a moment on at which the clock has passed `deadline`
def StopsLate {α : Type} (deadline : Instant) (p : Conn In Out α) : Prop :=
  ∀ s, deadline ≤ s.clock → p.total (pollsInTime deadline) done s

variable {deadline : Instant} {s : Reading}

theorem allow_quick {o : Op Out} (h : o.waitsPoll = false) :
    (pollsInTime deadline : Monitor (conn In Out) Reading).allow s o := by
  intro hwaits
  rw [h] at hwaits
  cases hwaits

theorem Punctual.mono {α : Type} {p : Conn In Out α} {deadline' : Instant}
    (h : Punctual deadline p) (hle : deadline ≤ deadline') : Punctual deadline' p := by
  intro s
  replace h := h s
  induction p generalizing s with
  | ret a => trivial
  | halt => trivial
  | act o k ih =>
      refine ⟨fun hwaits => ?_, fun r hv => ih r _ (h.2 r hv)⟩
      obtain ⟨hfresh, hclock⟩ := h.1 hwaits
      exact ⟨hfresh, hclock.trans_le hle⟩

end

namespace Channel
variable {In Out : Type} {deadline : Instant}

-- what a call of `next` gives back that does not poll
def Taken (ch : Channel) (r : Except TransportError Next × Channel) : Prop :=
  match ch.pending with
  | data :: rest => r = (.ok (decodes data), { ch with pending := rest })
  | [] => r.2 = ch ∧ (r.1 = .ok .closed ∨ r.1 = .ok .timedOut)

theorem next_late {s : Reading} (hlate : deadline ≤ s.clock) (fuel : Nat) (ch : Channel) :
    (next deadline (fuel + 1) ch : Conn In Out _).total (pollsInTime deadline)
      (fun s' r => deadline ≤ s'.clock ∧ Taken ch r) s := by
  rw [next]
  split
  · rename_i data rest hpending
    have htaken (r : Except TransportError Next × Channel)
        (hr : r = (.ok (decodes data), { ch with pending := rest })) : Taken ch r := by
      rw [Taken, hpending]
      exact hr
    dsimp only
    split
    · rename_i msg hdecode
      exact ⟨hlate, htaken _ (by rw [decodes, hdecode])⟩
    · rename_i e hdecode
      exact ⟨hlate, htaken _ (by rw [decodes, hdecode])⟩
  · rename_i hpending
    have htaken {n : Next} (hn : n = .closed ∨ n = .timedOut) : Taken ch (.ok n, ch) := by
      rw [Taken, hpending]
      exact ⟨rfl, hn.imp (congrArg Except.ok) (congrArg Except.ok)⟩
    split
    · exact ⟨hlate, htaken (.inl rfl)⟩
    · refine ⟨allow_quick rfl, fun now hnow => ?_⟩
      have hpassed : deadline ≤ now := hlate.trans hnow
      dsimp only [Prog.bind]
      rw [if_pos hpassed]
      exact ⟨hpassed, htaken (.inr rfl)⟩

theorem next_punctual (fuel : Nat) (ch : Channel) :
    Punctual deadline (next deadline fuel ch : Conn In Out _) := by
  intro s
  induction fuel generalizing ch s with
  | zero => trivial
  | succ fuel ih =>
      rw [next]
      split
      · dsimp only
        split <;> trivial
      · split
        · trivial
        · refine ⟨allow_quick rfl, fun now _ => ?_⟩
          dsimp only [Prog.bind]
          split
          · trivial
          · rename_i hearly
            refine ⟨fun _ => ⟨rfl, Nat.lt_of_not_le hearly⟩, fun r _ => ?_⟩
            cases r with
            | error e => trivial
            | ok events => exact ih _ _

theorem taken_cases {ch ch' : Channel} {r : Except TransportError Next} (h : Taken ch (r, ch')) :
    (∃ n, r = .ok n ∧ n.decoded = true ∧ ch'.pending.length < ch.pending.length) ∨
      r = .ok .closed ∨ r = .ok .timedOut := by
  rw [Taken] at h
  split at h
  · rename_i data rest hpending
    obtain ⟨rfl, rfl⟩ := Prod.mk.inj h
    exact .inl ⟨_, rfl, decoded_decodes data, by simp [hpending]⟩
  · exact .inr h.2

section
variable {α : Type} {fuel : Nat} {loop : Nat → Channel → Conn In Out α}
  {round : Nat → Except TransportError Next × Channel → Conn In Out α}

-- a loop that goes on only when `next` returned a message: of those left, each takes a round
theorem loop_late (hloop : ∀ n ch, loop (n + 1) ch = (ch.next deadline (fuel + 1) >>= round n))
    (hround : ∀ n m ch, m.decoded = true → StopsLate deadline (loop n ch) →
      StopsLate deadline (round n (.ok m, ch)))
    (hclosed : ∀ n ch, StopsLate deadline (round n (.ok .closed, ch)))
    (htimedOut : ∀ n ch, StopsLate deadline (round n (.ok .timedOut, ch)))
    {n : Nat} {ch : Channel} (hn : ch.pending.length < n) : StopsLate deadline (loop n ch) := by
  induction n generalizing ch with
  | zero => cases hn
  | succ n ih =>
      intro s hlate
      rw [hloop, total_bind]
      refine Prog.total_mono (next_late hlate fuel ch) fun s' r h => ?_
      obtain ⟨r, ch'⟩ := r
      obtain ⟨hlate', htaken⟩ := h
      rcases taken_cases htaken with ⟨m, rfl, hdecoded, hless⟩ | rfl | rfl
      · have hrest : ch'.pending.length < n := by omega
        exact hround n m ch' hdecoded (ih hrest) s' hlate'
      · exact hclosed n ch' s' hlate'
      · exact htimedOut n ch' s' hlate'

theorem loop_punctual (hzero : ∀ ch, loop 0 ch = .halt)
    (hloop : ∀ n ch, loop (n + 1) ch = (ch.next deadline fuel >>= round n))
    (hround : ∀ n r, (∀ ch, Punctual deadline (loop n ch)) → Punctual deadline (round n r))
    (n : Nat) (ch : Channel) : Punctual deadline (loop n ch) := by
  induction n generalizing ch with
  | zero =>
      intro s
      rw [hzero]
      trivial
  | succ n ih =>
      intro s
      rw [hloop, wp_bind]
      exact Prog.wp_mono (next_punctual fuel ch s) fun s' r _ => hround n r ih s'

end

theorem close_late (ch : Channel) : StopsLate deadline (close ch : Conn In Out _) := by
  intro s _
  rw [close]
  split
  · trivial
  · exact ⟨allow_quick rfl, fun _ _ => ⟨allow_quick rfl, fun _ _ => trivial⟩⟩

theorem close_punctual (ch : Channel) : Punctual deadline (close ch : Conn In Out _) := by
  intro s
  rw [close]
  split
  · trivial
  · exact ⟨allow_quick rfl, fun _ _ => ⟨allow_quick rfl, fun _ _ => trivial⟩⟩

end Channel

end SimpleRemote
