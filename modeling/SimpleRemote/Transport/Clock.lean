import SimpleRemote.Transport.Channel

namespace SimpleRemote
open Interaction

-- what a wait with a deadline is for: the data channel to open, or the message number `n` on it
inductive Awaited where
  | opening
  | message (n : Nat)
  deriving DecidableEq, Repr

structure Wait where
  limit : Duration
  awaited : Awaited
  deriving DecidableEq

-- the clock of one end: the wait it has begun with its deadline, the waits to come, and what the
-- peer has handed out
structure Clock where
  current : Option (Awaited × Instant)
  later : List Wait
  isOpen : Bool
  got : Nat
  deriving DecidableEq

namespace Clock

def start : Clock := ⟨none, [], false, 0⟩

def come (c : Clock) : Awaited → Bool
  | .opening => c.isOpen
  | .message n => decide (n ≤ c.got)

-- the deadline of a wait that is not over
def due (c : Clock) : Option Instant :=
  match c.current with
  | some (awaited, deadline) => if c.come awaited then none else some deadline
  | none => none

-- a reading within a wait, else the one that begins the next
def read (c : Clock) (now : Instant) : Clock :=
  match c.due, c.later with
  | some _, _ => c
  | none, [] => { c with current := none }
  | none, w :: later => { c with current := some (w.awaited, now + w.limit), later }

theorem read_over {current : Option (Awaited × Instant)} {w : Wait} {later : List Wait} {o : Bool}
    {got : Nat} (h : due ⟨current, w :: later, o, got⟩ = none) (now : Instant) :
    read ⟨current, w :: later, o, got⟩ now = ⟨some (w.awaited, now + w.limit), later, o, got⟩ := by
  rw [read, h]

theorem read_within {c : Clock} {deadline : Instant} (h : c.due = some deadline) (now : Instant) :
    c.read now = c := by
  rw [read, h]

def hand (c : Clock) (es : List PeerEvent) : Clock :=
  { c with isOpen := c.isOpen || es.contains .channelOpen, got := c.got + (payloads es).length }

end Clock

section
variable {In Out : Type}

-- no timeout fires: every reading is before the deadline of the wait it is made in, and the link
-- answers in time. `waits` are those of the peer connection, in order; the readings before it are
-- in no wait, and so are those after the last
def watch (waits : List Wait) : Monitor (conn In Out) Clock where
  allow _ _ := True
  valid c
    | ⟨.now, now⟩ => ∀ deadline ∈ c.due, now < deadline
    | ⟨.linkRecv _, r⟩ => r ≠ .ok none
    | _ => True
  next c
    | ⟨.peerNew _, _⟩ => { c with later := waits }
    | ⟨.now, now⟩ => c.read now
    | ⟨.poll _, .ok es⟩ => c.hand es
    | _ => c

instance (waits : List Wait) (c : Clock) :
    (e : Ev (conn In Out)) → Decidable ((watch waits).valid c e)
  | ⟨.now, now⟩ => inferInstanceAs (Decidable (∀ deadline ∈ c.due, (now : Nat) < deadline))
  | ⟨.linkRecv _, r⟩ =>
      match r with
      | .ok none => isFalse fun h => h rfl
      | .ok (some _) => isTrue nofun
      | .error _ => isTrue nofun
  | ⟨.linkSend _, _⟩ | ⟨.generateCode, _⟩ | ⟨.partyAStart _ _ _ _, _⟩ | ⟨.partyBStart _ _ _ _, _⟩
  | ⟨.finish _ _, _⟩ | ⟨.verifyPeerConfirmation _ _, _⟩ | ⟨.peerNew _, _⟩ | ⟨.createOffer, _⟩
  | ⟨.acceptOffer _, _⟩ | ⟨.acceptAnswer _ _, _⟩ | ⟨.poll _, _⟩ | ⟨.peerSend _, _⟩
  | ⟨.localFingerprint, _⟩ | ⟨.remoteFingerprint, _⟩ | ⟨.peerClose, _⟩ | ⟨.approve _, _⟩ =>
      instDecidableTrue

-- the calls that neither read the clock nor wait on the link or the peer
def Op.untimed : Op Out → Bool
  | .linkRecv _ => false
  | .now => false
  | .peerNew _ => false
  | .poll _ => false
  | _ => true

section
variable {α : Type} {waits : List Wait} {c : Clock} {Q : Clock → α → Prop}

theorem wp_watched {o : Op Out} {f : Op.Res In o → Conn In Out α}
    (hf : ∀ r, (watch waits).valid c ⟨o, r⟩ → (f r).wp (watch waits) Q ((watch waits).next c ⟨o, r⟩)) :
    (call o >>= f).wp (watch waits) Q c :=
  ⟨trivial, hf⟩

theorem untimed_next {o : Op Out} (h : o.untimed = true) (r : Op.Res In o) :
    (watch waits).next c ⟨o, r⟩ = c := by
  cases o with
  | linkRecv | now | peerNew | poll => cases h
  | _ => rfl

theorem wp_untimed {β : Type} {p : Conn In Out β} {f : β → Conn In Out α}
    (hp : p.Uses fun o : Op Out => o.untimed = true)
    (hf : ∀ r, (f r).wp (watch waits) Q c) : (p >>= f).wp (watch waits) Q c := by
  refine wp_bind.mpr (Prog.wp_mono (wp_of_only (I := (· = c)) hp ?_ rfl) ?_)
  · rintro s o rfl ho
    exact ⟨trivial, fun r _ => untimed_next ho r⟩
  · rintro s r ⟨rfl, -⟩
    exact hf r

theorem wp_any {R : α → Prop} {p : Conn In Out α} (hp : p.Only (fun _ : Op Out => True) R) :
    p.wp (watch waits) (fun _ r => R r) c := by
  refine Prog.wp_mono (wp_of_only (I := fun _ => True) hp ?_ trivial) fun _ _ h => h.2
  exact fun _ _ _ _ => ⟨trivial, fun _ _ => trivial⟩

end

end

namespace Channel
variable {In Out : Type} {waits later : List Wait} {deadline : Nat}

-- a wait for the data channel only ends by it, by the end of the connection or by an error
theorem waitOpen_wp (fuel : Nat) (ch : Channel) :
    (waitOpen deadline fuel ch : Conn In Out _).wp (watch waits)
      (fun c r => r.1 ≠ .ok .timedOut ∧ (r.1 = .ok .ready →
        c = ⟨some (.opening, deadline), later, true, r.2.pending.length⟩))
      ⟨some (.opening, deadline), later, false, ch.pending.length⟩ := by
  induction fuel generalizing ch with
  | zero => trivial
  | succ fuel ih =>
      rw [waitOpen]
      split
      · exact ⟨by simp, by simp⟩
      refine ⟨trivial, fun now hnow => ?_⟩
      have hearly : now < deadline := hnow deadline rfl
      dsimp only [Prog.bind]
      rw [if_neg (Nat.not_le_of_lt hearly)]
      refine ⟨trivial, fun r _ => ?_⟩
      cases r with
      | error e => exact ⟨by simp, by simp⟩
      | ok es =>
          have hlength : ch.pending.length + (payloads es).length =
              (ch.absorb es).2.pending.length := by
            rw [absorb_pending, List.length_append]
          change Prog.wp _ (if (ch.absorb es).1 = true then pure (.ok .ready, (ch.absorb es).2)
              else waitOpen deadline fuel (ch.absorb es).2) _
            (Clock.mk (some (.opening, deadline)) later (false || es.contains .channelOpen)
              (ch.pending.length + (payloads es).length))
          rw [hlength, Bool.false_or]
          split
          · rename_i hopen
            have hopened : es.contains .channelOpen = true := hopen
            rw [hopened]
            exact ⟨by simp, fun _ => rfl⟩
          · rename_i hopen
            have hclosed : es.contains .channelOpen = false := Bool.eq_false_of_not_eq_true hopen
            rw [hclosed]
            exact ih _

-- and one for the message number `read + 1` only by a message, and so on
theorem next_wp {read : Nat} (fuel : Nat) (ch : Channel) :
    (next deadline fuel ch : Conn In Out _).wp (watch waits)
      (fun c r => r.1 ≠ .ok .timedOut ∧ ∀ msg, r.1 = .ok (.msg msg) →
        c = ⟨some (.message (read + 1), deadline), later, true, read + 1 + r.2.pending.length⟩)
      ⟨some (.message (read + 1), deadline), later, true, read + ch.pending.length⟩ := by
  induction fuel generalizing ch with
  | zero => trivial
  | succ fuel ih =>
      rw [next]
      split
      · rename_i data rest hpending
        have hlength : read + ch.pending.length = read + 1 + rest.length := by
          rw [hpending, List.length_cons]
          omega
        dsimp only
        split
        · exact ⟨by simp, fun _ _ => by rw [hlength]⟩
        · exact ⟨by simp, by simp⟩
      rename_i hpending
      split
      · exact ⟨by simp, by simp⟩
      refine ⟨trivial, fun now hnow => ?_⟩
      have hdue : Clock.due ⟨some (.message (read + 1), deadline), later, true,
          read + ch.pending.length⟩ = some deadline := by
        simp [Clock.due, Clock.come, hpending]
      have hearly : now < deadline := hnow deadline hdue
      change Prog.wp _ _ _ (Clock.read _ now)
      rw [Clock.read_within hdue]
      dsimp only [Prog.bind]
      rw [if_neg (Nat.not_le_of_lt hearly)]
      refine ⟨trivial, fun r _ => ?_⟩
      cases r with
      | error e => exact ⟨by simp, by simp⟩
      | ok es =>
          have hlength : read + ch.pending.length + (payloads es).length =
              read + (ch.absorb es).2.pending.length := by
            rw [absorb_pending, List.length_append, Nat.add_assoc]
          change Prog.wp _ _ _ (Clock.mk (some (.message (read + 1), deadline)) later true
            (read + ch.pending.length + (payloads es).length))
          rw [hlength]
          exact ih _

end Channel

end SimpleRemote
