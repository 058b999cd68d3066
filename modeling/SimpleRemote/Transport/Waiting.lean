import SimpleRemote.Library.Conformance
import SimpleRemote.Transport.Control

namespace SimpleRemote
open ByteCodec Interaction

def PeerEvent.carried : PeerEvent → Bool
  | .data _ => true
  | .closed => true
  | _ => false

theorem payloads_carried (es : List PeerEvent) :
    payloads (es.filter PeerEvent.carried) = payloads es := by
  induction es with
  | nil => rfl
  | cons e es ih => cases e <;> simp [List.filter_cons, payloads, PeerEvent.carried, ih]

theorem closed_carried (es : List PeerEvent) :
    (es.filter PeerEvent.carried).contains .closed = es.contains .closed := by
  rw [Bool.eq_iff_iff]
  simp [PeerEvent.carried]

-- the calls of an end that takes its leave
def Op.leaving {Out : Type} : Op Out → Bool
  | .linkSend _ => true
  | .poll _ => true
  | .peerClose => true
  | _ => false

theorem prefix_single {α : Type} {got : List α} {a : α} (h : got <+: [a]) : got = [] ∨ got = [a] := by
  simp only [List.prefix_cons_iff, List.prefix_nil] at h
  rcases h with rfl | ⟨t, rfl, rfl⟩ <;> simp

theorem prefix_pair {α : Type} {got : List α} {a b : α} (h : got <+: [a, b]) :
    got = [] ∨ got = [a] ∨ got = [a, b] := by
  simp only [List.prefix_cons_iff, List.prefix_nil] at h
  rcases h with rfl | ⟨t, rfl, rfl | ⟨u, rfl, rfl⟩⟩ <;> simp

theorem prefix_script {α : Type} {got : List α} {a b c : α} (h : got <+: [a, b, c]) :
    got = [] ∨ got = [a] ∨ got = [a, b] ∨ got = [a, b, c] := by
  simp only [List.prefix_cons_iff, List.prefix_nil] at h
  rcases h with rfl | ⟨t, rfl, rfl | ⟨u, rfl, rfl | ⟨v, rfl, rfl⟩⟩⟩ <;> simp

namespace Channel

-- what is left to read of the events `got` once the messages `popped` are read
structure Holds (got : List PeerEvent) (popped : List Bytes) (ch : Channel) : Prop where
  pending : payloads got = popped ++ ch.pending
  remoteClosed : ch.remoteClosed = got.contains .closed
  localClosed : ch.localClosed = false

theorem holds_new : Holds [] [] .new := ⟨rfl, rfl, rfl⟩

theorem absorb_localClosed (ch : Channel) (events : List PeerEvent) :
    (ch.absorb events).2.localClosed = ch.localClosed := by
  simp only [absorb]
  induction events generalizing ch with
  | nil => rfl
  | cons e events ih =>
      rw [List.foldl_cons, ih]
      cases e <;> rfl

theorem Holds.absorb {got : List PeerEvent} {popped : List Bytes} {ch : Channel}
    (h : Holds got popped ch) (es : List PeerEvent) :
    Holds (got ++ es.filter PeerEvent.carried) popped (ch.absorb es).2 where
  pending := by
    rw [payloads_append, payloads_carried, absorb_pending, h.pending, List.append_assoc]
  remoteClosed := by
    rw [absorb_remoteClosed, h.remoteClosed, List.contains_append, closed_carried]
  localClosed := (absorb_localClosed ch es).trans h.localClosed

section
variable {In Out σ : Type} {move : σ → Ev (conn In Out) → σ → Prop} {I : σ → Channel → Prop}
  {fuel n : Nat} {s : σ}

-- clock readings and polls are foreseen as long as `I` holds, and keep it
structure Foreseen (move : σ → Ev (conn In Out) → σ → Prop) (I : σ → Channel → Prop) : Prop where
  now : ∀ s ch, I s ch → (∃ r s', move s ⟨.now, r⟩ s') ∧
    ∀ t s', move s ⟨.now, t⟩ s' → I s' ch
  poll : ∀ s ch d, I s ch → (∃ r s', move s ⟨.poll d, r⟩ s') ∧
    ∀ r s', move s ⟨.poll d, r⟩ s' → ∃ es, r = .ok es ∧ I s' (ch.absorb es).2

def OpenedWith (I : σ → Channel → Prop) (s : σ) (r : Except TransportError Opened × Channel) :
    Prop :=
  I s r.2 ∧ (r.1 = .ok .ready ∨ r.1 = .ok .timedOut ∨ r.1 = .ok .closed ∧ r.2.remoteClosed = true)

def NextWith (I : σ → Channel → Prop) (s : σ) (r : Except TransportError Next × Channel) : Prop :=
  (∃ data rest ch, I s ch ∧ ch.pending = data :: rest ∧
    r = (.ok (decodes data), { ch with pending := rest })) ∨
  (I s r.2 ∧ r.2.pending = [] ∧
    (r.1 = .ok .timedOut ∨ r.1 = .ok .closed ∧ r.2.remoteClosed = true))

theorem waitOpen_follows (hI : Foreseen move I) {deadline : Instant} (hn : n ≤ fuel)
    {ch : Channel} (h : I s ch) :
    (waitOpen deadline fuel ch).Follows move (fun _ => False) (OpenedWith I) n s := by
  induction fuel generalizing n s ch with
  | zero =>
      obtain rfl := Nat.le_zero.mp hn
      trivial
  | succ fuel ih =>
      rw [waitOpen]
      split
      · rename_i hclosed
        exact follows_ret ⟨h, .inr (.inr ⟨rfl, hclosed⟩)⟩
      cases n with
      | zero => trivial
      | succ n =>
          obtain ⟨hallow, hnow⟩ := hI.now s ch h
          refine follows_step hallow fun t s₁ ht => ?_
          have h₁ := hnow t s₁ ht
          dsimp only [Prog.bind]
          split
          · exact follows_ret ⟨h₁, .inr (.inl rfl)⟩
          obtain ⟨hallow, hpoll⟩ := hI.poll s₁ ch (deadline - t) h₁
          refine follows_call hallow fun r s₂ hr => ?_
          obtain ⟨es, rfl, h₂⟩ := hpoll r s₂ hr
          dsimp only
          split
          · exact follows_ret ⟨h₂, .inl rfl⟩
          · exact ih (by omega) h₂

theorem next_follows (hI : Foreseen move I) {deadline : Instant} (hn : n ≤ fuel)
    {ch : Channel} (h : I s ch) :
    (next deadline fuel ch).Follows move (fun _ => False) (NextWith I) n s := by
  induction fuel generalizing n s ch with
  | zero =>
      obtain rfl := Nat.le_zero.mp hn
      trivial
  | succ fuel ih =>
      rw [next]
      split
      · rename_i data rest hpending
        have hpop : NextWith I s (.ok (decodes data), { ch with pending := rest }) :=
          .inl ⟨data, rest, ch, h, hpending, rfl⟩
        rw [decodes] at hpop
        dsimp only
        split <;> (rename_i hdecode; rw [hdecode] at hpop; exact follows_ret hpop)
      rename_i hpending
      split
      · rename_i hclosed
        exact follows_ret (.inr ⟨h, hpending, .inr ⟨rfl, hclosed⟩⟩)
      cases n with
      | zero => trivial
      | succ n =>
          obtain ⟨hallow, hnow⟩ := hI.now s ch h
          refine follows_step hallow fun t s₁ ht => ?_
          have h₁ := hnow t s₁ ht
          dsimp only [Prog.bind]
          split
          · exact follows_ret (.inr ⟨h₁, hpending, .inl rfl⟩)
          obtain ⟨hallow, hpoll⟩ := hI.poll s₁ ch (deadline - t) h₁
          refine follows_call hallow fun r s₂ hr => ?_
          obtain ⟨es, rfl, h₂⟩ := hpoll r s₂ hr
          exact ih (by omega) h₂

end

end Channel

end SimpleRemote
