import SimpleRemote.Library.Interaction

namespace Interaction

variable {S : Sig} {α β σ : Type} {move : σ → Ev S → σ → Prop} {F : Prog S α → Prop}
  {Q : σ → α → Prop} {s : σ} {n m : Nat}

-- for `n` operations the program does only what `move` foresees, whatever it foresees as answer,
-- or it has given up
def Prog.Follows (move : σ → Ev S → σ → Prop) (F : Prog S α → Prop) (Q : σ → α → Prop) :
    Nat → σ → Prog S α → Prop
  | 0, _, _ => True
  | n + 1, s, p =>
      F p ∨ match p with
        | .ret a => Q s a
        | .halt => False
        | .act o k => (∃ r s', move s ⟨o, r⟩ s') ∧
            ∀ r s', move s ⟨o, r⟩ s' → (k r).Follows move F Q n s'

theorem follows_ret {a : α} (h : Q s a) : (Prog.ret a).Follows move F Q n s := by
  cases n with
  | zero => trivial
  | succ n => exact .inr h

theorem follows_given_up {p : Prog S α} (h : F p) : p.Follows move F Q n s := by
  cases n with
  | zero => trivial
  | succ n => exact .inl h

theorem follows_step {o : S.Op} {k : S.Res o → Prog S α} (hallow : ∃ r s', move s ⟨o, r⟩ s')
    (h : ∀ r s', move s ⟨o, r⟩ s' → (k r).Follows move F Q n s') :
    (Prog.act o k).Follows move F Q (n + 1) s :=
  .inr ⟨hallow, h⟩

theorem Prog.Follows.pred {p : Prog S α} (h : p.Follows move F Q (n + 1) s) :
    p.Follows move F Q n s := by
  induction n generalizing p s with
  | zero => trivial
  | succ n ih =>
      rcases h with h | h
      · exact .inl h
      · cases p with
        | ret a => exact .inr h
        | halt => exact h.elim
        | act o k => exact .inr ⟨h.1, fun r s' hm => ih (h.2 r s' hm)⟩

theorem Prog.Follows.mono {p : Prog S α} (h : p.Follows move F Q n s) (hle : m ≤ n) :
    p.Follows move F Q m s := by
  induction hle with
  | refl => exact h
  | step _ ih => exact ih h.pred

theorem follows_act {o : S.Op} {k : S.Res o → Prog S α} (hallow : ∃ r s', move s ⟨o, r⟩ s')
    (h : ∀ r s', move s ⟨o, r⟩ s' → (k r).Follows move F Q n s') :
    (Prog.act o k).Follows move F Q n s := by
  cases n with
  | zero => trivial
  | succ n => exact follows_step hallow fun r s' hm => (h r s' hm).pred

theorem follows_call {o : S.Op} {f : S.Res o → Prog S α} (hallow : ∃ r s', move s ⟨o, r⟩ s')
    (h : ∀ r s', move s ⟨o, r⟩ s' → (f r).Follows move F Q n s') :
    (Prog.call o >>= f).Follows move F Q n s :=
  follows_act hallow h

-- a part of the program that does not give up by itself
theorem follows_bind {p : Prog S β} {f : β → Prog S α} {Q' : σ → β → Prop}
    (hp : p.Follows move (fun _ => False) Q' n s)
    (hf : ∀ s b, Q' s b → (f b).Follows move F Q n s) : (p >>= f).Follows move F Q n s := by
  induction n generalizing p s with
  | zero => trivial
  | succ n ih =>
      cases p with
      | ret b => exact hf s b (hp.resolve_left id)
      | halt => exact (hp.resolve_left id).elim
      | act o k =>
          obtain ⟨hallow, hnext⟩ := hp.resolve_left id
          exact .inr ⟨hallow, fun r s' hm => ih (hnext r s' hm) fun s b hb => (hf s b hb).pred⟩

theorem Prog.Follows.ret {a : α} (h : (Prog.ret a).Follows move F Q n s) (hn : 0 < n)
    (hF : ¬ F (.ret a)) : Q s a := by
  cases n with
  | zero => omega
  | succ n => exact h.resolve_left hF

theorem Prog.Follows.not_halt (h : (Prog.halt : Prog S α).Follows move F Q n s) (hn : 0 < n) :
    F .halt := by
  cases n with
  | zero => omega
  | succ n => exact h.resolve_right id

theorem Prog.Follows.act {o : S.Op} {k : S.Res o → Prog S α}
    (h : (Prog.act o k).Follows move F Q (n + 1) s) (hF : ¬ F (.act o k)) :
    (∃ r s', move s ⟨o, r⟩ s') ∧ ∀ r s', move s ⟨o, r⟩ s' → (k r).Follows move F Q n s' :=
  h.resolve_left hF

-- the program makes calls in `P` only and ends in `R`, as long as the answers are in `ok`
def Prog.Settles (P : S.Op → Prop) (ok : Ev S → Prop) (R : α → Prop) : Prog S α → Prop
  | .ret a => R a
  | .halt => False
  | .act o k => P o ∧ ∀ r, ok ⟨o, r⟩ → (k r).Settles P ok R

section Settles
variable {P : S.Op → Prop} {ok : Ev S → Prop} {R : α → Prop}

theorem settles_bind {Q : β → Prop} {p : Prog S β} {f : β → Prog S α} (hp : p.Settles P ok Q)
    (hf : ∀ b, Q b → (f b).Settles P ok R) : (p >>= f).Settles P ok R := by
  induction p with
  | ret b => exact hf b hp
  | halt => exact hp.elim
  | act o k ih => exact ⟨hp.1, fun r hr => ih r (hp.2 r hr)⟩

-- a monitor that lets some answer through to each of these calls sees the end, too
theorem Prog.Settles.wp {M : Monitor S σ} {Q : σ → α → Prop} {p : Prog S α}
    (h : p.Settles P ok R) (hsome : ∀ s o, P o → ∃ r, ok ⟨o, r⟩ ∧ M.valid s ⟨o, r⟩)
    (hwp : p.wp M Q s) : ∃ s' a, Q s' a ∧ R a := by
  induction p generalizing s with
  | ret a => exact ⟨s, a, hwp, h⟩
  | halt => exact h.elim
  | act o k ih =>
      obtain ⟨r, hok, hvalid⟩ := hsome s o h.1
      exact ih r (h.2 r hok) (hwp.2 r hvalid)

end Settles

end Interaction
