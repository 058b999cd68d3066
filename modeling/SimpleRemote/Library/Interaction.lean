import Mathlib.Logic.Relation

namespace Interaction

structure Sig where
  Op : Type
  Res : Op → Type

structure Ev (S : Sig) where
  op : S.Op
  res : S.Res op

inductive Prog (S : Sig) (α : Type) where
  | ret (a : α)
  | halt
  | act (o : S.Op) (k : S.Res o → Prog S α)

variable {S : Sig} {α β σ : Type}

namespace Prog

def bind : Prog S α → (α → Prog S β) → Prog S β
  | .ret a, f => f a
  | .halt, _ => .halt
  | .act o k, f => .act o (fun r => (k r).bind f)

instance : Monad (Prog S) where
  pure := .ret
  bind := bind

def call (o : S.Op) : Prog S (S.Res o) := .act o .ret

@[simp] theorem pure_eq (a : α) : (pure a : Prog S α) = .ret a := rfl

@[simp] theorem ret_bind (a : α) (f : α → Prog S β) : (Prog.ret a >>= f) = f a := rfl

@[simp] theorem halt_bind (f : α → Prog S β) : ((Prog.halt : Prog S α) >>= f) = .halt := rfl

@[simp] theorem act_bind (o : S.Op) (k : S.Res o → Prog S α) (f : α → Prog S β) :
    (Prog.act o k >>= f) = .act o (fun r => k r >>= f) := rfl

@[simp] theorem call_bind (o : S.Op) (f : S.Res o → Prog S β) : (call o >>= f) = .act o f := rfl

theorem bind_assoc {γ : Type} (p : Prog S α) (f : α → Prog S β) (g : β → Prog S γ) :
    ((p >>= f) >>= g) = (p >>= fun a => f a >>= g) := by
  induction p with
  | ret a => rfl
  | halt => rfl
  | act o k ih => exact congrArg (Prog.act o) (funext ih)

end Prog

theorem filterMap_single (f : α → Option β) (a : α) : [a].filterMap f = (f a).toList := by
  rw [List.filterMap_cons]
  cases f a <;> rfl

inductive Path : Prog S α → List (Ev S) → Prog S α → Prop
  | nil (p : Prog S α) : Path p [] p
  | cons {o : S.Op} {k : S.Res o → Prog S α} (r : S.Res o) {tr : List (Ev S)} {q : Prog S α}
      (h : Path (k r) tr q) : Path (.act o k) (⟨o, r⟩ :: tr) q

abbrev Exec (p : Prog S α) (tr : List (Ev S)) (a : α) : Prop := Path p tr (.ret a)

theorem path_ret {a : α} {tr : List (Ev S)} {q : Prog S α} (h : Path (.ret a) tr q) :
    tr = [] ∧ q = .ret a := by
  cases h
  exact ⟨rfl, rfl⟩

theorem path_halt {tr : List (Ev S)} {q : Prog S α} (h : Path .halt tr q) :
    tr = [] ∧ q = .halt := by
  cases h
  exact ⟨rfl, rfl⟩

theorem path_act {o : S.Op} {k : S.Res o → Prog S α} {tr : List (Ev S)} {q : Prog S α}
    (h : Path (.act o k) tr q) :
    (tr = [] ∧ q = .act o k) ∨ ∃ r tr', tr = ⟨o, r⟩ :: tr' ∧ Path (k r) tr' q := by
  cases h with
  | nil => exact .inl ⟨rfl, rfl⟩
  | cons r h => exact .inr ⟨r, _, rfl, h⟩

theorem path_call {o : S.Op} {f : S.Res o → Prog S α} {tr : List (Ev S)} {q : Prog S α}
    (h : Path (Prog.call o >>= f) tr q) :
    (tr = [] ∧ q = (Prog.call o >>= f)) ∨ ∃ r tr', tr = ⟨o, r⟩ :: tr' ∧ Path (f r) tr' q :=
  path_act h

theorem Path.tail {o : S.Op} {k : S.Res o → Prog S α} {r : S.Res o} {tr : List (Ev S)}
    {q : Prog S α} (h : Path (.act o k) (⟨o, r⟩ :: tr) q) : Path (k r) tr q := by
  cases h with
  | cons r h => exact h

theorem Path.answered {o : S.Op} {f : S.Res o → Prog S α} {r : S.Res o} {tr : List (Ev S)}
    {q : Prog S α} (h : Path (Prog.call o >>= f) (⟨o, r⟩ :: tr) q) : Path (f r) tr q :=
  Path.tail h

theorem path_nil {p q : Prog S α} (h : Path p [] q) : q = p := by
  cases h
  rfl

@[simp] theorem exec_ret {a b : α} {tr : List (Ev S)} :
    Exec (.ret a) tr b ↔ tr = [] ∧ a = b := by
  constructor
  · intro h
    obtain ⟨ht, hq⟩ := path_ret h
    exact ⟨ht, (Prog.ret.inj hq).symm⟩
  · rintro ⟨rfl, rfl⟩
    exact .nil _

@[simp] theorem exec_halt {b : α} {tr : List (Ev S)} : ¬ Exec (.halt : Prog S α) tr b := by
  intro h
  cases h

@[simp] theorem exec_act {o : S.Op} {k : S.Res o → Prog S α} {tr : List (Ev S)} {b : α} :
    Exec (.act o k) tr b ↔ ∃ r tr', tr = ⟨o, r⟩ :: tr' ∧ Exec (k r) tr' b := by
  constructor
  · intro h
    rcases path_act h with ⟨_, hq⟩ | h
    · cases hq
    · exact h
  · rintro ⟨r, tr', rfl, h⟩
    exact .cons r h

theorem exec_call {o : S.Op} {tr : List (Ev S)} {r : S.Res o} :
    Exec (Prog.call o) tr r ↔ tr = [⟨o, r⟩] := by
  constructor
  · intro h
    obtain ⟨r', tr', rfl, h'⟩ := exec_act.mp h
    obtain ⟨rfl, rfl⟩ := exec_ret.mp h'
    rfl
  · rintro rfl
    exact .cons r (.nil _)

theorem not_path_ret {a : α} {tr : List (Ev S)} {e : Ev S} {q : Prog S α} :
    ¬ Path (.ret a) (tr ++ [e]) q := by
  intro h
  exact List.append_ne_nil_of_right_ne_nil tr (List.cons_ne_nil e []) (path_ret h).1

-- the last call of a run is the first one or comes after it
theorem path_act_last {o : S.Op} {k : S.Res o → Prog S α} {tr : List (Ev S)} {e : Ev S}
    {q : Prog S α} (h : Path (.act o k) (tr ++ [e]) q) :
    (tr = [] ∧ ∃ r, e = ⟨o, r⟩ ∧ q = k r) ∨
      ∃ r tr', tr = ⟨o, r⟩ :: tr' ∧ Path (k r) (tr' ++ [e]) q := by
  cases tr with
  | nil =>
      cases h with
      | cons r h => exact .inl ⟨rfl, r, rfl, path_nil h⟩
  | cons e' tr' =>
      cases h with
      | cons r h => exact .inr ⟨r, tr', rfl, h⟩

theorem Path.trans {p q r : Prog S α} {tr tr' : List (Ev S)} (h : Path p tr q)
    (h' : Path q tr' r) : Path p (tr ++ tr') r := by
  induction h with
  | nil p => exact h'
  | cons r _ ih => exact .cons r (ih h')

theorem Path.after {p m q : Prog S α} {tr tr' : List (Ev S)} (hm : Path p tr m)
    (h : Path p (tr ++ tr') q) : Path m tr' q := by
  induction hm with
  | nil p => exact h
  | cons r _ ih =>
      cases h with
      | cons r h => exact ih h

theorem Path.bind_left {p q : Prog S α} {tr : List (Ev S)} (h : Path p tr q)
    (f : α → Prog S β) : Path (p >>= f) tr (q >>= f) := by
  induction h with
  | nil p => exact .nil _
  | cons r _ ih => exact .cons r ih

theorem Path.bind_cases {p : Prog S α} {f : α → Prog S β} {tr : List (Ev S)} {q : Prog S β}
    (h : Path (p >>= f) tr q) :
    (∃ p', Path p tr p' ∧ (∀ a, p' ≠ .ret a) ∧ q = (p' >>= f)) ∨
      ∃ tr₁ a tr₂, tr = tr₁ ++ tr₂ ∧ Exec p tr₁ a ∧ Path (f a) tr₂ q := by
  induction p generalizing tr with
  | ret a => exact .inr ⟨[], a, tr, rfl, .nil _, h⟩
  | halt =>
      obtain ⟨rfl, rfl⟩ := path_halt h
      exact .inl ⟨.halt, .nil _, fun _ h => (by cases h), rfl⟩
  | act o k ih =>
      rcases path_act (k := fun r => k r >>= f) h with ⟨rfl, rfl⟩ | ⟨r, tr', rfl, h'⟩
      · exact .inl ⟨.act o k, .nil _, fun _ h => (by cases h), rfl⟩
      · rcases ih r h' with ⟨p', hp, hne, rfl⟩ | ⟨tr₁, a, tr₂, rfl, ha, hq⟩
        · exact .inl ⟨p', .cons r hp, hne, rfl⟩
        · exact .inr ⟨_, a, tr₂, rfl, .cons r ha, hq⟩

theorem Path.bind {p : Prog S α} {f : α → Prog S β} {tr₁ tr₂ : List (Ev S)} {a : α}
    {q : Prog S β} (hp : Exec p tr₁ a) (hq : Path (f a) tr₂ q) : Path (p >>= f) (tr₁ ++ tr₂) q :=
  Path.trans (Path.bind_left hp f) hq

theorem Path.rest {p : Prog S α} {f : α → Prog S β} {tr₁ tr₂ : List (Ev S)} {a : α}
    {q : Prog S β} (hp : Exec p tr₁ a) (h : Path (p >>= f) (tr₁ ++ tr₂) q) : Path (f a) tr₂ q :=
  Path.after (Path.bind_left hp f) h

theorem Path.end_eq {p : Prog S α} {f : α → Prog S β} {tr : List (Ev S)} {a : α} {q : Prog S β}
    (hp : Exec p tr a) (h : Path (p >>= f) tr q) : q = f a := by
  rw [← List.append_nil tr] at h
  exact path_nil (Path.rest hp h)

theorem Path.end_eq_bind {γ : Type} {p : Prog S α} {f : α → Prog S β} {g : β → Prog S γ}
    {tr : List (Ev S)} {a : α} {q : Prog S γ} (hp : Exec p tr a)
    (h : Path ((p >>= f) >>= g) tr q) : q = (f a >>= g) :=
  Path.end_eq (f := fun a => f a >>= g) hp (Prog.bind_assoc p f g ▸ h)

theorem bind_ne_ret {p : Prog S α} (hp : ∀ a, p ≠ .ret a) (f : α → Prog S β) (b : β) :
    (p >>= f) ≠ .ret b := by
  cases p with
  | ret a => exact absurd rfl (hp a)
  | halt => exact fun h => by cases h
  | act o k => exact fun h => by cases h

@[simp] theorem exec_bind {p : Prog S α} {f : α → Prog S β} {tr : List (Ev S)} {b : β} :
    Exec (p >>= f) tr b ↔
      ∃ tr₁ a tr₂, tr = tr₁ ++ tr₂ ∧ Exec p tr₁ a ∧ Exec (f a) tr₂ b := by
  constructor
  · intro h
    exact (Path.bind_cases h).resolve_left fun ⟨_, _, hne, hq⟩ => bind_ne_ret hne f b hq.symm
  · rintro ⟨tr₁, a, tr₂, rfl, hp, hf⟩
    exact Path.bind hp hf

section Replay
variable [DecidableEq S.Op]

def Prog.replay : List (Ev S) → Prog S α → Option α
  | [], .ret a => some a
  | e :: tr, .act o k => if h : e.op = o then (k (h ▸ e.res)).replay tr else none
  | _, _ => none

-- the program after one more event
def Prog.take (e : Ev S) : Prog S α → Option (Prog S α)
  | .act o k => if h : e.op = o then some (k (h ▸ e.res)) else none
  | _ => none

theorem take_act {e : Ev S} {p q : Prog S α} (h : p.take e = some q) :
    ∃ (o : S.Op) (k : S.Res o → Prog S α) (r : S.Res o), p = .act o k ∧ e = ⟨o, r⟩ ∧ q = k r := by
  cases p with
  | act o k =>
      rw [Prog.take] at h
      split at h
      · rename_i ho
        obtain ⟨o', r⟩ := e
        cases ho
        exact ⟨o', k, r, rfl, rfl, (Option.some.inj h).symm⟩
      · cases h
  | _ => cases h

theorem exec_of_replay {tr : List (Ev S)} {p : Prog S α} {a : α} (h : p.replay tr = some a) :
    Exec p tr a := by
  induction tr generalizing p with
  | nil =>
      cases p with
      | ret b => exact exec_ret.mpr ⟨rfl, Option.some.inj h⟩
      | _ => cases h
  | cons e tr ih =>
      cases p with
      | act o k =>
          rw [Prog.replay] at h
          split at h
          · rename_i ho
            obtain ⟨o', r⟩ := e
            cases ho
            exact .cons r (ih h)
          · cases h
      | _ => cases h

end Replay

theorem exec_call_bind {o : S.Op} {f : S.Res o → Prog S α} {tr : List (Ev S)} {a : α} :
    Exec (Prog.call o >>= f) tr a ↔ ∃ r tr', tr = ⟨o, r⟩ :: tr' ∧ Exec (f r) tr' a :=
  exec_act

def Prog.Only (P : S.Op → Prop) (R : α → Prop) : Prog S α → Prop
  | .ret a => R a
  | .halt => True
  | .act o k => P o ∧ ∀ r, (k r).Only P R

abbrev Prog.Uses (P : S.Op → Prop) (p : Prog S α) : Prop := p.Only P fun _ => True

abbrev Prog.Never (P : S.Op → Prop) (R : α → Prop) (p : Prog S α) : Prop :=
  p.Only (fun o => ¬ P o) fun a => ¬ R a

section Only
variable {P P' : S.Op → Prop} {R R' : α → Prop}

@[simp] theorem only_ret {a : α} : (Prog.ret a : Prog S α).Only P R ↔ R a := Iff.rfl

@[simp] theorem only_halt : (Prog.halt : Prog S α).Only P R := trivial

@[simp] theorem only_act {o : S.Op} {k : S.Res o → Prog S α} :
    (Prog.act o k).Only P R ↔ P o ∧ ∀ r, (k r).Only P R := Iff.rfl

theorem uses_call {o : S.Op} : (Prog.call o).Uses P ↔ P o := by simp [Prog.call]

theorem uses_true (p : Prog S α) : p.Uses fun _ => True := by
  induction p with
  | ret a => trivial
  | halt => trivial
  | act o k ih => exact ⟨trivial, ih⟩

theorem only_bind {Q : β → Prop} {p : Prog S β} {f : β → Prog S α} (hp : p.Only P Q)
    (hf : ∀ b, Q b → (f b).Only P R) : (p >>= f).Only P R := by
  induction p with
  | ret b => exact hf b hp
  | halt => trivial
  | act o k ih => exact ⟨hp.1, fun r => ih r (hp.2 r)⟩

theorem uses_bind {p : Prog S β} {f : β → Prog S α} (hp : p.Uses P)
    (hf : ∀ b, (f b).Only P R) : (p >>= f).Only P R :=
  only_bind hp fun b _ => hf b

theorem Prog.Only.mono {p : Prog S α} (h : p.Only P R) (hP : ∀ o, P o → P' o)
    (hR : ∀ a, R a → R' a) : p.Only P' R' := by
  induction p with
  | ret a => exact hR a h
  | halt => trivial
  | act o k ih => exact ⟨hP o h.1, fun r => ih r (h.2 r)⟩

theorem Prog.Uses.mono {p : Prog S α} (h : p.Uses P) (hP : ∀ o, P o → P' o) : p.Uses P' :=
  Only.mono h hP fun _ => id

theorem Prog.Only.path {p q : Prog S α} {tr : List (Ev S)} (hp : p.Only P R)
    (h : Path p tr q) : (∀ e ∈ tr, P e.op) ∧ q.Only P R := by
  induction h with
  | nil p => exact ⟨by simp, hp⟩
  | cons r _ ih =>
      obtain ⟨hall, hq⟩ := ih (hp.2 r)
      exact ⟨by simpa using ⟨hp.1, hall⟩, hq⟩

end Only

-- the program stops whatever is answered, after calls in `P` only and with a result in `R`
def Prog.Must (P : S.Op → Prop) (R : α → Prop) : Prog S α → Prop
  | .ret a => R a
  | .halt => False
  | .act o k => P o ∧ ∀ r, (k r).Must P R

section Must
variable {P : S.Op → Prop} {R : α → Prop}

theorem must_bind {Q : β → Prop} {p : Prog S β} {f : β → Prog S α} (hp : p.Must P Q)
    (hf : ∀ b, Q b → (f b).Must P R) : (p >>= f).Must P R := by
  induction p with
  | ret b => exact hf b hp
  | halt => exact hp.elim
  | act o k ih => exact ⟨hp.1, fun r => ih r (hp.2 r)⟩

theorem Prog.Must.path {p q : Prog S α} {tr : List (Ev S)} (hp : p.Must P R)
    (h : Path p tr q) : (∀ e ∈ tr, P e.op) ∧ q.Must P R := by
  induction h with
  | nil p => exact ⟨by simp, hp⟩
  | cons r _ ih =>
      obtain ⟨hall, hq⟩ := ih (hp.2 r)
      exact ⟨by simpa using ⟨hp.1, hall⟩, hq⟩

end Must

def Hits (P : S.Op → Prop) (R : α → Prop) (tr : List (Ev S)) (q : Prog S α) : Prop :=
  (∃ e ∈ tr, P e.op) ∨ ∃ a, q = .ret a ∧ R a

section Hits
variable {P : S.Op → Prop} {R : α → Prop}

theorem Prog.Never.not_hits {p q : Prog S α} {tr : List (Ev S)} (hn : p.Never P R)
    (h : Path p tr q) : ¬ Hits P R tr q := by
  obtain ⟨hall, hq⟩ := hn.path h
  rintro (⟨e, he, hP⟩ | ⟨a, rfl, ha⟩)
  · exact hall e he hP
  · exact hq ha

theorem Prog.Never.not_exec {p : Prog S α} {tr : List (Ev S)} {a : α} (hn : p.Never P R)
    (h : Exec p tr a) : ¬ R a := fun ha => hn.not_hits h (.inr ⟨a, rfl, ha⟩)

theorem hits_act {o : S.Op} {k : S.Res o → Prog S α} {tr : List (Ev S)} {q : Prog S α}
    (h : Path (.act o k) tr q) (hh : Hits P R tr q) (ho : ¬ P o) :
    ∃ r tr', tr = ⟨o, r⟩ :: tr' ∧ Path (k r) tr' q ∧ Hits P R tr' q := by
  rcases path_act h with ⟨rfl, rfl⟩ | ⟨r, tr', rfl, h'⟩
  · rcases hh with ⟨e, he, -⟩ | ⟨a, ha, -⟩
    · cases he
    · cases ha
  · refine ⟨r, tr', rfl, h', ?_⟩
    rcases hh with ⟨e, he, hP⟩ | hq
    · rcases List.mem_cons.mp he with rfl | he
      · exact absurd hP ho
      · exact .inl ⟨e, he, hP⟩
    · exact .inr hq

theorem hits_call {o : S.Op} {f : S.Res o → Prog S α} {tr : List (Ev S)} {q : Prog S α}
    (h : Path (Prog.call o >>= f) tr q) (hh : Hits P R tr q) (ho : ¬ P o) :
    ∃ r tr', tr = ⟨o, r⟩ :: tr' ∧ Path (f r) tr' q ∧ Hits P R tr' q :=
  hits_act h hh ho

theorem hits_bind {p : Prog S β} {f : β → Prog S α} {tr : List (Ev S)} {q : Prog S α}
    (h : Path (p >>= f) tr q) (hh : Hits P R tr q) (hp : p.Uses fun o => ¬ P o) :
    ∃ tr₁ b tr₂, tr = tr₁ ++ tr₂ ∧ Exec p tr₁ b ∧ Path (f b) tr₂ q ∧ Hits P R tr₂ q := by
  rcases Path.bind_cases h with ⟨p', hp', hne, rfl⟩ | ⟨tr₁, b, tr₂, rfl, hb, hq⟩
  · rcases hh with ⟨e, he, hP⟩ | ⟨a, ha, hR⟩
    · exact absurd hP ((hp.path hp').1 e he)
    · exact absurd ha (bind_ne_ret hne f a)
  · refine ⟨tr₁, b, tr₂, rfl, hb, hq, ?_⟩
    rcases hh with ⟨e, he, hP⟩ | hR
    · rcases List.mem_append.mp he with h₁ | h₂
      · exact absurd hP ((hp.path hb).1 e h₁)
      · exact .inl ⟨e, h₂, hP⟩
    · exact .inr hR

theorem hits_bind_bind {γ : Type} {p : Prog S γ} {f : γ → Prog S β} {g : β → Prog S α}
    {tr : List (Ev S)} {q : Prog S α} (h : Path ((p >>= f) >>= g) tr q) (hh : Hits P R tr q)
    (hp : p.Uses fun o => ¬ P o) :
    ∃ tr₁ b tr₂, tr = tr₁ ++ tr₂ ∧ Exec p tr₁ b ∧ Path (f b >>= g) tr₂ q ∧ Hits P R tr₂ q :=
  hits_bind (Prog.bind_assoc p f g ▸ h) hh hp

end Hits

structure Monitor (S : Sig) (σ : Type) where
  allow : σ → S.Op → Prop
  valid : σ → Ev S → Prop
  next : σ → Ev S → σ

namespace Monitor

def run (M : Monitor S σ) (s : σ) (tr : List (Ev S)) : σ := tr.foldl M.next s

def Valid (M : Monitor S σ) : σ → List (Ev S) → Prop
  | _, [] => True
  | s, e :: tr => M.valid s e ∧ M.Valid (M.next s e) tr

def Allowed (M : Monitor S σ) : σ → List (Ev S) → Prop
  | _, [] => True
  | s, e :: tr => M.allow s e.op ∧ M.Allowed (M.next s e) tr

variable (M : Monitor S σ)

instance decideValid [∀ s e, Decidable (M.valid s e)] (s : σ) :
    (tr : List (Ev S)) → Decidable (M.Valid s tr)
  | [] => instDecidableTrue
  | e :: tr => @instDecidableAnd _ _ _ (decideValid (M.next s e) tr)

@[simp] theorem run_nil (s : σ) : M.run s [] = s := rfl

@[simp] theorem run_cons (s : σ) (e : Ev S) (tr : List (Ev S)) :
    M.run s (e :: tr) = M.run (M.next s e) tr := rfl

theorem run_append (s : σ) (tr tr' : List (Ev S)) :
    M.run s (tr ++ tr') = M.run (M.run s tr) tr' := List.foldl_append ..

theorem valid_append (s : σ) (tr tr' : List (Ev S)) :
    M.Valid s (tr ++ tr') ↔ M.Valid s tr ∧ M.Valid (M.run s tr) tr' := by
  induction tr generalizing s with
  | nil => simp [Valid]
  | cons e tr ih => simp [Valid, ih, and_assoc]

theorem allowed_append (s : σ) (tr tr' : List (Ev S)) :
    M.Allowed s (tr ++ tr') ↔ M.Allowed s tr ∧ M.Allowed (M.run s tr) tr' := by
  induction tr generalizing s with
  | nil => simp [Allowed]
  | cons e tr ih => simp [Allowed, ih, and_assoc]

theorem Allowed.at {M : Monitor S σ} {s : σ} {pre post : List (Ev S)} {e : Ev S}
    (h : M.Allowed s (pre ++ e :: post)) : M.allow (M.run s pre) e.op :=
  ((M.allowed_append s pre (e :: post)).mp h).2.1

end Monitor

def Prog.wp (M : Monitor S σ) : Prog S α → (σ → α → Prop) → σ → Prop
  | .ret a, Q, s => Q s a
  | .halt, _, _ => True
  | .act o k, Q, s => M.allow s o ∧ ∀ r, M.valid s ⟨o, r⟩ → (k r).wp M Q (M.next s ⟨o, r⟩)

section Wp
variable {M : Monitor S σ} {Q Q' : σ → α → Prop} {s : σ}

@[simp] theorem wp_ret {a : α} : (Prog.ret a : Prog S α).wp M Q s ↔ Q s a := Iff.rfl

@[simp] theorem wp_halt : (Prog.halt : Prog S α).wp M Q s := trivial

@[simp] theorem wp_act {o : S.Op} {k : S.Res o → Prog S α} :
    (Prog.act o k).wp M Q s ↔
      M.allow s o ∧ ∀ r, M.valid s ⟨o, r⟩ → (k r).wp M Q (M.next s ⟨o, r⟩) := Iff.rfl

theorem wp_bind {p : Prog S α} {f : α → Prog S β} {Q : σ → β → Prop} :
    (p >>= f).wp M Q s ↔ p.wp M (fun s' a => (f a).wp M Q s') s := by
  induction p generalizing s with
  | ret a => rfl
  | halt => rfl
  | act o k ih => exact and_congr_right fun _ => forall₂_congr fun r _ => ih r

theorem Prog.wp_mono {p : Prog S α} (h : p.wp M Q s) (hQ : ∀ s a, Q s a → Q' s a) :
    p.wp M Q' s := by
  induction p generalizing s with
  | ret a => exact hQ s a h
  | halt => trivial
  | act o k ih => exact ⟨h.1, fun r hv => ih r (h.2 r hv)⟩

theorem wp_path {p q : Prog S α} {tr : List (Ev S)} (h : p.wp M Q s) (hp : Path p tr q)
    (hv : M.Valid s tr) : M.Allowed s tr ∧ q.wp M Q (M.run s tr) := by
  induction hp generalizing s with
  | nil p => exact ⟨trivial, h⟩
  | cons r _ ih =>
      obtain ⟨hall, hq⟩ := ih (h.2 r hv.1) hv.2
      exact ⟨⟨h.1, hall⟩, hq⟩

theorem wp_exec {p : Prog S α} {tr : List (Ev S)} {a : α} (h : p.wp M Q s) (hp : Exec p tr a)
    (hv : M.Valid s tr) : M.Allowed s tr ∧ Q (M.run s tr) a :=
  wp_path h hp hv

theorem wp_of_only {P : S.Op → Prop} {R : α → Prop} {I : σ → Prop} {p : Prog S α}
    (hp : p.Only P R)
    (hstep : ∀ s o, I s → P o →
      M.allow s o ∧ ∀ r, M.valid s ⟨o, r⟩ → I (M.next s ⟨o, r⟩))
    (hs : I s) : p.wp M (fun s' a => I s' ∧ R a) s := by
  induction p generalizing s with
  | ret a => exact ⟨hs, hp⟩
  | halt => trivial
  | act o k ih =>
      obtain ⟨hallow, hnext⟩ := hstep s o hs hp.1
      exact ⟨hallow, fun r hv => ih r (hp.2 r) (hnext r hv)⟩

end Wp

-- `wp` for a program that also stops, whatever is answered
def Prog.total (M : Monitor S σ) : Prog S α → (σ → α → Prop) → σ → Prop
  | .ret a, Q, s => Q s a
  | .halt, _, _ => False
  | .act o k, Q, s => M.allow s o ∧ ∀ r, M.valid s ⟨o, r⟩ → (k r).total M Q (M.next s ⟨o, r⟩)

section Total
variable {M : Monitor S σ} {Q Q' : σ → α → Prop} {s : σ}

theorem total_bind {p : Prog S α} {f : α → Prog S β} {Q : σ → β → Prop} :
    (p >>= f).total M Q s ↔ p.total M (fun s' a => (f a).total M Q s') s := by
  induction p generalizing s with
  | ret a => rfl
  | halt => rfl
  | act o k ih => exact and_congr_right fun _ => forall₂_congr fun r _ => ih r

theorem Prog.total_mono {p : Prog S α} (h : p.total M Q s) (hQ : ∀ s a, Q s a → Q' s a) :
    p.total M Q' s := by
  induction p generalizing s with
  | ret a => exact hQ s a h
  | halt => exact h
  | act o k ih => exact ⟨h.1, fun r hv => ih r (h.2 r hv)⟩

end Total

inductive AgreeTill (stop : S.Op → Bool) : Prog S α → Prog S α → Prop
  | refl (p : Prog S α) : AgreeTill stop p p
  | stop {o o' : S.Op} {k : S.Res o → Prog S α} {k' : S.Res o' → Prog S α}
      (h : stop o = true) (h' : stop o' = true) : AgreeTill stop (.act o k) (.act o' k')
  | act {o : S.Op} {k k' : S.Res o → Prog S α} (h : ∀ r, AgreeTill stop (k r) (k' r)) :
      AgreeTill stop (.act o k) (.act o k')

def Prog.under (env : List (Ev S) → (o : S.Op) → S.Res o) :
    Nat → List (Ev S) → Prog S α → List (Ev S)
  | n + 1, past, .act o k =>
      let r := env past o
      ⟨o, r⟩ :: (k r).under env n (past ++ [⟨o, r⟩])
  | _, _, _ => []

section Agree
variable {stop : S.Op → Bool} {env : List (Ev S) → (o : S.Op) → S.Res o}

theorem AgreeTill.bind {p : Prog S α} {f g : α → Prog S β}
    (h : ∀ a, AgreeTill stop (f a) (g a)) : AgreeTill stop (p >>= f) (p >>= g) := by
  induction p with
  | ret a => exact h a
  | halt => exact .refl _
  | act o k ih => exact .act ih

theorem AgreeTill.under_eq {p q : Prog S α} (h : AgreeTill stop p q) (n : Nat)
    (past : List (Ev S)) :
    (p.under env n past).takeWhile (fun e => !stop e.op) =
      (q.under env n past).takeWhile (fun e => !stop e.op) := by
  induction n generalizing p q past with
  | zero => rfl
  | succ n ih =>
      cases h with
      | refl => rfl
      | stop h h' => simp [Prog.under, h, h']
      | @act o k k' h =>
          simp only [Prog.under, List.takeWhile_cons]
          rw [ih (h (env past o))]

end Agree

end Interaction
