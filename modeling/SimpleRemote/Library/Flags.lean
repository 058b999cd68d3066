import Mathlib.Data.List.Basic

namespace Flags
variable {W σ : Type}

inductive Kind where
  | valued
  | switch

-- an option as it is written: a flag and its value, or a flag alone
inductive Item (W : Type) where
  | valued (flag value : W)
  | switch (flag : W)

namespace Item

def words : Item W → List W
  | .valued flag value => [flag, value]
  | .switch flag => [flag]

end Item

-- the flags of a program and what each option does to the settings
structure Grammar (W σ : Type) where
  kind : W → Option Kind
  set : σ → W → W → σ
  turnOn : σ → W → σ

namespace Grammar
variable (G : Grammar W σ)

def apply (s : σ) : Item W → σ
  | .valued flag value => G.set s flag value
  | .switch flag => G.turnOn s flag

def Knows : Item W → Prop
  | .valued flag _ => G.kind flag = some .valued
  | .switch flag => G.kind flag = some .switch

def parse (s : σ) : List W → Option σ
  | [] => some s
  | flag :: args =>
      match G.kind flag with
      | none => none
      | some .switch => parse (G.turnOn s flag) args
      | some .valued =>
          match args with
          | [] => none
          | value :: args => parse (G.set s flag value) args

variable {G}

section
variable {flag : W} (s : σ)

theorem parse_valued (h : G.kind flag = some .valued) (value : W) (args : List W) :
    G.parse s (flag :: value :: args) = G.parse (G.set s flag value) args := by
  rw [parse.eq_def]
  simp only [h]

theorem parse_valued_nil (h : G.kind flag = some .valued) : G.parse s [flag] = none := by
  rw [parse.eq_def]
  simp only [h]

theorem parse_switch (h : G.kind flag = some .switch) (args : List W) :
    G.parse s (flag :: args) = G.parse (G.turnOn s flag) args := by
  rw [parse.eq_def]
  simp only [h]

theorem parse_unknown (h : G.kind flag = none) (args : List W) : G.parse s (flag :: args) = none := by
  rw [parse.eq_def]
  simp only [h]

end

theorem parse_item {i : Item W} (h : G.Knows i) (s : σ) (args : List W) :
    G.parse s (i.words ++ args) = G.parse (G.apply s i) args := by
  cases i with
  | valued flag value => exact parse_valued s h value args
  | switch flag => exact parse_switch s h args

theorem parse_items {items : List (Item W)} (h : ∀ i ∈ items, G.Knows i) (s : σ) (args : List W) :
    G.parse s (items.flatMap Item.words ++ args) = G.parse (items.foldl G.apply s) args := by
  induction items generalizing s with
  | nil => rfl
  | cons i items ih =>
      obtain ⟨hi, hitems⟩ := List.forall_mem_cons.mp h
      rw [List.flatMap_cons, List.append_assoc, parse_item hi, ih hitems]
      rfl

theorem items_of_parse {s s' : σ} {args : List W} (h : G.parse s args = some s') :
    ∃ items : List (Item W), args = items.flatMap Item.words ∧ (∀ i ∈ items, G.Knows i) ∧
      items.foldl G.apply s = s' := by
  fun_induction parse G s args with
  | case1 s => exact ⟨[], rfl, nofun, Option.some.inj h⟩
  | case2 s flag args hkind => cases h
  | case3 s flag args hkind ih =>
      obtain ⟨items, rfl, hknown, hrun⟩ := ih h
      exact ⟨.switch flag :: items, rfl, List.forall_mem_cons.mpr ⟨hkind, hknown⟩, hrun⟩
  | case4 s flag hkind => cases h
  | case5 s flag hkind value args ih =>
      obtain ⟨items, rfl, hknown, hrun⟩ := ih h
      exact ⟨.valued flag value :: items, rfl, List.forall_mem_cons.mpr ⟨hkind, hknown⟩, hrun⟩

-- what is accepted is a list of known options, each with its value, taken one after another
theorem parse_iff {s s' : σ} {args : List W} : G.parse s args = some s' ↔
    ∃ items : List (Item W), args = items.flatMap Item.words ∧ (∀ i ∈ items, G.Knows i) ∧
      items.foldl G.apply s = s' := by
  refine ⟨items_of_parse, ?_⟩
  rintro ⟨items, rfl, hknown, rfl⟩
  have h := parse_items hknown s []
  rwa [List.append_nil] at h

-- a command line can be read in one way only
theorem words_inj {items items' : List (Item W)} (h : ∀ i ∈ items, G.Knows i)
    (h' : ∀ i ∈ items', G.Knows i) (heq : items.flatMap Item.words = items'.flatMap Item.words) :
    items = items' := by
  induction items generalizing items' with
  | nil =>
      cases items' with
      | nil => rfl
      | cons i' items' => cases i' <;> cases heq
  | cons i items ih =>
      cases items' with
      | nil => cases i <;> cases heq
      | cons i' items' =>
          obtain ⟨hi, hitems⟩ := List.forall_mem_cons.mp h
          obtain ⟨hi', hitems'⟩ := List.forall_mem_cons.mp h'
          rw [List.flatMap_cons, List.flatMap_cons] at heq
          cases i <;> cases i' <;> simp only [Item.words, List.cons_append, List.nil_append,
            List.cons.injEq] at heq
          · obtain ⟨rfl, rfl, hrest⟩ := heq
            rw [ih hitems hitems' hrest]
          · obtain ⟨rfl, -⟩ := heq
            cases hi.symm.trans hi'
          · obtain ⟨rfl, -⟩ := heq
            cases hi.symm.trans hi'
          · obtain ⟨rfl, hrest⟩ := heq
            rw [ih hitems hitems' hrest]

end Grammar

section Given
variable [DecidableEq W]

-- the values that a flag is given, in order
def valueOf (flag : W) : Item W → Option W
  | .valued f value => if f = flag then some value else none
  | .switch _ => none

def given (flag : W) (items : List (Item W)) : List W := items.filterMap (valueOf flag)

def isOn (flag : W) (items : List (Item W)) : Bool :=
  items.any fun
    | .valued _ _ => false
    | .switch f => f = flag

variable {G : Grammar W σ} {items : List (Item W)}

-- of a setting that one flag makes, the last value counts
theorem foldl_get (get : σ → Option W) (flag : W)
    (hset : ∀ s f value, G.kind f = some .valued →
      get (G.set s f value) = if f = flag then some value else get s)
    (hon : ∀ s f, get (G.turnOn s f) = get s) (h : ∀ i ∈ items, G.Knows i) (s : σ) :
    get (items.foldl G.apply s) = (given flag items).getLast?.or (get s) := by
  induction items generalizing s with
  | nil => rfl
  | cons i items ih =>
      obtain ⟨hi, hitems⟩ := List.forall_mem_cons.mp h
      have hfirst : get (G.apply s i) = (valueOf flag i).or (get s) := by
        cases i with
        | valued f value =>
            refine (hset s f value hi).trans ?_
            rw [valueOf]
            split <;> rfl
        | switch f => exact hon s f
      have hcons : given flag (i :: items) = (valueOf flag i).toList ++ given flag items := by
        rw [given, List.filterMap_cons]
        cases valueOf flag i <;> rfl
      rw [List.foldl_cons, ih hitems, hfirst, hcons, List.getLast?_append]
      cases (given flag items).getLast? <;> cases valueOf flag i <;> rfl

theorem foldl_on (get : σ → Bool) (flag : W) (hset : ∀ s f value, get (G.set s f value) = get s)
    (hon : ∀ s f, G.kind f = some .switch → get (G.turnOn s f) = (decide (f = flag) || get s))
    (h : ∀ i ∈ items, G.Knows i) (s : σ) :
    get (items.foldl G.apply s) = (isOn flag items || get s) := by
  induction items generalizing s with
  | nil => rfl
  | cons i items ih =>
      obtain ⟨hi, hitems⟩ := List.forall_mem_cons.mp h
      rw [List.foldl_cons, ih hitems]
      cases i with
      | valued f value => exact congrArg (isOn flag items || ·) (hset s f value)
      | switch f =>
          refine (congrArg (isOn flag items || ·) (hon s f hi)).trans ?_
          rw [← Bool.or_assoc, Bool.or_comm (isOn flag items)]
          rfl

end Given

end Flags
