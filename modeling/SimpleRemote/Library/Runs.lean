import Mathlib.Logic.Basic

namespace Runs

section
variable {S E : Type} (next : S → E → S)

-- `P` holds at every step of the run of `es` from `s`
def Along (P : S → E → Prop) : S → List E → Prop
  | _, [] => True
  | s, e :: es => P s e ∧ Along P (next s e) es

instance decidableAlong (P : S → E → Prop) [∀ s e, Decidable (P s e)] :
    ∀ (s : S) (es : List E), Decidable (Along next P s es)
  | _, [] => .isTrue trivial
  | s, e :: es =>
      have := decidableAlong P (next s e) es
      inferInstanceAs (Decidable (_ ∧ _))

end

section
variable {S E : Type} {next : S → E → S} {can P Q : S → E → Prop}

theorem along_iff (inv : S → Prop) (hiff : ∀ s e, inv s → can s e → (P s e ↔ Q s e))
    (hkeep : ∀ s e, inv s → can s e → Q s e → inv (next s e))
    {s : S} (hs : inv s) {es : List E} (hcan : Along next can s es) :
    Along next P s es ↔ Along next Q s es := by
  induction es generalizing s with
  | nil => exact Iff.rfl
  | cons e es ih =>
      have hstep := hiff s e hs hcan.1
      constructor
      · rintro ⟨hp, hrest⟩
        have hq := hstep.mp hp
        exact ⟨hq, (ih (hkeep s e hs hcan.1 hq) hcan.2).mp hrest⟩
      · rintro ⟨hq, hrest⟩
        exact ⟨hstep.mpr hq, (ih (hkeep s e hs hcan.1 hq) hcan.2).mpr hrest⟩

theorem Along.invariant {inv : S → Prop} (hkeep : ∀ s e, inv s → P s e → inv (next s e)) {s : S} (hs : inv s)
    {es : List E} (h : Along next P s es) : inv (es.foldl next s) := by
  induction es generalizing s with
  | nil => exact hs
  | cons e es ih => exact ih (hkeep s e hs h.1) h.2

theorem Along.imp {inv : S → Prop} (hstep : ∀ s e, inv s → P s e → inv (next s e) ∧ Q s e) {s : S}
    (hs : inv s) {es : List E} (h : Along next P s es) : Along next Q s es := by
  induction es generalizing s with
  | nil => trivial
  | cons e es ih =>
      obtain ⟨hinv, hq⟩ := hstep s e hs h.1
      exact ⟨hq, ih hinv h.2⟩

theorem Along.and_forall {R : E → Prop} {s : S} {es : List E} (h : Along next P s es)
    (hall : ∀ e ∈ es, R e) : Along next (fun s e => P s e ∧ R e) s es := by
  induction es generalizing s with
  | nil => trivial
  | cons e es ih =>
      obtain ⟨he, hrest⟩ := List.forall_mem_cons.mp hall
      exact ⟨⟨h.1, he⟩, ih h.2 hrest⟩

theorem Along.and {s : S} {es : List E} (hp : Along next P s es) (hq : Along next Q s es) :
    Along next (fun s e => P s e ∧ Q s e) s es := by
  induction es generalizing s with
  | nil => trivial
  | cons e es ih => exact ⟨⟨hp.1, hq.1⟩, ih hp.2 hq.2⟩

theorem Along.mono (himp : ∀ s e, P s e → Q s e) {s : S} {es : List E} (h : Along next P s es) :
    Along next Q s es := by
  induction es generalizing s with
  | nil => trivial
  | cons e es ih => exact ⟨himp s e h.1, ih h.2⟩

theorem Along.append {s : S} {es es' : List E} (h : Along next P s es)
    (h' : Along next P (es.foldl next s) es') : Along next P s (es ++ es') := by
  induction es generalizing s with
  | nil => exact h'
  | cons e es ih => exact ⟨h.1, ih h.2 h'⟩

end

section
variable {S T E F M : Type} {next : S → E → S} {next' : T → F → T} {can : S → E → Prop}
  {can' : T → F → Prop} {mark : E → Option M} {mark' : F → Option M}

-- where each step of one machine is a run of the other that shows the same, so is each run
theorem Along.carried {R : S → T → Prop}
    (hstep : ∀ s t e, R s t → can s e → ∃ fs, Along next' can' t fs ∧
      fs.filterMap mark' = [e].filterMap mark ∧ R (next s e) (fs.foldl next' t))
    {s : S} {t : T} (hR : R s t) {es : List E} (h : Along next can s es) :
    ∃ fs, Along next' can' t fs ∧ fs.filterMap mark' = es.filterMap mark ∧
      R (es.foldl next s) (fs.foldl next' t) := by
  induction es generalizing s t with
  | nil => exact ⟨[], trivial, rfl, hR⟩
  | cons e es ih =>
      obtain ⟨fs, hfs, hmark, hR'⟩ := hstep s t e hR h.1
      obtain ⟨fs', hfs', hmark', hR''⟩ := ih hR' h.2
      refine ⟨fs ++ fs', hfs.append hfs', ?_, ?_⟩
      · rw [List.filterMap_append, hmark, hmark', ← List.filterMap_append]
        rfl
      · rw [List.foldl_append]
        exact hR''

end

section
variable {S O E : Type} (next : S → E → S)

-- what the steps of a run give out, in order
def trace (out : S → E → List O) : S → List E → List O
  | _, [] => []
  | s, e :: es => out s e ++ trace out (next s e) es

end

section
variable {S T O E : Type} {next : S → E → S} {next' : T → E → T} {can : T → E → Prop}

-- a machine that stays related to another and gathers what that one gives out, step by step
theorem gathers (acc : T → List O) (out : S → E → List O) {R : S → T → Prop}
    (hstep : ∀ s t e, R s t → can t e →
      R (next s e) (next' t e) ∧ acc (next' t e) = acc t ++ out s e)
    {s : S} {t : T} (h : R s t) {es : List E} (hcan : Along next' can t es) :
    acc (es.foldl next' t) = acc t ++ trace next out s es := by
  induction es generalizing s t with
  | nil => exact (List.append_nil _).symm
  | cons e es ih =>
      obtain ⟨hnext, hacc⟩ := hstep s t e h hcan.1
      rw [List.foldl_cons, ih hnext hcan.2, hacc, trace, List.append_assoc]

end

section
variable {S T L : Type} {step : S → L → S → Prop} {step' : T → L → T → Prop}

-- what a run of labelled steps leads to
inductive Done (step : S → L → S → Prop) : S → List L → S → Prop
  | nil (s : S) : Done step s [] s
  | snoc {s s' s'' : S} {ls : List L} {l : L} (h : Done step s ls s') (hs : step s' l s'') :
      Done step s (ls ++ [l]) s''

-- where one machine simulates the steps of another, it simulates its runs
theorem Done.carried {R : S → T → Prop}
    (hstep : ∀ s t l s', R s t → step s l s' → ∃ t', step' t l t' ∧ R s' t')
    {s s' : S} {ls : List L} (h : Done step s ls s') {t : T} (hR : R s t) :
    ∃ t', Done step' t ls t' ∧ R s' t' := by
  induction h with
  | nil => exact ⟨t, .nil t, hR⟩
  | snoc _ hs ih =>
      obtain ⟨t', ht, hR'⟩ := ih
      obtain ⟨t'', ht', hR''⟩ := hstep _ _ _ _ hR' hs
      exact ⟨t'', .snoc ht ht', hR''⟩

end

end Runs
