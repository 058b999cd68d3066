import Mathlib.Data.Fin.Tuple.Basic
import Mathlib.Data.Fintype.BigOperators
import Mathlib.Data.Int.CardIntervalMod
import Mathlib.Algebra.Order.BigOperators.Group.Finset

namespace Sampling

section
variable {D β : Type} [Fintype D] [DecidableEq β]

-- of the runs of a rejection sampler on `n` draws, those that end with `r`; `none` goes on drawing
def outcomes (pick : D → Option β) (n : Nat) (r : Option β) : Nat :=
  (Finset.univ.filter fun draws : Fin n → D => (List.ofFn draws).findSome? pick = r).card

def chance (pick : D → Option β) (r : Option β) : Nat :=
  (Finset.univ.filter fun d : D => pick d = r).card

variable {pick : D → Option β}

theorem outcomes_zero_some (b : β) : outcomes pick 0 (some b) = 0 :=
  Finset.card_eq_zero.mpr (Finset.filter_eq_empty_iff.mpr fun _ _ h => by cases h)

theorem outcomes_succ (n : Nat) (r : Option β) : outcomes pick (n + 1) r =
    ∑ d : D, (Finset.univ.filter fun draws : Fin n → D =>
      (pick d).or ((List.ofFn draws).findSome? pick) = r).card := by
  have hcons (d : D) (draws : Fin n → D) :
      (List.ofFn (Fin.consEquiv (fun _ => D) (d, draws))).findSome? pick =
        (pick d).or ((List.ofFn draws).findSome? pick) := by
    rw [Fin.consEquiv, Equiv.coe_fn_mk, List.ofFn_cons, List.findSome?_cons]
    cases pick d <;> rfl
  simp only [outcomes, Finset.card_filter]
  rw [← (Fin.consEquiv fun _ : Fin (n + 1) => D).sum_comp, Fintype.sum_prod_type]
  exact Finset.sum_congr rfl fun d _ => Finset.sum_congr rfl fun draws _ => by rw [hcons]

theorem outcomes_step (n : Nat) (r : Option β) : outcomes pick (n + 1) r =
    (if r = none then 0 else chance pick r * Fintype.card D ^ n) +
      chance pick none * outcomes pick n r := by
  have hone (d : D) : (Finset.univ.filter fun draws : Fin n → D =>
      (pick d).or ((List.ofFn draws).findSome? pick) = r).card =
      (if r ≠ none ∧ pick d = r then Fintype.card D ^ n else 0) +
        if pick d = none then outcomes pick n r else 0 := by
    cases hd : pick d with
    | none =>
        have hnot : ¬ (r ≠ none ∧ none = r) := fun h => h.1 h.2.symm
        rw [if_pos rfl, if_neg hnot, Nat.zero_add]
        rfl
    | some b =>
        have hnot : ¬ some b = none := nofun
        rw [if_neg hnot, Nat.add_zero]
        by_cases hr : some b = r
        · have hall : ∀ draws ∈ (Finset.univ : Finset (Fin n → D)),
              (some b).or ((List.ofFn draws).findSome? pick) = r := fun _ _ => hr
          rw [if_pos ⟨fun h => hnot (hr.trans h), hr⟩, Finset.filter_true_of_mem hall,
            Finset.card_univ, Fintype.card_pi_const]
        · have hnone : ∀ draws ∈ (Finset.univ : Finset (Fin n → D)),
              ¬ (some b).or ((List.ofFn draws).findSome? pick) = r := fun _ _ => hr
          rw [if_neg fun h => hr h.2, Finset.filter_false_of_mem hnone, Finset.card_empty]
  have hmiss : (∑ d : D, if pick d = none then outcomes pick n r else 0) =
      chance pick none * outcomes pick n r := by
    rw [← Finset.sum_filter, Finset.sum_const, nsmul_eq_mul, Nat.cast_id, chance]
  have hhit : (∑ d : D, if r ≠ none ∧ pick d = r then Fintype.card D ^ n else 0) =
      if r = none then 0 else chance pick r * Fintype.card D ^ n := by
    by_cases hr : r = none
    · rw [if_pos hr]
      exact Finset.sum_eq_zero fun d _ => if_neg fun h => h.1 hr
    · rw [if_neg hr, ← Finset.sum_filter, Finset.sum_const, nsmul_eq_mul, Nat.cast_id, chance]
      simp only [ne_eq, hr, not_false_eq_true, true_and]
  rw [outcomes_succ, Finset.sum_congr rfl fun d _ => hone d, Finset.sum_add_distrib, hhit, hmiss]

-- `m` values with the same chance share the runs that end
theorem outcomes_some {m : Nat} {b : β}
    (hall : m * chance pick (some b) + chance pick none = Fintype.card D) (n : Nat) :
    m * outcomes pick n (some b) + chance pick none ^ n = Fintype.card D ^ n := by
  induction n with
  | zero => simp [outcomes_zero_some]
  | succ n ih =>
      rw [outcomes_step, if_neg (by simp)]
      calc m * (chance pick (some b) * Fintype.card D ^ n +
              chance pick none * outcomes pick n (some b)) + chance pick none ^ (n + 1)
          = m * chance pick (some b) * Fintype.card D ^ n +
              chance pick none * (m * outcomes pick n (some b) + chance pick none ^ n) := by ring
        _ = (m * chance pick (some b) + chance pick none) * Fintype.card D ^ n := by rw [ih]; ring
        _ = Fintype.card D ^ (n + 1) := by rw [hall, pow_succ, Nat.mul_comm]

end

-- the value below `span` of a draw below `limit`
def below (limit span n : Nat) : Option Nat := if n < limit then some (n % span) else none

section
variable {span q N v : Nat}

theorem chance_below (hle : q * span ≤ N) (hv : v < span) :
    chance (fun d : Fin N => below (q * span) span d.val) (some v) = q := by
  have hcard : chance (fun d : Fin N => below (q * span) span d.val) (some v) =
      ((Finset.range (q * span)).filter fun n => n ≡ v [MOD span]).card := by
    refine Finset.card_bij (fun d _ => d.val) (fun d hd => ?_) (fun d _ d' _ h => Fin.ext h)
      fun n hn => ?_
    · have hd := (Finset.mem_filter.mp hd).2
      dsimp only [below] at hd
      split at hd
      · rename_i hlt
        refine Finset.mem_filter.mpr ⟨Finset.mem_range.mpr hlt, ?_⟩
        rw [Nat.ModEq, Option.some.inj hd, Nat.mod_eq_of_lt hv]
      · cases hd
    · obtain ⟨hlt, hmod⟩ := Finset.mem_filter.mp hn
      have hlt := Finset.mem_range.mp hlt
      refine ⟨⟨n, lt_of_lt_of_le hlt hle⟩, Finset.mem_filter.mpr ⟨Finset.mem_univ _, ?_⟩, rfl⟩
      dsimp only [below]
      rw [if_pos hlt, hmod, Nat.mod_eq_of_lt hv]
  have hspan : 0 < span := Nat.zero_lt_of_lt hv
  rw [hcard, ← Nat.count_eq_card_filter_range, Nat.count_modEq_card _ hspan, Nat.mul_mod_left,
    if_neg (Nat.not_lt_zero _), Nat.mul_div_cancel _ hspan, Nat.add_zero]

theorem chance_below_none :
    chance (fun d : Fin N => below (q * span) span d.val) none = N - q * span := by
  have hcard : chance (fun d : Fin N => below (q * span) span d.val) none =
      (Finset.Ico (q * span) N).card := by
    refine Finset.card_bij (fun d _ => d.val) (fun d hd => ?_) (fun d _ d' _ h => Fin.ext h)
      fun n hn => ?_
    · have hd := (Finset.mem_filter.mp hd).2
      dsimp only [below] at hd
      split at hd
      · cases hd
      · rename_i hlt
        exact Finset.mem_Ico.mpr ⟨Nat.le_of_not_lt hlt, d.isLt⟩
    · obtain ⟨hge, hlt⟩ := Finset.mem_Ico.mp hn
      refine ⟨⟨n, hlt⟩, Finset.mem_filter.mpr ⟨Finset.mem_univ _, ?_⟩, rfl⟩
      exact if_neg (Nat.not_lt.mpr hge)
  rw [hcard, Nat.card_Ico]

end

section
variable {D E β γ : Type} [Fintype D] [Fintype E] [DecidableEq β] [DecidableEq γ]

theorem chance_equiv (e : D ≃ E) (pick : E → Option β) (r : Option β) :
    chance (fun d => pick (e d)) r = chance pick r := by
  simp only [chance, Finset.card_filter]
  exact e.sum_comp fun d => if pick d = r then 1 else 0

theorem chance_map {pick : D → Option β} {f : β → γ} {b : β}
    (hinj : ∀ d b', pick d = some b' → f b' = f b → b' = b) :
    chance (fun d => (pick d).map f) (some (f b)) = chance pick (some b) := by
  refine congrArg Finset.card (Finset.filter_congr fun d _ => ?_)
  constructor
  · intro h
    obtain ⟨b', hb', hf⟩ := Option.map_eq_some_iff.mp h
    rw [hb', hinj d b' hb' hf]
  · intro h
    dsimp only
    rw [h]
    rfl

theorem chance_map_none (pick : D → Option β) (f : β → γ) :
    chance (fun d => (pick d).map f) none = chance pick none :=
  congrArg Finset.card (Finset.filter_congr fun _ _ => Option.map_eq_none_iff)

end

end Sampling
