import Mathlib.Data.List.Induction
import Mathlib.Tactic.Ring

namespace Digits

-- the last `k` decimal digits of `n`
def digits : Nat → Nat → List Char
  | 0, _ => []
  | k + 1, n => digits k (n / 10) ++ [Nat.digitChar (n % 10)]

@[simp] theorem digits_length (k n : Nat) : (digits k n).length = k := by
  induction k generalizing n with
  | zero => rfl
  | succ k ih => simp [digits, ih]

theorem isDigit_of_mem_digits {k n : Nat} {c : Char} (h : c ∈ digits k n) : c.isDigit = true := by
  induction k generalizing n with
  | zero => cases h
  | succ k ih =>
      rcases List.mem_append.mp h with h | h
      · exact ih h
      · obtain rfl := List.mem_singleton.mp h
        rw [Nat.isDigit_digitChar]
        exact decide_eq_true (Nat.mod_lt n (by decide))

theorem ofDigitChars_digits {k n : Nat} (h : n < 10 ^ k) : Nat.ofDigitChars 10 (digits k n) 0 = n := by
  induction k generalizing n with
  | zero =>
      have : n = 0 := by simpa using h
      rw [this]
      rfl
  | succ k ih =>
      have hdiv : n / 10 < 10 ^ k := by
        rw [Nat.div_lt_iff_lt_mul (by decide), ← Nat.pow_succ]
        exact h
      rw [digits, Nat.ofDigitChars_append, ih hdiv,
        Nat.ofDigitChars_cons_digitChar_of_lt_ten (Nat.mod_lt n (by decide)), Nat.ofDigitChars_nil]
      exact Nat.div_add_mod n 10

theorem digitChar_of_isDigit {c : Char} (h : c.isDigit = true) :
    Nat.digitChar (c.toNat - '0'.toNat) = c ∧ c.toNat - '0'.toNat < 10 := by
  have hrange : 48 ≤ c.toNat ∧ c.toNat ≤ 57 := by
    simp only [Char.isDigit, Bool.and_eq_true, decide_eq_true_eq] at h
    exact ⟨h.1, h.2⟩
  have hzero : '0'.toNat = 48 := rfl
  have hlt : c.toNat - '0'.toNat < 10 := by omega
  refine ⟨Char.toNat_inj.mp ?_, hlt⟩
  rw [Nat.toNat_digitChar_of_lt_ten hlt]
  omega

theorem digits_ofDigitChars {l : List Char} (h : ∀ c ∈ l, c.isDigit = true) :
    digits l.length (Nat.ofDigitChars 10 l 0) = l ∧ Nat.ofDigitChars 10 l 0 < 10 ^ l.length := by
  induction l using List.reverseRecOn with
  | nil => exact ⟨rfl, by decide⟩
  | append_singleton l c ih =>
      obtain ⟨hl, hlt⟩ := ih fun c hc => h c (List.mem_append_left _ hc)
      obtain ⟨hchar, hc⟩ := digitChar_of_isDigit (h c (by simp))
      have hval : Nat.ofDigitChars 10 (l ++ [c]) 0 =
          10 * Nat.ofDigitChars 10 l 0 + (c.toNat - '0'.toNat) := by
        rw [Nat.ofDigitChars_append, Nat.ofDigitChars_cons, Nat.ofDigitChars_nil]
      have hdiv : (10 * Nat.ofDigitChars 10 l 0 + (c.toNat - '0'.toNat)) / 10 =
          Nat.ofDigitChars 10 l 0 := by omega
      have hmod : (10 * Nat.ofDigitChars 10 l 0 + (c.toNat - '0'.toNat)) % 10 =
          c.toNat - '0'.toNat := by omega
      rw [hval, List.length_append, List.length_singleton, digits, hdiv, hmod, hl, hchar, pow_succ]
      exact ⟨rfl, by omega⟩

theorem toDigits_eq {k n : Nat} (hlow : 10 ^ k ≤ n) (hhigh : n < 10 ^ (k + 1)) :
    Nat.toDigits 10 n = digits (k + 1) n := by
  induction k generalizing n with
  | zero =>
      have hn : n < 10 := by simpa using hhigh
      rw [Nat.toDigits_of_lt_base hn, digits, digits, Nat.mod_eq_of_lt hn]
      rfl
  | succ k ih =>
      have hbase : 10 ≤ n := by
        have : 10 ≤ 10 ^ (k + 1) := by
          rw [pow_succ]
          have := Nat.one_le_pow k 10 (by decide)
          omega
        omega
      have hlow' : 10 ^ k ≤ n / 10 := by
        rw [Nat.le_div_iff_mul_le (by decide), ← Nat.pow_succ]
        exact hlow
      have hhigh' : n / 10 < 10 ^ (k + 1) := by
        rw [Nat.div_lt_iff_lt_mul (by decide), ← Nat.pow_succ]
        exact hhigh
      rw [Nat.toDigits_of_base_le (by decide) hbase, ih hlow' hhigh']
      rfl

-- zero padding to a width that is wide enough
theorem leftpad_toDigits {k n : Nat} (h : n < 10 ^ (k + 1)) :
    (Nat.toDigits 10 n).leftpad (k + 1) '0' = digits (k + 1) n := by
  induction k generalizing n with
  | zero =>
      have hn : n < 10 := by simpa using h
      rw [Nat.toDigits_of_lt_base hn, digits, digits, Nat.mod_eq_of_lt hn]
      rfl
  | succ k ih =>
      have hdiv : n / 10 < 10 ^ (k + 1) := by
        rw [Nat.div_lt_iff_lt_mul (by decide), ← Nat.pow_succ]
        exact h
      rw [digits, ← ih hdiv]
      by_cases hn : n < 10
      · have hzero : n / 10 = 0 := Nat.div_eq_of_lt hn
        rw [hzero, Nat.toDigits_of_lt_base hn, Nat.mod_eq_of_lt hn,
          Nat.toDigits_of_lt_base (by decide)]
        simp [List.leftpad, List.replicate_succ']
      · rw [Nat.toDigits_of_base_le (by decide) (Nat.le_of_not_lt hn)]
        simp [List.leftpad]

theorem head_digits {k n : Nat} (hlow : 10 ^ k ≤ n) (hhigh : n < 10 ^ (k + 1)) :
    (digits (k + 1) n).head? ≠ some '0' := by
  induction k generalizing n with
  | zero =>
      have hn : n < 10 := by simpa using hhigh
      have hpos : n ≠ 0 := by
        have : 1 ≤ n := by simpa using hlow
        omega
      rw [digits, digits, Nat.mod_eq_of_lt hn]
      simpa using hpos
  | succ k ih =>
      have hlow' : 10 ^ k ≤ n / 10 := by
        rw [Nat.le_div_iff_mul_le (by decide), ← Nat.pow_succ]
        exact hlow
      have hhigh' : n / 10 < 10 ^ (k + 1) := by
        rw [Nat.div_lt_iff_lt_mul (by decide), ← Nat.pow_succ]
        exact hhigh
      have hfirst := ih hlow' hhigh'
      obtain ⟨c, l, hcons⟩ : ∃ c l, digits (k + 1) (n / 10) = c :: l :=
        List.exists_cons_of_length_eq_add_one (digits_length (k + 1) (n / 10))
      rw [digits, hcons]
      rw [hcons] at hfirst
      exact hfirst

theorem le_ofDigitChars {c : Char} {l : List Char} (hc : c.isDigit = true) (hne : c ≠ '0') :
    10 ^ l.length ≤ Nat.ofDigitChars 10 (c :: l) 0 := by
  obtain ⟨hchar, -⟩ := digitChar_of_isDigit hc
  have hpos : 1 ≤ c.toNat - '0'.toNat := by
    by_contra hzero
    have hz : c.toNat - '0'.toNat = 0 := by omega
    rw [hz] at hchar
    exact hne hchar.symm
  rw [Nat.ofDigitChars_cons, Nat.ofDigitChars_eq_ofDigitChars_zero, Nat.mul_zero, Nat.zero_add]
  exact Nat.le_add_right_of_le (Nat.le_mul_of_pos_right _ hpos)

end Digits
