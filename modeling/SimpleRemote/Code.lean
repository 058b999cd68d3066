import SimpleRemote.Host.Approver
import SimpleRemote.Host.Register
import SimpleRemote.Library.Digits
import SimpleRemote.Library.Sampling

namespace SimpleRemote
open ByteCodec

section
variable {c : Char} {t : Text}

theorem utf8_digit (h : c.isDigit = true) :
    String.utf8EncodeChar c = [UInt8.ofNat c.val.toNat] ∧
      Register.isAsciiDigit (UInt8.ofNat c.val.toNat) = true := by
  have hrange : 48 ≤ c.val.toNat ∧ c.val.toNat ≤ 57 := by
    simp only [Char.isDigit, Bool.and_eq_true, decide_eq_true_eq] at h
    exact ⟨h.1, h.2⟩
  have hsmall : c.val.toNat ≤ 0x7f := by omega
  refine ⟨if_pos hsmall, ?_⟩
  rw [Register.isAsciiDigit, toNat_ofNat (by omega)]
  simpa using hrange

theorem isDigit_of_utf8 (h : (String.utf8EncodeChar c).all Register.isAsciiDigit = true) :
    c.isDigit = true := by
  have hhigh {v : Nat} {rest : Bytes} (hv : 0x80 ≤ v % 256) :
      (UInt8.ofNat v :: rest).all Register.isAsciiDigit = false := by
    have hlarge : ¬ v % 256 ≤ 57 := by omega
    simp [Register.isAsciiDigit, hlarge]
  rw [String.utf8EncodeChar] at h
  split at h
  · rename_i hsmall
    have hdigit : 48 ≤ c.val.toNat ∧ c.val.toNat ≤ 57 := by
      have hval : c.toNat = c.val.toNat := rfl
      have hlt : c.toNat < 256 := by omega
      simpa [Register.isAsciiDigit, Nat.mod_eq_of_lt hlt] using h
    simp only [Char.isDigit, Bool.and_eq_true, decide_eq_true_eq]
    exact hdigit
  · split at h
    · rw [hhigh (by omega)] at h
      cases h
    · split at h
      · rw [hhigh (by omega)] at h
        cases h
      · rw [hhigh (by omega)] at h
        cases h

theorem utf8_digits : (utf8 t).all Register.isAsciiDigit = true ↔ ∀ c ∈ t, c.isDigit = true := by
  rw [utf8, List.all_flatMap, List.all_eq_true]
  constructor
  · intro h c hc
    exact isDigit_of_utf8 (h c hc)
  · intro h c hc
    obtain ⟨hone, hdigit⟩ := utf8_digit (h c hc)
    rw [hone, List.all_cons, hdigit]
    rfl

theorem utf8_length_of_digits (h : ∀ c ∈ t, c.isDigit = true) : (utf8 t).length = t.length := by
  induction t with
  | nil => rfl
  | cons c t ih =>
      obtain ⟨hone, -⟩ := utf8_digit (h c (List.mem_cons_self ..))
      rw [utf8, List.flatMap_cons, ← utf8, List.length_append, hone,
        ih fun c hc => h c (List.mem_cons_of_mem _ hc), List.length_singleton, List.length_cons,
        Nat.add_comm]

end

namespace OneTimeCode

def LIMIT : Nat := (2 ^ 32 - 1) / 1000000 * 1000000

theorem six_digits (n : Nat) (h : n < 10 ^ 6) : ((Nat.toDigits 10 n).leftpad 6 '0').length = 6 ∧
    ∀ c ∈ (Nat.toDigits 10 n).leftpad 6 '0', c.isDigit = true := by
  rw [Digits.leftpad_toDigits h]
  exact ⟨Digits.digits_length 6 n, fun c hc => Digits.isDigit_of_mem_digits hc⟩

-- `format!("{value:06}")`
def ofValue (n : Nat) : OneTimeCode :=
  ⟨(Nat.toDigits 10 (n % 1000000)).leftpad 6 '0', six_digits _ (Nat.mod_lt n (by decide))⟩

-- `none` when the random numbers given are used up and the loop goes on
def generate : List (ByteArr 4) → Option OneTimeCode
  | [] => none
  | buf :: draws => if fromBe buf.val < LIMIT then some (ofValue (fromBe buf.val)) else generate draws

def parse (input : Text) : Except AuthError OneTimeCode :=
  let digits := input.filter fun c => !isWhitespace c
  if h : (utf8 digits).length = 6 ∧ (utf8 digits).all Register.isAsciiDigit = true then
    .ok ⟨digits, utf8_length_of_digits (utf8_digits.mp h.2) ▸ h.1, utf8_digits.mp h.2⟩
  else .error (.malformed "one-time code".toList)

theorem parse_ok {input : Text} {code : OneTimeCode} :
    parse input = .ok code ↔ (input.filter fun c => !isWhitespace c) = code.digits := by
  rw [parse]
  constructor
  · intro h
    split at h
    · rw [← Except.ok.inj h]
    · cases h
  · intro h
    have hdigits : (utf8 (input.filter fun c => !isWhitespace c)).length = 6 ∧
        (utf8 (input.filter fun c => !isWhitespace c)).all Register.isAsciiDigit = true := by
      rw [h, utf8_length_of_digits code.six.2, utf8_digits]
      exact code.six
    rw [dif_pos hdigits]
    cases code
    cases h
    rfl

def value (code : OneTimeCode) : Nat := Nat.ofDigitChars 10 code.digits 0

theorem value_lt (code : OneTimeCode) : code.value < 1000000 := by
  have hlt := (Digits.digits_ofDigitChars code.six.2).2
  rw [code.six.1] at hlt
  exact hlt

theorem ofValue_value (code : OneTimeCode) : ofValue code.value = code := by
  obtain ⟨digits, hlength, hdigits⟩ := code
  have hround := (Digits.digits_ofDigitChars hdigits).1
  rw [hlength] at hround
  have hlt : Nat.ofDigitChars 10 digits 0 < 1000000 := value_lt ⟨digits, hlength, hdigits⟩
  have hpad : (Nat.toDigits 10 (Nat.ofDigitChars 10 digits 0)).leftpad 6 '0' = digits :=
    (Digits.leftpad_toDigits hlt).trans hround
  simp only [ofValue, value, Nat.mod_eq_of_lt hlt]
  congr

theorem value_ofValue (n : Nat) : (ofValue n).value = n % 1000000 := by
  have hlt : n % 1000000 < 10 ^ 6 := Nat.mod_lt n (by decide)
  simp only [value, ofValue]
  rw [Digits.leftpad_toDigits hlt, Digits.ofDigitChars_digits hlt]

end OneTimeCode

theorem fromBe_append (b : Bytes) (x : UInt8) : fromBe (b ++ [x]) = 256 * fromBe b + x.toNat := by
  rw [fromBe, List.foldl_append]
  rfl

theorem beBytes_fromBe (b : Bytes) : beBytes b.length (fromBe b) = b ∧ fromBe b < 256 ^ b.length := by
  induction b using List.reverseRecOn with
  | nil => exact ⟨rfl, by decide⟩
  | append_singleton b x ih =>
      obtain ⟨hb, hlt⟩ := ih
      have hx := x.toNat_lt
      have hdiv : (256 * fromBe b + x.toNat) / 256 = fromBe b := by omega
      have hmod : (256 * fromBe b + x.toNat) % 256 = x.toNat := by omega
      rw [fromBe_append, List.length_append, List.length_singleton, beBytes, hdiv, hmod, hb, pow_succ]
      exact ⟨by simp, by omega⟩

def drawEquiv (k : Nat) : ByteArr k ≃ Fin (256 ^ k) where
  toFun b := ⟨fromBe b.val, by
    have h := (beBytes_fromBe b.val).2
    rw [b.property] at h
    exact h⟩
  invFun n := ⟨beBytes k n.val, beBytes_length k n.val⟩
  left_inv b := Subtype.ext (by
    have h := (beBytes_fromBe b.val).1
    rw [b.property] at h
    exact h)
  right_inv n := Fin.ext (fromBe_beBytes k n.val n.isLt)

instance (k : Nat) : Fintype (ByteArr k) := .ofEquiv (Fin (256 ^ k)) (drawEquiv k).symm

namespace OneTimeCode
open Sampling

def pick (n : Fin (256 ^ 4)) : Option OneTimeCode := (below LIMIT 1000000 n.val).map ofValue

theorem generate_eq (draws : List (ByteArr 4)) :
    generate draws = draws.findSome? fun buf => pick (drawEquiv 4 buf) := by
  induction draws with
  | nil => rfl
  | cons buf draws ih =>
      rw [generate, List.findSome?_cons, ih]
      by_cases hlt : fromBe buf.val < LIMIT
      · have hpick : pick (drawEquiv 4 buf) = some (ofValue (fromBe buf.val)) := by
          have hbelow : below LIMIT 1000000 (fromBe buf.val) = some (fromBe buf.val % 1000000) :=
            if_pos hlt
          have hsame : ofValue (fromBe buf.val % 1000000) = ofValue (fromBe buf.val) := by
            simp only [ofValue, Nat.mod_mod]
          rw [pick, ← hsame]
          exact congrArg _ hbelow
        rw [if_pos hlt, hpick]
      · have hpick : pick (drawEquiv 4 buf) = none := by
          have hbelow : below LIMIT 1000000 (fromBe buf.val) = none := if_neg hlt
          exact congrArg _ hbelow
        rw [if_neg hlt, hpick]

theorem chance_pick (code : OneTimeCode) : chance pick (some code) = 4294 := by
  have hmap : chance pick (some (ofValue code.value)) =
      chance (fun n : Fin (256 ^ 4) => below LIMIT 1000000 n.val) (some code.value) := by
    refine chance_map fun n v hv heq => ?_
    have hlt : v < 1000000 := by
      rw [below] at hv
      split at hv
      · rw [← Option.some.inj hv]
        exact Nat.mod_lt _ (by decide)
      · cases hv
    have hvalue := congrArg value heq
    rwa [value_ofValue, value_ofValue, Nat.mod_eq_of_lt hlt, Nat.mod_eq_of_lt code.value_lt] at hvalue
  rw [ofValue_value] at hmap
  rw [hmap]
  exact chance_below (q := 4294) (by decide) code.value_lt

theorem chance_pick_none : chance pick none = 2 ^ 32 - LIMIT := by
  have hnone := chance_map_none (fun n : Fin (256 ^ 4) => below LIMIT 1000000 n.val) ofValue
  refine hnone.trans ?_
  exact chance_below_none (q := 4294)

-- every code comes out of as many runs as any other, whatever the number of draws
theorem generate_uniform (n : Nat) (code : OneTimeCode) :
    10 ^ 6 * (Finset.univ.filter fun draws : Fin n → ByteArr 4 =>
        generate (List.ofFn draws) = some code).card + (2 ^ 32 - LIMIT) ^ n = (2 ^ 32) ^ n := by
  have hcard : Fintype.card (ByteArr 4) = 2 ^ 32 := by
    rw [Fintype.card_congr (drawEquiv 4), Fintype.card_fin]
    rfl
  have hpick (r : Option OneTimeCode) :
      chance (fun buf : ByteArr 4 => pick (drawEquiv 4 buf)) r = chance pick r :=
    chance_equiv (drawEquiv 4) pick r
  have hall : 10 ^ 6 * chance (fun buf : ByteArr 4 => pick (drawEquiv 4 buf)) (some code) +
      chance (fun buf : ByteArr 4 => pick (drawEquiv 4 buf)) none = Fintype.card (ByteArr 4) := by
    rw [hpick, hpick, chance_pick, chance_pick_none, hcard]
    decide
  have hsome := outcomes_some hall n
  rw [hpick, chance_pick_none, hcard] at hsome
  rw [← hsome, outcomes]
  simp only [generate_eq]

end OneTimeCode

end SimpleRemote
