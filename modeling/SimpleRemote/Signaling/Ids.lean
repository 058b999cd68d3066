import SimpleRemote.Code
import SimpleRemote.Signaling.Worker

namespace SimpleRemote.Signaling
open ByteCodec Sampling Digits

def idOf (v : Nat) : Text := Nat.toDigits 10 (ID_MIN + v)

section
variable {v : Nat} {id : Text}

theorem idOf_eq (h : v < ID_SPAN) : idOf v = digits 9 (ID_MIN + v) := by
  have hspan : v < 900000000 := h
  refine toDigits_eq (k := 8) ?_ ?_
  · show 10 ^ 8 ≤ 100000000 + v
    omega
  · show 100000000 + v < 10 ^ 9
    omega

theorem isRoomId_iff : Worker.isRoomId id = true ↔
    id.length = 9 ∧ (∀ c ∈ id, c.isDigit = true) ∧ id.head? ≠ some '0' := by
  simp [Worker.isRoomId, and_assoc]

theorem isRoomId_idOf (h : v < ID_SPAN) : Worker.isRoomId (idOf v) = true := by
  have hspan : v < 900000000 := h
  have hlow : 10 ^ 8 ≤ ID_MIN + v := by
    show 10 ^ 8 ≤ 100000000 + v
    omega
  have hhigh : ID_MIN + v < 10 ^ 9 := by
    show 100000000 + v < 10 ^ 9
    omega
  rw [idOf_eq h, isRoomId_iff]
  exact ⟨digits_length 9 _, fun c hc => isDigit_of_mem_digits hc, head_digits hlow hhigh⟩

theorem idOf_inj {v' : Nat} (h : v < ID_SPAN) (h' : v' < ID_SPAN) (heq : idOf v = idOf v') :
    v = v' := by
  have hval {u : Nat} (hu : u < ID_SPAN) : Nat.ofDigitChars 10 (idOf u) 0 = ID_MIN + u := by
    have hspan : u < 900000000 := hu
    rw [idOf_eq hu, ofDigitChars_digits]
    show 100000000 + u < 10 ^ 9
    omega
  have hsum : ID_MIN + v = ID_MIN + v' := by rw [← hval h, ← hval h', heq]
  exact Nat.add_left_cancel hsum

theorem exists_idOf (h : Worker.isRoomId id = true) : ∃ v < ID_SPAN, idOf v = id := by
  obtain ⟨hlength, hdigits, hhead⟩ := isRoomId_iff.mp h
  obtain ⟨hround, hlt⟩ := digits_ofDigitChars hdigits
  rw [hlength] at hround hlt
  obtain ⟨c, l, rfl⟩ := List.exists_cons_of_length_eq_add_one hlength
  have hge : 10 ^ l.length ≤ Nat.ofDigitChars 10 (c :: l) 0 :=
    le_ofDigitChars (hdigits c (List.mem_cons_self ..)) fun hc => hhead (congrArg some hc)
  have hl : l.length = 8 := Nat.succ.inj hlength
  rw [hl] at hge
  have hmin : ID_MIN = 100000000 := rfl
  refine ⟨Nat.ofDigitChars 10 (c :: l) 0 - ID_MIN, ?_, ?_⟩
  · show Nat.ofDigitChars 10 (c :: l) 0 - 100000000 < 900000000
    omega
  · have hsum : ID_MIN + (Nat.ofDigitChars 10 (c :: l) 0 - ID_MIN) =
        Nat.ofDigitChars 10 (c :: l) 0 := by omega
    rw [idOf, hsum, toDigits_eq (k := 8) hge hlt]
    exact hround

-- what `register_host` and the viewer take for a host id
theorem isHostId_of_isRoomId (h : Worker.isRoomId id = true) : Register.isHostId id = true := by
  obtain ⟨hlength, hdigits, -⟩ := isRoomId_iff.mp h
  rw [Register.isHostId, utf8_length_of_digits hdigits, hlength, utf8_digits.mpr hdigits]
  rfl

end

def pickId (n : Fin (2 ^ 32)) : Option Text := (below ID_SAMPLE_LIMIT ID_SPAN n.val).map idOf

theorem randomId_eq (draws : List (Fin (2 ^ 32))) : randomId draws = draws.findSome? pickId := by
  induction draws with
  | nil => rfl
  | cons n draws ih =>
      rw [randomId, List.findSome?_cons, ih]
      by_cases hlt : n.val < ID_SAMPLE_LIMIT
      · have hpick : pickId n = some (idOf (n.val % ID_SPAN)) := by
          rw [pickId, below, if_pos hlt]
          rfl
        rw [if_pos hlt, hpick]
        rfl
      · have hpick : pickId n = none := by
          rw [pickId, below, if_neg hlt]
          rfl
        rw [if_neg hlt, hpick]

theorem lt_of_below {limit span n v : Nat} (hspan : 0 < span) (h : below limit span n = some v) :
    v < span := by
  rw [below] at h
  split at h
  · rw [← Option.some.inj h]
    exact Nat.mod_lt n hspan
  · cases h

theorem isRoomId_randomId {draws : List (Fin (2 ^ 32))} {id : Text} (h : randomId draws = some id) :
    Worker.isRoomId id = true := by
  rw [randomId_eq] at h
  obtain ⟨n, -, hn⟩ := List.exists_of_findSome?_eq_some h
  obtain ⟨v, hv, rfl⟩ := Option.map_eq_some_iff.mp hn
  exact isRoomId_idOf (lt_of_below (by decide) hv)

theorem chance_pickId {id : Text} (h : Worker.isRoomId id = true) : chance pickId (some id) = 4 := by
  obtain ⟨v, hv, rfl⟩ := exists_idOf h
  have hmap : chance pickId (some (idOf v)) =
      chance (fun n : Fin (2 ^ 32) => below ID_SAMPLE_LIMIT ID_SPAN n.val) (some v) :=
    chance_map fun n v' hn heq => idOf_inj (lt_of_below (by decide) hn) hv heq
  rw [hmap]
  exact chance_below (q := 4) (by decide) hv

-- every id of the pattern comes out of as many runs as any other, and nothing else does
theorem randomId_uniform (n : Nat) (id : Text) :
    if Worker.isRoomId id then
      ID_SPAN * (Finset.univ.filter fun draws : Fin n → Fin (2 ^ 32) =>
        randomId (List.ofFn draws) = some id).card + (2 ^ 32 - ID_SAMPLE_LIMIT) ^ n = (2 ^ 32) ^ n
    else ∀ draws, randomId draws ≠ some id := by
  split
  · rename_i h
    have hnone : chance pickId none = 2 ^ 32 - ID_SAMPLE_LIMIT := by
      refine (chance_map_none (fun n : Fin (2 ^ 32) => below ID_SAMPLE_LIMIT ID_SPAN n.val) idOf).trans ?_
      exact chance_below_none (q := 4)
    have hall : ID_SPAN * chance pickId (some id) + chance pickId none = Fintype.card (Fin (2 ^ 32)) := by
      rw [chance_pickId h, hnone, Fintype.card_fin]
      decide
    have hsome := outcomes_some hall n
    rw [hnone, Fintype.card_fin] at hsome
    rw [← hsome, outcomes]
    simp only [randomId_eq]
  · rename_i h
    intro draws hdraws
    exact h (isRoomId_randomId hdraws)

end SimpleRemote.Signaling
