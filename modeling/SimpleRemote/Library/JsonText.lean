import SimpleRemote.Library.Json

namespace Json
open ByteCodec

theorem toNat_ofNat16 {n : Nat} (h : n < 65536) : (UInt16.ofNat n).toNat = n := by
  rw [UInt16.toNat_ofNat']
  omega

theorem toNat_char {n : Nat} (h : n.isValidChar) : (Char.ofNat n).toNat = n := by
  rw [Char.ofNat, dif_pos h]
  rfl

theorem Point.units_point (u : UInt16) : (point u).units = [u] := by
  rw [point]
  split
  · rfl
  · rename_i hs
    have hlt := u.toNat_lt
    have hvalid : u.toNat.isValidChar := by
      simp only [isHigh, isLow, Bool.or_eq_true, Bool.and_eq_true, decide_eq_true_eq] at hs
      rw [Nat.isValidChar]
      omega
    rw [Point.units, Json.units, toNat_char hvalid, if_pos (by omega), UInt16.ofNat_toNat]

theorem units_pairChar {u v : UInt16} (hu : isHigh u = true) (hv : isLow v = true) :
    units (pairChar u v) = [u, v] := by
  simp only [isHigh, isLow, Bool.and_eq_true, decide_eq_true_eq] at hu hv
  have hvalid : (0x10000 + (u.toNat - 0xD800) * 1024 + (v.toNat - 0xDC00)).isValidChar := by
    rw [Nat.isValidChar]
    omega
  rw [units, pairChar, toNat_char hvalid, if_neg (by omega)]
  have hhigh : 0xD800 + (0x10000 + (u.toNat - 0xD800) * 1024 + (v.toNat - 0xDC00) - 0x10000) / 1024 =
      u.toNat := by omega
  have hlow : 0xDC00 + (0x10000 + (u.toNat - 0xD800) * 1024 + (v.toNat - 0xDC00) - 0x10000) % 1024 =
      v.toNat := by omega
  rw [hhigh, hlow, UInt16.ofNat_toNat, UInt16.ofNat_toNat]

theorem units_points (s : Utf16) : (points s).flatMap Point.units = s := by
  induction s using points.induct with
  | case1 => rfl
  | case2 u => simp [points, Point.units_point]
  | case3 u v rest h ih =>
      rw [Bool.and_eq_true] at h
      rw [points, if_pos (by simpa using h), List.flatMap_cons, ih, Point.units,
        units_pairChar h.1 h.2]
      rfl
  | case4 u v rest h ih =>
      rw [points, if_neg h, List.flatMap_cons, ih, Point.units_point]
      rfl

theorem readHex4_hex4 {n : Nat} (h : n < 65536) (rest : Text) :
    readHex4 (hex4 n ++ rest) = some ([UInt16.ofNat n], rest) := by
  have hdigit (m : Nat) : hexValue (hexDigit (m % 16)) = some (m % 16) :=
    hexValue_hexDigit (Nat.mod_lt m (by omega))
  have hsum : 4096 * (n / 4096 % 16) + 256 * (n / 256 % 16) + 16 * (n / 16 % 16) + n % 16 = n := by
    omega
  simp [hex4, readHex4, hdigit, hsum]

theorem readEscape_hex4 {n : Nat} (h : n < 65536) (rest : Text) :
    readUnit ('\\' :: 'u' :: (hex4 n ++ rest)) = some ([UInt16.ofNat n], rest) := by
  rw [readUnit, if_pos rfl, readEscape, if_pos rfl, readHex4_hex4 h]

theorem readEscape_short {c e : Char} (h : shortEscape c = some e) (rest : Text) :
    readUnit ('\\' :: e :: rest) = some (units c, rest) := by
  have hunits (hc : c.toNat < 0x10000) : units c = [UInt16.ofNat c.toNat] := if_pos hc
  rw [readUnit, if_pos rfl, readEscape]
  simp only [shortEscape] at h
  split at h
  · rename_i hc
    cases h
    subst hc
    rfl
  · split at h
    · rename_i hc
      cases h
      subst hc
      rfl
    · repeat' split at h
      all_goals cases h
      all_goals
        rename_i hc
        rw [hunits (by omega), hc]
        rfl

theorem readUnit_quotePoint (p : Point) (rest : Text) :
    readUnit (quotePoint p ++ rest) = some (p.units, rest) := by
  cases p with
  | error u =>
      have := readEscape_hex4 u.toNat_lt rest
      rwa [UInt16.ofNat_toNat] at this
  | ok c =>
      rw [quotePoint]
      split
      · rename_i e he
        exact readEscape_short he rest
      · rename_i hnone
        split
        · rename_i hc
          have := readEscape_hex4 (show c.toNat < 65536 by omega) rest
          rw [Point.units, Json.units, if_pos (by omega)]
          exact this
        · rename_i hc
          have hquote : c ≠ '"' := by
            rintro rfl
            simp [shortEscape] at hnone
          have hback : c ≠ '\\' := by
            rintro rfl
            simp [shortEscape] at hnone
          rw [List.singleton_append, readUnit, if_neg hback, if_neg (by simp [hquote, hc])]
          rfl

theorem head_quotePoint (p : Point) (rest : Text) :
    (quotePoint p ++ rest).head? ≠ some '"' := by
  cases p with
  | error u => simp [quotePoint]
  | ok c =>
      rw [quotePoint]
      split
      · simp
      · rename_i hnone
        split
        · simp
        · have hquote : c ≠ '"' := by
            rintro rfl
            simp [shortEscape] at hnone
          simpa using hquote

theorem readChars_points (ps : List Point) (rest : Text) (n : Nat) (h : ps.length < n) :
    readChars n (ps.flatMap quotePoint ++ '"' :: rest) = some (ps.flatMap Point.units, rest) := by
  induction ps generalizing n with
  | nil =>
      obtain ⟨n, rfl⟩ := Nat.exists_eq_succ_of_ne_zero (Nat.ne_of_gt h)
      simp [readChars]
  | cons p ps ih =>
      obtain ⟨n, rfl⟩ := Nat.exists_eq_succ_of_ne_zero (show n ≠ 0 by omega)
      have hp : ps.length < n := by
        rw [List.length_cons] at h
        omega
      rw [List.flatMap_cons, List.append_assoc, readChars, if_neg (head_quotePoint p _),
        readUnit_quotePoint]
      simp [ih n hp]

theorem length_points_le (s : Utf16) : (points s).length ≤ (quoteBody s).length := by
  have hpos (p : Point) : 1 ≤ (quotePoint p).length := by
    cases p with
    | error u => simp [quotePoint]
    | ok c =>
        rw [quotePoint]
        split
        · simp
        · split <;> simp
  rw [quoteBody]
  induction points s with
  | nil => simp
  | cons p ps ih =>
      have := hpos p
      simp only [List.length_cons, List.flatMap_cons, List.length_append]
      omega

theorem readString_quote (s : Utf16) (rest : Text) :
    readString (quote s ++ rest) = some (s, rest) := by
  have hlen := length_points_le s
  rw [quote, List.cons_append, List.append_assoc, readString, quoteBody]
  have := readChars_points (points s) rest
    ((quoteBody s ++ ('"' :: rest)).length + 1) (by simp only [List.length_append]; omega)
  rw [units_points] at this
  exact this

theorem skipWs_cons {c : Char} (cs : Text)
    (h : ¬ (c = ' ' ∨ c = '\t' ∨ c = '\n' ∨ c = '\r')) : skipWs (c :: cs) = c :: cs := by
  rw [skipWs, List.dropWhile_cons, if_neg (by simpa using h)]

theorem readValue_quote (n : Nat) (s : Utf16) (rest : Text) :
    readValue (n + 1) (quote s ++ rest) = some (.str s, rest) := by
  have hread := readString_quote s rest
  rw [quote, List.cons_append] at hread ⊢
  rw [readValue, skipWs_cons _ (by decide)]
  simp only [Char.reduceEq, if_false, scalar]
  rw [hread]

def stringField (f : Text × Utf16) : Utf16 × Value := (utf16 f.1, .str f.2)

theorem member_stringifyField (n : Nat) (f : Text × Utf16) (rest : Text) :
    member (readValue (n + 1)) (stringifyField f ++ rest) = some (stringField f, rest) := by
  have hkey := readString_quote (utf16 f.1) (':' :: (quote f.2 ++ rest))
  have hsplit : stringifyField f ++ rest = quote (utf16 f.1) ++ (':' :: (quote f.2 ++ rest)) := by
    simp [stringifyField]
  have hws : skipWs (quote (utf16 f.1) ++ (':' :: (quote f.2 ++ rest))) =
      quote (utf16 f.1) ++ (':' :: (quote f.2 ++ rest)) := by
    rw [quote, List.cons_append, skipWs_cons _ (by decide)]
  rw [member, hsplit, hws, hkey]
  dsimp only
  rw [skipWs_cons _ (by decide)]
  simp [readValue_quote, stringField]

theorem sepBy_stringifyFields (m n : Nat) (f : Text × Utf16) (fs : List (Text × Utf16))
    (rest : Text) (h : fs.length < n) :
    sepBy (member (readValue (m + 1))) '}' n (stringifyFields (f :: fs) ++ '}' :: rest) =
      some ((f :: fs).map stringField, rest) := by
  induction fs generalizing f n with
  | nil =>
      obtain ⟨n, rfl⟩ := Nat.exists_eq_succ_of_ne_zero (Nat.ne_of_gt h)
      rw [stringifyFields, sepBy, member_stringifyField]
      dsimp only
      rw [skipWs_cons _ (by decide)]
      rfl
  | cons g fs ih =>
      obtain ⟨n, rfl⟩ := Nat.exists_eq_succ_of_ne_zero (show n ≠ 0 by omega)
      have hn : fs.length < n := by
        rw [List.length_cons] at h
        omega
      rw [stringifyFields, List.append_assoc, List.cons_append, sepBy, member_stringifyField]
      · dsimp only
        rw [skipWs_cons _ (by decide)]
        simp [ih n g hn]
      · simp

theorem length_stringifyFields (fs : List (Text × Utf16)) : fs.length ≤ (stringifyFields fs).length := by
  induction fs using stringifyFields.induct with
  | case1 => simp
  | case2 f => simp [stringifyFields, stringifyField, quote]
  | case3 f fs hne ih =>
      rw [stringifyFields]
      · simp only [List.length_cons, List.length_append]
        omega
      · exact hne

theorem parse_stringify (f : Text × Utf16) (fs : List (Text × Utf16)) :
    parse (stringify (f :: fs)) = some (.obj ((f :: fs).map stringField)) := by
  have hlen := length_stringifyFields (f :: fs)
  obtain ⟨n, hn⟩ : ∃ n, (stringify (f :: fs)).length = n + 1 :=
    ⟨(stringifyFields (f :: fs) ++ ['}']).length, by simp [stringify]⟩
  have hhead : skipWs (stringifyFields (f :: fs) ++ ['}']) = stringifyFields (f :: fs) ++ ['}'] ∧
      (stringifyFields (f :: fs) ++ ['}']).head? = some '"' := by
    cases fs <;> simp [stringifyFields, stringifyField, quote, skipWs]
  obtain ⟨hws, hhead⟩ := hhead
  have hfields := sepBy_stringifyFields n ((stringifyFields (f :: fs) ++ ['}']).length + 1) f fs []
    (by simp only [List.length_append, List.length_cons] at hlen ⊢; omega)
  have hobject : readValue (n + 2) (stringify (f :: fs)) =
      some (.obj ((f :: fs).map stringField), []) := by
    rw [readValue, stringify, skipWs_cons _ (by decide)]
    simp only [if_true]
    rw [bracketed, hws]
    cases hcs : stringifyFields (f :: fs) ++ ['}'] with
    | nil => simp at hcs
    | cons c cs =>
        rw [hcs] at hhead hfields
        obtain rfl : c = '"' := Option.some.inj hhead
        simp only [Char.reduceEq, if_false]
        rw [hfields]
        rfl
  rw [parse, hn, hobject]
  rfl

theorem points_cons {u : UInt16} (h : isHigh u = false) (s : Utf16) :
    points (u :: s) = point u :: points s := by
  cases s with
  | nil => rfl
  | cons v rest => simp [points, h]

theorem points_units (c : Char) (s : Utf16) : points (units c ++ s) = .ok c :: points s := by
  have hvalid : c.toNat.isValidChar := c.valid
  rw [Nat.isValidChar] at hvalid
  rw [units]
  split
  · rename_i hlt
    have hu : (UInt16.ofNat c.toNat).toNat = c.toNat := toNat_ofNat16 hlt
    have hhigh : isHigh (UInt16.ofNat c.toNat) = false := by
      simp only [isHigh, hu, Bool.and_eq_false_imp, decide_eq_true_eq, decide_eq_false_iff_not]
      omega
    have hlow : isLow (UInt16.ofNat c.toNat) = false := by
      simp only [isLow, hu, Bool.and_eq_false_imp, decide_eq_true_eq, decide_eq_false_iff_not]
      omega
    rw [List.singleton_append, points_cons hhigh, point, hhigh, hlow, hu, Char.ofNat_toNat]
    rfl
  · rename_i hge
    have hu : (UInt16.ofNat (0xD800 + (c.toNat - 0x10000) / 1024)).toNat =
        0xD800 + (c.toNat - 0x10000) / 1024 := toNat_ofNat16 (by omega)
    have hv : (UInt16.ofNat (0xDC00 + (c.toNat - 0x10000) % 1024)).toNat =
        0xDC00 + (c.toNat - 0x10000) % 1024 := toNat_ofNat16 (by omega)
    have hhigh : isHigh (UInt16.ofNat (0xD800 + (c.toNat - 0x10000) / 1024)) = true := by
      simp only [isHigh, hu, Bool.and_eq_true, decide_eq_true_eq]
      omega
    have hlow : isLow (UInt16.ofNat (0xDC00 + (c.toNat - 0x10000) % 1024)) = true := by
      simp only [isLow, hv, Bool.and_eq_true, decide_eq_true_eq]
      omega
    have hsum : 0x10000 + (0xD800 + (c.toNat - 0x10000) / 1024 - 0xD800) * 1024 +
        (0xDC00 + (c.toNat - 0x10000) % 1024 - 0xDC00) = c.toNat := by omega
    rw [List.cons_append, List.singleton_append, points, if_pos (by rw [hhigh, hlow]; rfl), pairChar,
      hu, hv, hsum, Char.ofNat_toNat]

theorem points_utf16 (t : Text) : points (utf16 t) = t.map Except.ok := by
  induction t with
  | nil => rfl
  | cons c t ih => rw [utf16, List.flatMap_cons, points_units, List.map_cons, ← utf16, ih]

theorem toText_utf16 (t : Text) : toText (utf16 t) = some t := by
  rw [toText, points_utf16]
  induction t with
  | nil => rfl
  | cons c t ih => simp [List.mapM_cons, ih, Point.char?]

theorem utf16_inj {s t : Text} : utf16 s = utf16 t ↔ s = t := by
  refine ⟨fun h => ?_, congrArg utf16⟩
  have := toText_utf16 t
  rw [← h, toText_utf16] at this
  exact Option.some.inj this

theorem utf8_length_le (t : Text) : (utf8 t).length ≤ 4 * t.length := by
  induction t with
  | nil => simp [utf8]
  | cons c t ih =>
      have hc : (String.utf8EncodeChar c).length ≤ 4 := by
        rw [String.length_utf8EncodeChar]
        exact Char.utf8Size_le_four c
      rw [utf8, List.flatMap_cons, List.length_append, List.length_cons, ← utf8]
      omega

theorem length_le_utf8 (t : Text) : t.length ≤ (utf8 t).length := by
  induction t with
  | nil => simp
  | cons c t ih =>
      have hc : 1 ≤ (String.utf8EncodeChar c).length := by
        rw [String.length_utf8EncodeChar]
        exact Char.utf8Size_pos c
      rw [utf8, List.flatMap_cons, List.length_append, List.length_cons, ← utf8]
      omega

theorem length_lt_quote (t : Text) : t.length < (quote (utf16 t)).length := by
  have hbody := length_points_le (utf16 t)
  rw [points_utf16, List.length_map] at hbody
  simp only [quote, List.length_cons, List.length_append]
  omega

theorem utf16_length_le (t : Text) : (utf16 t).length ≤ 2 * t.length := by
  induction t with
  | nil => simp [utf16]
  | cons c t ih =>
      have hc : (units c).length ≤ 2 := by
        rw [units]
        split <;> simp
      rw [utf16, List.flatMap_cons, List.length_append, List.length_cons, ← utf16]
      omega

theorem points_length_le (s : Utf16) : (points s).length ≤ s.length := by
  induction s using points.induct with
  | case1 => simp [points]
  | case2 u => simp [points]
  | case3 u v rest h ih =>
      rw [points, if_pos (by simpa using h)]
      simp only [List.length_cons]
      omega
  | case4 u v rest h ih =>
      rw [points, if_neg h]
      simp only [List.length_cons] at ih ⊢
      omega

theorem quotePoint_length_le (p : Point) : (quotePoint p).length ≤ 6 := by
  cases p with
  | error u => simp [quotePoint, hex4]
  | ok c =>
      rw [quotePoint]
      split
      · simp
      · split <;> simp [hex4]

theorem quote_length_le (s : Utf16) : (quote s).length ≤ 6 * s.length + 2 := by
  have hpoints := points_length_le s
  have hbody : (quoteBody s).length ≤ 6 * (points s).length := by
    rw [quoteBody]
    induction points s with
    | nil => simp
    | cons p ps ih =>
        have := quotePoint_length_le p
        simp only [List.flatMap_cons, List.length_append, List.length_cons]
        omega
  simp only [quote, List.length_cons, List.length_append, List.length_nil]
  omega

def lookup (fields : List (Text × Utf16)) (key : Text) : Option Utf16 :=
  (fields.reverse.find? fun f => f.1 = key).map Prod.snd

theorem get_fields (fields : List (Text × Utf16)) (key : Text) :
    Value.get key (.obj (fields.map stringField)) = (lookup fields key).map .str := by
  have hsame : (fun m : Utf16 × Value => decide (m.1 = utf16 key)) ∘ stringField =
      fun f : Text × Utf16 => decide (f.1 = key) := by
    funext f
    simp [stringField, utf16_inj]
  rw [Value.get, ← List.map_reverse, List.find?_map, hsame, Option.map_map, lookup, Option.map_map]
  rfl

end Json
