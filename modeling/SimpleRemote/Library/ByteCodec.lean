import Mathlib.Data.List.Basic
import Mathlib.Tactic.Ring

namespace ByteCodec

abbrev Bytes := List UInt8

abbrev Text := List Char

abbrev ByteArr (n : Nat) := { b : Bytes // b.length = n }

def writeVarint : Nat → Nat → Bytes
  | 0, _ => []
  | k + 1, n =>
      if n < 128 then [UInt8.ofNat n] else UInt8.ofNat (n % 128 + 128) :: writeVarint k (n / 128)

def readVarint (last : Nat) : Nat → Bytes → Option (Nat × Bytes)
  | 0, _ => none
  | _ + 1, [] => none
  | k + 1, b :: bs =>
      if b.toNat < 128 then
        if k = 0 ∧ last < b.toNat then none else some (b.toNat, bs)
      else (readVarint last k bs).map fun (n, rest) => (b.toNat - 128 + 128 * n, rest)

theorem toNat_ofNat {n : Nat} (h : n < 256) : (UInt8.ofNat n).toNat = n := by
  rw [UInt8.toNat_ofNat']
  omega

theorem readVarint_writeVarint {last : Nat} (hl : last < 128) (k n : Nat) (rest : Bytes)
    (h : n < 128 ^ k * (last + 1)) :
    readVarint last (k + 1) (writeVarint (k + 1) n ++ rest) = some (n, rest) := by
  induction k generalizing n with
  | zero =>
      have hn : n < 128 := by omega
      have hlast : ¬ last < n := by omega
      simp [writeVarint, readVarint, hn, hlast, toNat_ofNat (show n < 256 by omega)]
  | succ k ih =>
      by_cases hn : n < 128
      · rw [writeVarint, if_pos hn]
        simp [readVarint, hn, toNat_ofNat (show n < 256 by omega)]
      · have hdiv : n / 128 < 128 ^ k * (last + 1) := by
          rw [Nat.div_lt_iff_lt_mul (by omega)]
          calc n < 128 ^ (k + 1) * (last + 1) := h
            _ = 128 ^ k * (last + 1) * 128 := by ring
        rw [writeVarint, if_neg hn, List.cons_append, readVarint,
          toNat_ofNat (show n % 128 + 128 < 256 by omega), if_neg (by omega), ih _ hdiv]
        simp only [Option.map_some, Option.some.injEq, Prod.mk.injEq, and_true]
        omega

structure Codec (α : Type) where
  write : α → Bytes
  read : Bytes → Option (α × Bytes)
  fits : α → Prop
  read_write : ∀ a rest, fits a → read (write a ++ rest) = some (a, rest)

def tag : Codec Nat where
  write := writeVarint 5
  read := readVarint 15 5
  fits n := n < 2 ^ 32
  read_write n rest h := readVarint_writeVarint (by omega) 4 n rest (by simpa using h)

def u32 : Codec UInt32 where
  write n := writeVarint 5 n.toNat
  read b := (readVarint 15 5 b).map fun (n, rest) => (UInt32.ofNat n, rest)
  fits _ := True
  read_write n rest _ := by
    rw [readVarint_writeVarint (by omega) 4 _ rest (by simpa using n.toNat_lt)]
    simp

def u64 : Codec UInt64 where
  write n := writeVarint 10 n.toNat
  read b := (readVarint 1 10 b).map fun (n, rest) => (UInt64.ofNat n, rest)
  fits _ := True
  read_write n rest _ := by
    rw [readVarint_writeVarint (by omega) 9 _ rest (by simpa using n.toNat_lt)]
    simp

def bytes : Codec Bytes where
  write b := writeVarint 10 b.length ++ b
  read bs :=
    match readVarint 1 10 bs with
    | some (n, rest) => if n ≤ rest.length then some (rest.take n, rest.drop n) else none
    | none => none
  fits b := b.length < 2 ^ 64
  read_write b rest h := by
    rw [List.append_assoc, readVarint_writeVarint (by omega) 9 _ _ (by simpa using h)]
    simp

def utf8 (t : Text) : Bytes := t.flatMap String.utf8EncodeChar

def fromUtf8 (b : Bytes) : Option Text := b.toByteArray.utf8Decode?.map Array.toList

theorem fromUtf8_utf8 (t : Text) : fromUtf8 (utf8 t) = some t := by
  have h : (utf8 t).toByteArray = t.utf8Encode := by simp [utf8, List.utf8Encode]
  rw [fromUtf8, h, List.utf8Decode?_utf8Encode]
  simp

theorem utf8_injective {s t : Text} (h : utf8 s = utf8 t) : s = t := by
  have := fromUtf8_utf8 t
  rw [← h, fromUtf8_utf8] at this
  exact Option.some.inj this

@[simp] theorem utf8_append (s t : Text) : utf8 (s ++ t) = utf8 s ++ utf8 t := by
  simp [utf8]

def text : Codec Text where
  write t := bytes.write (utf8 t)
  read bs :=
    match bytes.read bs with
    | some (b, rest) => (fromUtf8 b).map fun t => (t, rest)
    | none => none
  fits t := bytes.fits (utf8 t)
  read_write t rest h := by
    rw [bytes.read_write _ rest h]
    simp [fromUtf8_utf8]

def Codec.pair {α β : Type} (c : Codec α) (d : Codec β) : Codec (α × β) where
  write p := c.write p.1 ++ d.write p.2
  read bs :=
    match c.read bs with
    | some (a, rest) => (d.read rest).map fun (b, rest) => ((a, b), rest)
    | none => none
  fits p := c.fits p.1 ∧ d.fits p.2
  read_write p rest h := by
    rw [List.append_assoc, c.read_write _ _ h.1]
    simp [d.read_write _ _ h.2]

theorem writeVarint_length_le (k n : Nat) : (writeVarint k n).length ≤ k := by
  induction k generalizing n with
  | zero => simp [writeVarint]
  | succ k ih =>
      rw [writeVarint]
      split
      · simp
      · simpa using ih (n / 128)

theorem length_le_write (b : Bytes) : b.length ≤ (bytes.write b).length := by
  simp [bytes]

def hexDigit (n : Nat) : Char :=
  if n < 10 then Char.ofNat (48 + n) else Char.ofNat (87 + n)

def hexValue (c : Char) : Option Nat :=
  let n := c.toNat
  if 48 ≤ n ∧ n ≤ 57 then some (n - 48)
  else if 97 ≤ n ∧ n ≤ 102 then some (n - 87)
  else if 65 ≤ n ∧ n ≤ 70 then some (n - 55)
  else none

def hexEncode : Bytes → Text
  | [] => []
  | b :: bs => hexDigit (b.toNat / 16) :: hexDigit (b.toNat % 16) :: hexEncode bs

def hexDecode : Text → Option Bytes
  | [] => some []
  | [_] => none
  | c :: d :: cs =>
      match hexValue c, hexValue d, hexDecode cs with
      | some x, some y, some bs => some (UInt8.ofNat (16 * x + y) :: bs)
      | _, _, _ => none

theorem hexValue_hexDigit {n : Nat} (h : n < 16) : hexValue (hexDigit n) = some n := by
  have key : ∀ m : Fin 16, hexValue (hexDigit m) = some m.val := by decide
  exact key ⟨n, h⟩

theorem hexDecode_hexEncode (b : Bytes) : hexDecode (hexEncode b) = some b := by
  induction b with
  | nil => rfl
  | cons x bs ih =>
      have hx : x.toNat < 256 := x.toNat_lt
      rw [hexEncode, hexDecode, hexValue_hexDigit (by omega), hexValue_hexDigit (by omega), ih]
      have hsum : 16 * (x.toNat / 16) + x.toNat % 16 = x.toNat := by omega
      simp [hsum]

theorem hexEncode_injective {a b : Bytes} (h : hexEncode a = hexEncode b) : a = b := by
  have := hexDecode_hexEncode b
  rw [← h, hexDecode_hexEncode] at this
  exact Option.some.inj this

theorem hexEncode_length (b : Bytes) : (hexEncode b).length = 2 * b.length := by
  induction b with
  | nil => rfl
  | cons x bs ih =>
      simp only [hexEncode, List.length_cons, ih]
      omega

theorem hexDigit_hexValue {c : Char} {n : Nat} (h : hexValue c = some n) :
    n < 16 ∧ hexDigit n = c.toLower := by
  have hlt : c.toNat < 103 := by
    simp only [hexValue] at h
    repeat' split at h
    all_goals first | omega | cases h
  have key : ∀ m : Fin 103, ∀ k ∈ hexValue (Char.ofNat m),
      k < 16 ∧ hexDigit k = (Char.ofNat m).toLower := by decide
  have := key ⟨c.toNat, hlt⟩ n
  rw [Char.ofNat_toNat] at this
  exact this h

theorem hexEncode_hexDecode {t : Text} {b : Bytes} (h : hexDecode t = some b) :
    hexEncode b = t.map Char.toLower := by
  induction t using hexDecode.induct generalizing b with
  | case1 =>
      obtain rfl := Option.some.inj h
      rfl
  | case2 c => cases h
  | case3 c d cs x y bs hcs hy hx ih =>
      rw [hexDecode, hx, hy, hcs] at h
      obtain rfl := Option.some.inj h
      obtain ⟨hxlt, hxc⟩ := hexDigit_hexValue hx
      obtain ⟨hylt, hyd⟩ := hexDigit_hexValue hy
      have hbyte : (UInt8.ofNat (16 * x + y)).toNat = 16 * x + y := toNat_ofNat (by omega)
      have hhigh : (16 * x + y) / 16 = x := by omega
      have hlow : (16 * x + y) % 16 = y := by omega
      rw [hexEncode, hbyte, hhigh, hlow, hxc, hyd, ih hcs]
      rfl
  | case4 c d cs hnone ih =>
      rw [hexDecode] at h
      split at h
      · rename_i hx hy hcs
        exact (hnone _ _ _ hx hy hcs).elim
      · cases h

end ByteCodec
