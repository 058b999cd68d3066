import SimpleRemote.Library.ByteCodec

namespace Json
open ByteCodec

abbrev Utf16 := List UInt16

def isHigh (u : UInt16) : Bool := 0xD800 ≤ u.toNat && u.toNat < 0xDC00

def isLow (u : UInt16) : Bool := 0xDC00 ≤ u.toNat && u.toNat < 0xE000

def units (c : Char) : Utf16 :=
  if c.toNat < 0x10000 then [UInt16.ofNat c.toNat]
  else [UInt16.ofNat (0xD800 + (c.toNat - 0x10000) / 1024),
    UInt16.ofNat (0xDC00 + (c.toNat - 0x10000) % 1024)]

def utf16 (t : Text) : Utf16 := t.flatMap units

def pairChar (u v : UInt16) : Char :=
  Char.ofNat (0x10000 + (u.toNat - 0xD800) * 1024 + (v.toNat - 0xDC00))

-- an unpaired surrogate stands as `error`
abbrev Point := Except UInt16 Char

def point (u : UInt16) : Point :=
  if isHigh u || isLow u then .error u else .ok (Char.ofNat u.toNat)

def points : Utf16 → List Point
  | [] => []
  | [u] => [point u]
  | u :: v :: rest =>
      if isHigh u && isLow v then .ok (pairChar u v) :: points rest
      else point u :: points (v :: rest)

def Point.units : Point → Utf16
  | .ok c => Json.units c
  | .error u => [u]

def Point.char? : Point → Option Char
  | .ok c => some c
  | .error _ => none

def toText (s : Utf16) : Option Text := (points s).mapM Point.char?

def hex4 (n : Nat) : Text :=
  [hexDigit (n / 4096 % 16), hexDigit (n / 256 % 16), hexDigit (n / 16 % 16), hexDigit (n % 16)]

def shortEscape (c : Char) : Option Char :=
  if c = '"' then some '"'
  else if c = '\\' then some '\\'
  else if c.toNat = 8 then some 'b'
  else if c.toNat = 12 then some 'f'
  else if c.toNat = 10 then some 'n'
  else if c.toNat = 13 then some 'r'
  else if c.toNat = 9 then some 't'
  else none

def quotePoint : Point → Text
  | .error u => '\\' :: 'u' :: hex4 u.toNat
  | .ok c =>
      match shortEscape c with
      | some e => ['\\', e]
      | none => if c.toNat < 0x20 then '\\' :: 'u' :: hex4 c.toNat else [c]

def quoteBody (s : Utf16) : Text := (points s).flatMap quotePoint

def quote (s : Utf16) : Text := '"' :: (quoteBody s ++ ['"'])

def stringifyField (f : Text × Utf16) : Text := quote (utf16 f.1) ++ ':' :: quote f.2

def stringifyFields : List (Text × Utf16) → Text
  | [] => []
  | [f] => stringifyField f
  | f :: fs => stringifyField f ++ ',' :: stringifyFields fs

def stringify (fields : List (Text × Utf16)) : Text := '{' :: (stringifyFields fields ++ ['}'])

inductive Value where
  | null
  | bool (b : Bool)
  | num (literal : Text)
  | str (s : Utf16)
  | arr (vs : List Value)
  | obj (ms : List (Utf16 × Value))

-- a key written twice keeps its last value
def Value.get (key : Text) : Value → Option Value
  | .obj ms => (ms.reverse.find? fun m => m.1 = utf16 key).map Prod.snd
  | _ => none

abbrev Parser (α : Type) := Text → Option (α × Text)

def skipWs : Text → Text := List.dropWhile fun c => c = ' ' ∨ c = '\t' ∨ c = '\n' ∨ c = '\r'

def literal {α : Type} (word : Text) (a : α) : Parser α := fun cs =>
  if word.isPrefixOf cs then some (a, cs.drop word.length) else none

def escapeUnit (e : Char) : Option UInt16 :=
  if e = '"' ∨ e = '\\' ∨ e = '/' then some (UInt16.ofNat e.toNat)
  else if e = 'b' then some 8
  else if e = 'f' then some 12
  else if e = 'n' then some 10
  else if e = 'r' then some 13
  else if e = 't' then some 9
  else none

def readHex4 : Parser Utf16
  | a :: b :: c :: d :: rest =>
      match hexValue a, hexValue b, hexValue c, hexValue d with
      | some a, some b, some c, some d =>
          some ([UInt16.ofNat (4096 * a + 256 * b + 16 * c + d)], rest)
      | _, _, _, _ => none
  | _ => none

def readEscape : Parser Utf16
  | [] => none
  | e :: rest => if e = 'u' then readHex4 rest else (escapeUnit e).map fun u => ([u], rest)

def readUnit : Parser Utf16
  | [] => none
  | c :: rest =>
      if c = '\\' then readEscape rest
      else if c = '"' ∨ c.toNat < 0x20 then none
      else some (units c, rest)

def readChars : Nat → Parser Utf16
  | 0, _ => none
  | n + 1, cs =>
      if cs.head? = some '"' then some ([], cs.tail)
      else
        match readUnit cs with
        | some (u, rest) => (readChars n rest).map fun (s, rest') => (u ++ s, rest')
        | none => none

-- each round of a loop below reads at least one character, so the length of the text is fuel enough
def readString : Parser Utf16
  | '"' :: cs => readChars (cs.length + 1) cs
  | _ => none

def spanDigits (cs : Text) : Text × Text := cs.span fun c => '0' ≤ c ∧ c ≤ '9'

def readInt (cs : Text) : Option Text :=
  match cs with
  | '0' :: rest => some rest
  | _ => if (spanDigits cs).1 = [] then none else some (spanDigits cs).2

def readFraction (cs : Text) : Option Text :=
  match cs with
  | '.' :: rest => if (spanDigits rest).1 = [] then none else some (spanDigits rest).2
  | _ => some cs

def readExponent (cs : Text) : Option Text :=
  match cs with
  | e :: rest =>
      if e = 'e' ∨ e = 'E' then
        let digits := if rest.head? = some '+' ∨ rest.head? = some '-' then rest.tail else rest
        if (spanDigits digits).1 = [] then none else some (spanDigits digits).2
      else some cs
  | [] => some cs

def readNumber : Parser Text := fun cs =>
  let unsigned := if cs.head? = some '-' then cs.tail else cs
  match (readInt unsigned).bind fun rest => (readFraction rest).bind readExponent with
  | some rest => some (cs.take (cs.length - rest.length), rest)
  | none => none

section
variable {α : Type}

def sepBy (p : Parser α) (close : Char) : Nat → Parser (List α)
  | 0, _ => none
  | n + 1, cs =>
      match p cs with
      | none => none
      | some (a, rest) =>
          match skipWs rest with
          | [] => none
          | c :: rest =>
              if c = close then some ([a], rest)
              else if c = ',' then (sepBy p close n rest).map fun (as, rest) => (a :: as, rest)
              else none

def bracketed (p : Parser α) (close : Char) : Parser (List α) := fun cs =>
  match skipWs cs with
  | [] => none
  | c :: rest => if c = close then some ([], rest) else sepBy p close (cs.length + 1) cs

def member (p : Parser α) : Parser (Utf16 × α) := fun cs =>
  match readString (skipWs cs) with
  | none => none
  | some (k, rest) =>
      match skipWs rest with
      | [] => none
      | c :: rest => if c = ':' then (p rest).map fun (v, rest) => ((k, v), rest) else none

end

def scalar (cs : Text) : Option (Value × Text) :=
  match readString cs with
  | some (s, rest) => some (.str s, rest)
  | none =>
      match literal "null".toList Value.null cs with
      | some r => some r
      | none =>
          match literal "true".toList (Value.bool true) cs with
          | some r => some r
          | none =>
              match literal "false".toList (Value.bool false) cs with
              | some r => some r
              | none => (readNumber cs).map fun (n, rest) => (.num n, rest)

-- the fuel bounds the nesting
def readValue : Nat → Parser Value
  | 0, _ => none
  | n + 1, cs =>
      match skipWs cs with
      | [] => none
      | c :: rest =>
          if c = '{' then (bracketed (member (readValue n)) '}' rest).map fun (ms, r) => (.obj ms, r)
          else if c = '[' then (bracketed (readValue n) ']' rest).map fun (vs, r) => (.arr vs, r)
          else scalar (c :: rest)

def parse (cs : Text) : Option Value :=
  match readValue (cs.length + 1) cs with
  | some (v, rest) => if skipWs rest = [] then some v else none
  | none => none

end Json
