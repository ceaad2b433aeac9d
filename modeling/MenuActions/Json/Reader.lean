import MenuActions.Json.Basic
import MenuActions.Text.Split

/-!
# Reading documents

A reader for JSON texts. A number without fraction and exponent that fits 64 bits is a whole number;
any other number is a double, made from its leading digits that fit 64 bits and one scaling by a
power of ten.
-/

namespace MenuActions.Json

open Text

/-- The blanks between the tokens of a document. -/
def isSpace (c : Char) : Bool :=
  c == ' ' || c == '\t' || c == '\n' || c == '\r'

/-- The value of a hexadecimal digit. -/
def hexValue? (c : Char) : Option Nat :=
  if c.isDigit then some (c.toNat - '0'.toNat)
  else
    let lowered := c.toLower
    if 'a' ≤ lowered ∧ lowered ≤ 'f' then some (lowered.toNat - 'a'.toNat + 10) else none

/-- Four hexadecimal digits and what follows them. -/
def hexUnit? : List Char → Option (Nat × List Char)
  | a :: b :: c :: d :: rest => do
      let a ← hexValue? a
      let b ← hexValue? b
      let c ← hexValue? c
      let d ← hexValue? d
      return (((a * 16 + b) * 16 + c) * 16 + d, rest)
  | _ => none

/-- The character of an escape with four digits, or with two such escapes for one character beyond
the basic plane. -/
def unicodeEscape? (s : List Char) : Option (Char × List Char) := do
  let (unit, rest) ← hexUnit? s
  if 0xD800 ≤ unit ∧ unit < 0xDC00 then
    match rest with
    | '\\' :: 'u' :: rest =>
        let (low, rest) ← hexUnit? rest
        if 0xDC00 ≤ low ∧ low < 0xE000 then
          some (Char.ofNat (0x10000 + (unit - 0xD800) * 0x400 + (low - 0xDC00)), rest)
        else none
    | _ => none
  else if 0xDC00 ≤ unit ∧ unit < 0xE000 then none
  else some (Char.ofNat unit, rest)

/-- The characters behind an opening quote up to the closing one, and the text after it; `fuel`
bounds the number of characters. -/
def readString? : (fuel : Nat) → List Char → Option (List Char × List Char)
  | 0, _ => none
  | fuel + 1, s =>
      match s with
      | [] => none
      | '"' :: rest => some ([], rest)
      | '\\' :: e :: rest => do
          let (c, rest) ←
            match e with
            | '"' => some ('"', rest)
            | '\\' => some ('\\', rest)
            | '/' => some ('/', rest)
            | 'b' => some (Char.ofNat 8, rest)
            | 'f' => some (Char.ofNat 12, rest)
            | 'n' => some ('\n', rest)
            | 'r' => some ('\r', rest)
            | 't' => some ('\t', rest)
            | 'u' => unicodeEscape? rest
            | _ => none
          let (value, after) ← readString? fuel rest
          return (c :: value, after)
      | c :: rest => do
          if c.toNat < 32 then none
          else
            let (value, after) ← readString? fuel rest
            return (c :: value, after)

/-- The digits of a number that fit 64 bits, and how many digits were left over. -/
def leadingDigits : Nat → List Char → Nat × List Char
  | n, [] => (n, [])
  | n, c :: rest =>
      let next := 10 * n + (c.toNat - '0'.toNat)
      if next < Decimal.count64 then leadingDigits next rest else (n, c :: rest)

/-- The powers of ten by which a number is scaled in one step. -/
def powerOfTen (n : Nat) : Float :=
  Float.ofScientific 1 false n

/-- A number times a power of ten; `none` when it grows out of range. -/
def scale (x : Float) (exponent : Int) : Option Float :=
  if 0 ≤ exponent then
    if exponent ≤ 308 then
      let y := x * powerOfTen exponent.toNat
      if y.isFinite then some y else none
    else if x == 0.0 then some x else none
  else
    let places := exponent.natAbs
    if places ≤ 308 then some (x / powerOfTen places)
    else if places ≤ 616 then some (x / 1e308 / powerOfTen (places - 308))
    else if places ≤ 924 then some (x / 1e308 / 1e308 / powerOfTen (places - 616))
    else some 0.0

/-- Reads a number and what follows it. -/
def readNumber? (s : List Char) : Option (Json × List Char) := do
  let (negative, body) := match s with
    | '-' :: rest => (true, rest)
    | _ => (false, s)
  let whole := body.takeWhile Char.isDigit
  let rest := body.dropWhile Char.isDigit
  if whole.isEmpty || (whole.length > 1 && whole.head? == some '0') then none
  else
    let (fraction, rest) ← match rest with
      | '.' :: rest =>
          let fraction := rest.takeWhile Char.isDigit
          if fraction.isEmpty then none else some (some fraction, rest.dropWhile Char.isDigit)
      | _ => some (none, rest)
    let (exponent, rest) ← match rest with
      | e :: more =>
          if e = 'e' ∨ e = 'E' then
            let (down, digits) := Decimal.takeSign more
            let power := digits.takeWhile Char.isDigit
            if power.isEmpty then none
            else
              let value : Int := Decimal.digitsValue power
              some (some (if down then -value else value), digits.dropWhile Char.isDigit)
          else some (none, rest)
      | [] => some (none, rest)
    let value := Decimal.digitsValue whole
    if fraction.isNone && exponent.isNone && value < Decimal.count64 && !negative then
      return (.int value, rest)
    else if fraction.isNone && exponent.isNone && value ≤ Decimal.count63 && value ≠ 0 && negative then
      return (.int (-(value : Int)), rest)
    else
      let (head, overflow) := leadingDigits 0 whole
      let (digits, places) :=
        if overflow.isEmpty then
          let (digits, left) := leadingDigits head (fraction.getD [])
          (digits, (left.length : Int) - ((fraction.getD []).length : Int))
        else (head, (overflow.length : Int))
      let magnitude ← scale (Float.ofNat digits) (exponent.getD 0 + places)
      return (.float (if negative then -magnitude else magnitude), rest)

mutual

/-- Reads a value and what follows it; `fuel` bounds the depth and the number of items. -/
def readValue? : (fuel : Nat) → List Char → Option (Json × List Char)
  | 0, _ => none
  | fuel + 1, s =>
      match s.dropWhile isSpace with
      | '"' :: rest => do
          let (value, rest) ← readString? rest.length.succ rest
          return (.str (String.ofList value), rest)
      | '[' :: rest =>
          match rest.dropWhile isSpace with
          | ']' :: rest => some (.arr [], rest)
          | _ => do
              let (items, rest) ← readItems? fuel rest
              return (.arr items, rest)
      | '{' :: rest =>
          match rest.dropWhile isSpace with
          | '}' :: rest => some (.obj [], rest)
          | _ => do
              let (fields, rest) ← readFields? fuel rest
              return (.obj (Table.ofList fields), rest)
      | 't' :: 'r' :: 'u' :: 'e' :: rest => some (.bool true, rest)
      | 'f' :: 'a' :: 'l' :: 's' :: 'e' :: rest => some (.bool false, rest)
      | 'n' :: 'u' :: 'l' :: 'l' :: rest => some (.null, rest)
      | rest => readNumber? rest

/-- Reads the items of a list up to its closing bracket. -/
def readItems? : (fuel : Nat) → List Char → Option (List Json × List Char)
  | 0, _ => none
  | fuel + 1, s => do
      let (item, rest) ← readValue? fuel s
      match rest.dropWhile isSpace with
      | ',' :: rest =>
          let (items, rest) ← readItems? fuel rest
          return (item :: items, rest)
      | ']' :: rest => return ([item], rest)
      | _ => none

/-- Reads the fields of an object up to its closing brace. -/
def readFields? : (fuel : Nat) → List Char → Option (List (String × Json) × List Char)
  | 0, _ => none
  | fuel + 1, s =>
      match s.dropWhile isSpace with
      | '"' :: rest => do
          let (name, rest) ← readString? rest.length.succ rest
          match rest.dropWhile isSpace with
          | ':' :: rest =>
              let (value, rest) ← readValue? fuel rest
              let field := (String.ofList name, value)
              match rest.dropWhile isSpace with
              | ',' :: rest =>
                  let (fields, rest) ← readFields? fuel rest
                  return (field :: fields, rest)
              | '}' :: rest => return ([field], rest)
              | _ => none
          | _ => none
      | _ => none

end

/-- Reads a whole document. -/
def read? (text : String) : Option Json := do
  let s := text.toList
  let (value, rest) ← readValue? (2 * s.length + 2) s
  if rest.all isSpace then some value else none

end MenuActions.Json
