import MenuActions.Text.Blank

/-!
# Reading numbers

The texts that denote numbers and the numbers they denote. A numeral is an exact decimal; turning it
into a binary fraction rounds once, to nearest.
-/

namespace MenuActions.Decimal

/-- How many numbers have 64 bits. -/
def count64 : Nat := 18446744073709551616

/-- How many numbers have 63 bits: those of 64 bits with sign on either side of zero. -/
def count63 : Nat := 9223372036854775808

/-- The exact number `± digits × 10 ^ exponent`. -/
structure Numeral where
  negative : Bool
  digits : Nat
  exponent : Int
  deriving DecidableEq, Repr

/-- What a text can denote as a number. -/
inductive Reading
  | notANumber
  | infinite (negative : Bool)
  | finite (numeral : Numeral)
  deriving DecidableEq, Repr

/-- The number that a run of decimal digits denotes. -/
def digitsValue (digits : List Char) : Nat :=
  digits.foldl (fun n c => 10 * n + (c.toNat - '0'.toNat)) 0

/-- A sign in front, and what follows it. -/
def takeSign : List Char → Bool × List Char
  | '-' :: rest => (true, rest)
  | '+' :: rest => (false, rest)
  | s => (false, s)

/-- A text of decimal digits only, at least one. -/
def natural? (s : List Char) : Option Nat :=
  if !s.isEmpty && s.all Char.isDigit then some (digitsValue s) else none

/-- The exponent that ends a numeral: nothing, or `e` with an integer behind it. -/
def exponent? : List Char → Option Int
  | [] => some 0
  | e :: rest =>
      if e = 'e' ∨ e = 'E' then
        let (negative, digits) := takeSign rest
        (natural? digits).map fun n => if negative then -(n : Int) else n
      else none

/-- Reads a number: a sign, digits with a point among them, and an exponent, or a word for infinity
or for no number, in any case. -/
def read? (s : List Char) : Option Reading :=
  let (negative, body) := takeSign s
  let word := String.ofList (body.map Char.toLower)
  if word = "inf" ∨ word = "infinity" then some (.infinite negative)
  else if word = "nan" then some .notANumber
  else
    let whole := body.takeWhile Char.isDigit
    let (fraction, tail) :=
      match body.dropWhile Char.isDigit with
      | '.' :: rest => (rest.takeWhile Char.isDigit, rest.dropWhile Char.isDigit)
      | rest => ([], rest)
    if whole.isEmpty && fraction.isEmpty then none
    else
      (exponent? tail).map fun exponent =>
        .finite ⟨negative, digitsValue (whole ++ fraction), exponent - (fraction.length : Int)⟩

/-- The number of decimal digits of a natural number. -/
def digitCount (n : Nat) : Nat :=
  (Nat.toDigits 10 n).length

/-- The exponent of a numeral's leading digit. -/
def Numeral.leading (n : Numeral) : Int :=
  n.exponent + (digitCount n.digits : Int) - 1

/-- The double nearest to a numeral. Numerals far outside the range are infinite or zero. -/
def Numeral.toFloat (n : Numeral) : Float :=
  let magnitude : Float :=
    if n.digits = 0 ∨ n.leading < -330 then 0.0
    else if n.leading > 310 then 1.0 / 0.0
    else Float.ofScientific n.digits (n.exponent < 0) n.exponent.natAbs
  if n.negative then -magnitude else magnitude

/-- The single-precision number nearest to a numeral. -/
def Numeral.toFloat32 (n : Numeral) : Float32 :=
  let magnitude : Float32 :=
    if n.digits = 0 ∨ n.leading < -60 then 0.0
    else if n.leading > 45 then 1.0 / 0.0
    else Float32.ofScientific n.digits (n.exponent < 0) n.exponent.natAbs
  if n.negative then -magnitude else magnitude

/-- Reads a double. -/
def float? (s : List Char) : Option Float :=
  (read? s).map fun
    | .notANumber => 0.0 / 0.0
    | .infinite negative => if negative then -(1.0 / 0.0) else 1.0 / 0.0
    | .finite n => n.toFloat

/-- Reads a single-precision number. -/
def float32? (s : List Char) : Option Float32 :=
  (read? s).map fun
    | .notANumber => 0.0 / 0.0
    | .infinite negative => if negative then -(1.0 / 0.0) else 1.0 / 0.0
    | .finite n => n.toFloat32

/-- Reads a natural number of at most `bound`; a plus sign is allowed. -/
def natUpTo? (bound : Nat) (s : List Char) : Option Nat :=
  let digits := match s with
    | '+' :: rest => rest
    | _ => s
  (natural? digits).filter (· ≤ bound)

/-- Reads a signed integer of 64 bits. -/
def int64? (s : List Char) : Option Int :=
  let (negative, digits) := takeSign s
  (natural? digits).bind fun n =>
    if negative then if n ≤ count63 then some (-(n : Int)) else none
    else if n < count63 then some n else none

end MenuActions.Decimal
