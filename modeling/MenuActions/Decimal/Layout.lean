import MenuActions.Decimal.Shortest

/-!
# Number texts

The ways in which a double is written. All of them use the shortest digits that read back the same
double; they differ in when an exponent is written, and in whether a whole number keeps a fraction.
-/

namespace MenuActions.Decimal

/-- How the digits of a double are laid out. -/
structure Layout where
  /-- Which exponents of the leading digit are written without an exponent part. -/
  positional : Int → Bool
  /-- Whether a whole number written in full ends in `.0`. -/
  keepsPoint : Bool
  /-- Whether a positive exponent has a plus sign. -/
  plusSign : Bool

/-- Numbers inside documents: full digits for exponents from -5 to 15. -/
def Layout.document : Layout :=
  ⟨fun e => -5 ≤ e && e < 16, true, true⟩

/-- Numbers in running text: never an exponent. -/
def Layout.plain : Layout :=
  ⟨fun _ => true, false, false⟩

/-- Numbers in log lines: full digits for exponents from -4 to 15, and no plus sign. -/
def Layout.log : Layout :=
  ⟨fun e => -4 ≤ e && e < 16, true, false⟩

/-- The decimal `digits × 10 ^ exponent` written in full. -/
def writeFull (keepsPoint : Bool) (digits : Nat) (exponent : Int) : String :=
  let text := Nat.toDigits 10 digits
  if 0 ≤ exponent then
    String.ofList (text ++ List.replicate exponent.toNat '0') ++ (if keepsPoint then ".0" else "")
  else
    let places := (-exponent).toNat
    let padded := List.replicate (places + 1 - text.length) '0' ++ text
    let cut := padded.length - places
    String.ofList (padded.take cut ++ '.' :: padded.drop cut)

/-- The decimal `digits × 10 ^ exponent` with its exponent part. -/
def writeScientific (plusSign : Bool) (digits : Nat) (exponent : Int) : String :=
  let text := Nat.toDigits 10 digits
  let leading := exponent + (text.length : Int) - 1
  let mantissa := match text with
    | [] => []
    | [d] => [d]
    | d :: more => d :: '.' :: more
  let sign := if leading < 0 then "-" else if plusSign then "+" else ""
  String.ofList mantissa ++ "e" ++ sign ++ toString leading.natAbs

/-- A double in a layout. -/
def Layout.write (layout : Layout) (x : Float) : String :=
  match Binary.ofFloat? x with
  | none =>
      if x.isNaN then "NaN" else if signBit x then "-inf" else "inf"
  | some b =>
      let (digits, exponent) := b.shortest
      let leading := exponent + (digitCount digits : Int) - 1
      let body :=
        if digits = 0 ∨ layout.positional leading then
          writeFull layout.keepsPoint digits exponent
        else writeScientific layout.plusSign digits exponent
      if b.negative then "-" ++ body else body

/-- The whole number that a double is, if it is one of fewer than sixteen digits. -/
def wholeAmount? (x : Float) : Option Int :=
  (Binary.ofFloat? x).bind fun b =>
    let magnitude? :=
      if 0 ≤ b.exponent then some (b.mantissa * Nat.pow 2 b.exponent.toNat)
      else
        let unit := Nat.pow 2 (-b.exponent).toNat
        if b.mantissa % unit = 0 then some (b.mantissa / unit) else none
    magnitude?.bind fun n =>
      if n < 1000000000000000 then some (if b.negative then -(n : Int) else n) else none

/-- An amount of money as it stands in commands and messages: whole amounts have no fraction. -/
def formatAmount (x : Float) : String :=
  match wholeAmount? x with
  | some n => toString n
  | none => Layout.plain.write x

end MenuActions.Decimal
