import MenuActions.Decimal.Numeral

/-!
# Shortest decimals

A finite double is `± mantissa × 2 ^ exponent`. Its shortest decimal has the fewest digits among the
decimals that lie in the interval of reals rounding to it, and is the nearest of those.
-/

namespace MenuActions.Decimal

/-- The exact value `± mantissa × 2 ^ exponent` of a finite double. `tight` holds when the doubles
just below lie twice as close as those just above. -/
structure Binary where
  negative : Bool
  mantissa : Nat
  exponent : Int
  tight : Bool
  deriving DecidableEq, Repr

/-- Whether the sign bit of a double is set. -/
def signBit (x : Float) : Bool :=
  count63 ≤ x.toBits.toNat

/-- The exact value of a double, unless it is infinite or no number. -/
def Binary.ofFloat? (x : Float) : Option Binary :=
  let bits : Nat := x.toBits.toNat
  let hidden : Nat := 4503599627370496
  let field : Nat := bits / hidden % 2048
  let fraction : Nat := bits % hidden
  if field = 2047 then none
  else if field = 0 then some ⟨signBit x, fraction, -1074, false⟩
  else some ⟨signBit x, fraction + hidden, (field : Int) - 1075, fraction = 0 && field > 1⟩

/-- The positive rational `num / den`. -/
structure Ratio where
  num : Nat
  den : Nat

/-- The ratio `n × base ^ exponent`. -/
def Ratio.scaled (n base : Nat) (exponent : Int) : Ratio :=
  if 0 ≤ exponent then ⟨n * Nat.pow base exponent.toNat, 1⟩
  else ⟨n, Nat.pow base (-exponent).toNat⟩

/-- The exponent of the leading decimal digit of a ratio. -/
def Ratio.leading (r : Ratio) : Int :=
  if r.den ≤ r.num then (digitCount (r.num / r.den) : Int) - 1
  else
    let places := digitCount (r.den / r.num)
    if r.den ≤ r.num * Nat.pow 10 (places - 1) then 1 - (places : Int) else -(places : Int)

/-- Takes the zeros off the end of a decimal `digits × 10 ^ exponent`; `fuel` bounds their number.
-/
def stripZeros : (fuel digits : Nat) → (exponent : Int) → Nat × Int
  | 0, digits, exponent => (digits, exponent)
  | fuel + 1, digits, exponent =>
      if digits ≠ 0 ∧ digits % 10 = 0 then stripZeros fuel (digits / 10) (exponent + 1)
      else (digits, exponent)

/-- Of the multiples of `10 ^ k` next to a double, the nearest one that rounds to it. -/
def Binary.onGrid? (b : Binary) (k : Int) : Option Nat :=
  -- four times the value and the ends of its interval, in units of `2 ^ (exponent - 2)`
  let value := 4 * b.mantissa
  let low := if b.tight then value - 1 else value - 2
  let high := value + 2
  let closed := b.mantissa % 2 = 0
  -- compare `n` of these units with `c × 10 ^ k` over common factors
  let units := Ratio.scaled 1 2 (b.exponent - 2)
  let grid := Ratio.scaled 1 10 k
  let unit := units.num * grid.den
  let step := grid.num * units.den
  let inside := fun c : Nat =>
    if closed then low * unit ≤ c * step ∧ c * step ≤ high * unit
    else low * unit < c * step ∧ c * step < high * unit
  let below := value * unit / step
  let above := below + 1
  let belowFirst : Bool := value * unit - below * step ≤ above * step - value * unit
  let first := if belowFirst then below else above
  let second := if belowFirst then above else below
  if inside first ∧ first ≠ 0 then some first
  else if inside second ∧ second ≠ 0 then some second
  else none

/-- The shortest decimal of a double that is not zero, as digits and exponent; `fuel` more digits
are tried after `count` of them. -/
def Binary.shortestFrom (b : Binary) (leading : Int) : (fuel count : Nat) → Nat × Int
  | 0, _ => (0, 0)
  | fuel + 1, count =>
      let k := leading - (count : Int) + 1
      match b.onGrid? k with
      | some digits => stripZeros 20 digits k
      | none => b.shortestFrom leading fuel (count + 1)

/-- The shortest decimal of a double's magnitude, as digits and exponent; zero has digits zero. -/
def Binary.shortest (b : Binary) : Nat × Int :=
  if b.mantissa = 0 then (0, 0)
  else b.shortestFrom (Ratio.scaled b.mantissa 2 b.exponent).leading 17 1

end MenuActions.Decimal
