import MenuActions.Decimal.Numeral
import MenuActions.Text.Split

/-!
# Comparisons

The six operators of a condition. Two numbers are compared as numbers; any other two texts can only
be equal or different.
-/

namespace MenuActions.Grammar

/-- An operator between a placeholder's value and a literal. -/
inductive Comparison
  | atLeast
  | atMost
  | equal
  | notEqual
  | greater
  | less
  deriving DecidableEq, Repr

namespace Comparison

/-- The operator as it is written. -/
def symbol : Comparison → String
  | .atLeast => ">="
  | .atMost => "<="
  | .equal => "=="
  | .notEqual => "!="
  | .greater => ">"
  | .less => "<"

/-- Every operator, the two-character ones before their first characters. -/
def all : List Comparison :=
  [.atLeast, .atMost, .equal, .notEqual, .greater, .less]

/-- The comparison of two numbers. -/
def holdsOfNumbers (op : Comparison) (left right : Float) : Bool :=
  match op with
  | .atLeast => right ≤ left
  | .atMost => left ≤ right
  | .equal => left == right
  | .notEqual => left != right
  | .greater => right < left
  | .less => left < right

/-- The comparison of two texts, blanks around them aside. -/
def holds (op : Comparison) (left right : String) : Bool :=
  let left := Text.trim left.toList
  let right := Text.trim right.toList
  match Decimal.float? left, Decimal.float? right with
  | some l, some r => op.holdsOfNumbers l r
  | _, _ =>
      match op with
      | .equal => left == right
      | .notEqual => left != right
      | _ => false

/-- The operator that a text begins with, and the text after it. -/
def read? (s : List Char) : Option (Comparison × List Char) :=
  all.findSome? fun op => (Text.afterKeyword op.symbol.toList s).map fun rest => (op, rest)

end Comparison

end MenuActions.Grammar
