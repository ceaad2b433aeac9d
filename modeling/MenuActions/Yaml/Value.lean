import MenuActions.Decimal.Numeral
import MenuActions.Yaml.Node

/-!
# Kinds of YAML values

A plain scalar is null, a truth value, a number or a text, as its spelling says; a scalar in quotes
or in a block is a text. A tag of the core schema asks for a kind.
-/

namespace MenuActions.Yaml

/-- A value whose kind is known. -/
inductive Value
  | null
  | bool (value : Bool)
  | int (value : Int)
  | float (value : Float)
  | str (value : String)
  | list (items : List Value)
  | record (pairs : List (Value × Value))
  deriving Inhabited

/-! ## Spellings -/

/-- Whether a text is a spelling of null. -/
def isNull (text : String) : Bool :=
  ["~", "null", "Null", "NULL"].contains text

/-- The truth value that a text spells. -/
def bool? (text : String) : Option Bool :=
  if ["true", "True", "TRUE"].contains text then some true
  else if ["false", "False", "FALSE"].contains text then some false
  else none

/-- Whether a text is made of digits with a needless zero in front. -/
def hasLeadingZero (s : List Char) : Bool :=
  let digits := (Decimal.takeSign s).2
  1 < digits.length && digits.head? == some '0' && digits.all Char.isDigit

/-- The number that digits of some radix denote. -/
def digits? (radix : Nat) (s : List Char) : Option Nat :=
  if s.isEmpty then none
  else s.foldl (fun n c => do
    let n ← n
    let d ← hexDigit? c
    if d < radix then some (radix * n + d) else none) (some 0)

/-- The number that a text without sign denotes, in decimal or with a mark for another radix. -/
def magnitude? : List Char → Option Nat
  | '0' :: 'x' :: digits => digits? 16 digits
  | '0' :: 'o' :: digits => digits? 8 digits
  | '0' :: 'b' :: digits => digits? 2 digits
  | digits => if hasLeadingZero digits then none else digits? 10 digits

/-- The whole number that a text spells. -/
def whole? : List Char → Option Int
  | '-' :: rest => (magnitude? rest).map fun n => -(n : Int)
  | '+' :: rest => (magnitude? rest).map fun n => (n : Int)
  | s => (magnitude? s).map fun n => (n : Int)

/-- Whether a text is a spelling of infinity. -/
def isInfinity (s : List Char) : Bool :=
  [".inf", ".Inf", ".INF"].contains (String.ofList s)

/-- The number with a fraction, or the word for infinity or for no number, that a text spells. -/
def float? (text : String) : Option Float :=
  let (negative, body) := Decimal.takeSign text.toList
  if isInfinity body then some (if negative then -(1.0 / 0.0) else 1.0 / 0.0)
  else if [".nan", ".NaN", ".NAN"].contains text then some (0.0 / 0.0)
  else if (Decimal.takeSign body).2 != body then none
  else (Decimal.float? text.toList).filter Float.isFinite

/-- Whether a whole number fits into 64 bits, with or without sign. -/
def isWord (n : Int) : Bool :=
  -(Decimal.count63 : Int) ≤ n && n < Decimal.count64

/-- Whether a whole number fits into 128 bits, with or without sign. -/
def isDoubleWord (n : Int) : Bool :=
  -(Decimal.count63 * Decimal.count64 : Int) ≤ n && n < Decimal.count64 * Decimal.count64

/-- A natural number of at most 64 bits in a scalar that may be a number. -/
def natural? (tag : Option String) (text : String) (style : Style) : Option Nat :=
  let mayBeNumber := match style with
    | .plain => true
    | .literal => tag == some "tag:yaml.org,2002:int"
    | _ => false
  if mayBeNumber && text.toList.head? != some '-' then
    ((whole? text.toList).filter isWord).map Int.toNat
  else none

namespace Value

/-- The value of a number or text that is neither null nor a truth value. A whole number of more
than 64 bits is refused up to 128 bits, and beyond that has a fraction's precision. -/
def ofNumberOrText? (text : String) : Option Value :=
  let s := text.toList
  match (whole? s).filter isDoubleWord with
  | some n => if isWord n then some (int n) else none
  | none =>
      match if hasLeadingZero s then none else float? text with
      | some x => some (float x)
      | none => some (.str text)

/-- The value of a plain scalar without tag. -/
def ofPlain? (text : String) : Option Value :=
  if text = "" ∨ isNull text then some null
  else
    match bool? text with
    | some value => some (bool value)
    | none => ofNumberOrText? text

/-- The value of a scalar with a tag. A tag of its own meaning is refused. -/
def ofTagged? (tag text : String) : Option Value :=
  if tag.toList.head? == some '!' then none
  else if tag = "tag:yaml.org,2002:null" then if isNull text then some null else none
  else if tag = "tag:yaml.org,2002:bool" then (bool? text).map bool
  else if tag = "tag:yaml.org,2002:int" then ((whole? text.toList).filter isWord).map int
  else if tag = "tag:yaml.org,2002:float" then (float? text).map float
  else some (.str text)

/-- The value of a scalar. -/
def ofScalar? (tag : Option String) (text : String) (style : Style) : Option Value :=
  match tag with
  | some tag => ofTagged? tag text
  | none => if style = .plain then ofPlain? text else some (.str text)

/-- Whether a tag leaves a collection what it is. -/
def keepsKind (tag : Option String) : Bool :=
  tag.all fun tag => tag.toList.head? != some '!'

mutual

/-- The value of a node in which at most `depth` collections are nested. -/
def ofNode? (depth : Nat) : Node → Option Value
  | .scalar tag text style => ofScalar? tag text style
  | .sequence tag items =>
      if keepsKind tag && depth != 0 then (ofItems? (depth - 1) items).map list else none
  | .mapping tag pairs =>
      if keepsKind tag && depth != 0 then (ofPairs? (depth - 1) pairs).map record else none

/-- The values of the items of a sequence. -/
def ofItems? (depth : Nat) : List Node → Option (List Value)
  | [] => some []
  | item :: items => do
      let value ← ofNode? depth item
      let values ← ofItems? depth items
      return value :: values

/-- The values of the keys and values of a mapping. -/
def ofPairs? (depth : Nat) : List (Node × Node) → Option (List (Value × Value))
  | [] => some []
  | (key, value) :: pairs => do
      let key ← ofNode? depth key
      let value ← ofNode? depth value
      let rest ← ofPairs? depth pairs
      return (key, value) :: rest

end

/-- How deep collections may be nested. -/
def maxDepth : Nat := 128

end Value

end MenuActions.Yaml
