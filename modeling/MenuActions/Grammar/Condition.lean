import MenuActions.Grammar.Comparison
import MenuActions.Grammar.ParseError
import MenuActions.Text.Split
import MenuActions.Text.Quoted

/-!
# Conditions

`term && term || term …`, folded strictly from the left: `a || b && c` means `(a || b) && c`. A term
compares a placeholder with a literal or asks for a permission.
-/

namespace MenuActions.Grammar

open Text

/-- One question of a condition. -/
inductive Term
  | placeholder (name : String) (op : Comparison) (value : String)
  | permission (node : String)
  deriving DecidableEq, Repr

/-- A term as it reads in a condition. -/
def Term.text : Term → String
  | .placeholder name op value => "placeholder:" ++ name ++ " " ++ op.symbol ++ " " ++ value
  | .permission node => "permission:" ++ node

/-- How a term is joined to the terms before it. -/
inductive Connective
  | and
  | or
  deriving DecidableEq, Repr

/-- What can be wrong with a term, `text` being the term. -/
inductive TermError
  | empty
  | missingOperator (text : String)
  | missingName (text : String)
  | badValue (error : ParseError)
  | badNode (text : String)
  | unknown (text : String)

/-- The error in words. -/
def TermError.message : TermError → String
  | .empty => "empty term"
  | .missingOperator text => "missing comparison operator in '" ++ text ++ "'"
  | .missingName text => "missing placeholder name in '" ++ text ++ "'"
  | .badValue error => error.message
  | .badNode text => "invalid permission node in '" ++ text ++ "'"
  | .unknown text =>
      "unknown term '" ++ text ++
        "', expected placeholder:<name> <op> <value> or permission:<node>"

/-- The text inside one pair of quotes; a text that does not begin with a quote is only trimmed. -/
def unquote (text : List Char) : Except ParseError (List Char) :=
  match trim text with
  | '"' :: quoted =>
      match Quoted.decode quoted with
      | none => .error (.unterminatedQuote 0)
      | some (value, after) =>
          match trimStart after with
          | [] => .ok value
          | found :: rest =>
              .error (.unexpected found (offsetIn (byteLength (trim text)) (found :: rest))
                .endOfValue)
  | bare => .ok bare

/-- The first operator outside quotes, with the text before and after it. -/
def splitOperator (quoted : Bool) :
    List Char → Option (List Char × Comparison × List Char)
  | [] => none
  | c :: rest =>
      let quoted := if c = '"' then !quoted else quoted
      let here := if quoted then none else Comparison.read? (c :: rest)
      match here with
      | some (op, after) => some ([], op, after)
      | none =>
          (splitOperator quoted rest).map fun (before, op, after) => (c :: before, op, after)

/-- A placeholder name without the blanks and braces around it. -/
def bareName (text : List Char) : List Char :=
  let inner := (trim text).dropWhile (· == '{')
  trim (inner.reverse.dropWhile (· == '}')).reverse

/-- Reads one term. -/
def Term.read (source : List Char) : Except TermError Term :=
  let text := trim source
  let shown := String.ofList text
  if text.isEmpty then .error .empty
  else
    match afterKeyword "placeholder:".toList text with
    | some rest =>
        match splitOperator false rest with
        | none => .error (.missingOperator shown)
        | some (before, op, after) =>
            let name := bareName before
            if name.isEmpty then .error (.missingName shown)
            else
              match unquote after with
              | .error error => .error (.badValue error)
              | .ok value => .ok (.placeholder (String.ofList name) op (String.ofList value))
    | none =>
        match afterKeyword "permission:".toList text with
        | some rest =>
            let node := trim rest
            if node.isEmpty || node.any isBlank then .error (.badNode shown)
            else .ok (.permission (String.ofList node))
        | none => .error (.unknown shown)

/-- A condition: one term or several, each later one with its connective. -/
structure Expression where
  first : Term
  rest : List (Connective × Term)
  deriving DecidableEq, Repr

namespace Expression

/-- Cuts a text at the connectives outside quotes. -/
def splitTerms (quoted : Bool) : List Char → List Char × List (Connective × List Char)
  | [] => ([], [])
  | '|' :: '|' :: rest =>
      if quoted then
        let (piece, more) := splitTerms quoted rest
        ('|' :: '|' :: piece, more)
      else
        let (piece, more) := splitTerms false rest
        ([], (.or, piece) :: more)
  | '&' :: '&' :: rest =>
      if quoted then
        let (piece, more) := splitTerms quoted rest
        ('&' :: '&' :: piece, more)
      else
        let (piece, more) := splitTerms false rest
        ([], (.and, piece) :: more)
  | c :: rest =>
      let (piece, more) := splitTerms (if c = '"' then !quoted else quoted) rest
      (c :: piece, more)

/-- Reads the terms that follow the first. -/
def readRest : List (Connective × List Char) → Except TermError (List (Connective × Term))
  | [] => .ok []
  | (connective, piece) :: pieces => do
      let term ← Term.read piece
      let terms ← readRest pieces
      return (connective, term) :: terms

/-- Reads a condition. -/
def read (source : List Char) : Except ParseError Expression :=
  let (first, rest) := splitTerms false source
  let parsed : Except TermError Expression := do
    let first ← Term.read first
    let rest ← readRest rest
    return ⟨first, rest⟩
  parsed.mapError fun error => .invalidCondition (String.ofList source) error.message

/-- The terms in the order in which they are written. -/
def terms (e : Expression) : List Term :=
  e.first :: e.rest.map Prod.snd

/-- One step of the fold from the left: a term is asked only when it can change the value so far. -/
def step (holds : Term → Bool) (state : Bool × List Term) (next : Connective × Term) :
    Bool × List Term :=
  match next.1, state.1 with
  | .and, true => (holds next.2, state.2 ++ [next.2])
  | .or, false => (holds next.2, state.2 ++ [next.2])
  | _, value => (value, state.2)

/-- The value of a condition and the terms that were asked for it, in order. -/
def trace (holds : Term → Bool) (e : Expression) : Bool × List Term :=
  e.rest.foldl (step holds) (holds e.first, [e.first])

/-- The value of a condition. -/
def evaluate (holds : Term → Bool) (e : Expression) : Bool :=
  (e.trace holds).1

/-- The terms that decide the value of a condition, in the order in which they are asked. -/
def asked (holds : Term → Bool) (e : Expression) : List Term :=
  (e.trace holds).2

end Expression

end MenuActions.Grammar
