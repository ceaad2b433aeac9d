import MenuActions.Text.Split

/-!
# Keywords at the top level

A keyword counts only outside quotes and brackets, and only where a word can begin: behind a blank
or behind a closing quote or bracket. Inside quotes a backslash takes the next character with it.
-/

namespace MenuActions.Grammar.TopLevel

open Text

/-- Where a scan stands with respect to quotes. -/
inductive Mode
  | outside
  | quoted
  | escaped
  deriving DecidableEq, Repr

/-- Whether a keyword can begin behind this character. -/
def endsWord (c : Char) : Bool :=
  c == ' ' || c == '\t' || isLineBreak c || c == '"' || c == ']' || c == '}'

/-- The state of a scan: quoting, bracket depth and the character just passed. -/
structure Scan where
  mode : Mode
  depth : Nat
  previous : Char
  deriving DecidableEq, Repr

/-- A scan outside quotes and brackets. -/
def Scan.start (previous : Char) : Scan :=
  ⟨.outside, 0, previous⟩

/-- The state after one more character. -/
def Scan.step (scan : Scan) (c : Char) : Scan :=
  match scan.mode with
  | .escaped => ⟨.quoted, scan.depth, c⟩
  | .quoted =>
      ⟨if c = '\\' then .escaped else if c = '"' then .outside else .quoted, scan.depth, c⟩
  | .outside =>
      if c = '"' then ⟨.quoted, scan.depth, c⟩
      else if c = '[' ∨ c = '{' then ⟨.outside, scan.depth + 1, c⟩
      else if c = ']' ∨ c = '}' then ⟨.outside, scan.depth - 1, c⟩
      else ⟨.outside, scan.depth, c⟩

/-- Whether a keyword may begin at the next character. -/
def Scan.admits (scan : Scan) : Bool :=
  scan.mode == .outside && scan.depth == 0 && endsWord scan.previous

/-- The first of some keywords at the top level: the text before it, the keyword, and the text after
it. -/
def findKeyword (keywords : List (List Char)) (scan : Scan) :
    List Char → Option (List Char × List Char × List Char)
  | [] => none
  | c :: rest =>
      let here :=
        if scan.admits then
          keywords.findSome? fun keyword =>
            (afterKeyword keyword (c :: rest)).map fun after => (keyword, after)
        else none
      match here with
      | some (keyword, after) => some ([], keyword, after)
      | none =>
          (findKeyword keywords (scan.step c) rest).map fun (before, keyword, after) =>
            (c :: before, keyword, after)

end MenuActions.Grammar.TopLevel
