import MenuActions.Grammar.ParseError
import MenuActions.Text.Split
import MenuActions.Text.Quoted

/-!
# Blocks

`type { - "v1" - "v2" }`: a type name and, between braces, values each introduced by a dash. A value
is quoted, or a bar followed by literal lines, or the rest of its line.

`decode_escape` carries quoted values through; `dedent` brings literal lines to their normal form.
-/

namespace MenuActions.Grammar.Block

open Text

/-- The characters of a type name. -/
def isNameChar (c : Char) : Bool :=
  c.isAlphanum || c == '_' || c == '-'

/-- Whether the text behind an opening brace begins the body of a block. -/
def opensBody (body : List Char) : Bool :=
  match trimStart body with
  | '-' :: _ => true
  | '}' :: _ => true
  | _ => false

/-- Whether a text ends with the given character. -/
def endsWith (c : Char) (s : List Char) : Bool :=
  s.getLast? == some c

/-- The type name of a text that has the form of a block. -/
def typeName? (text : List Char) : Option (List Char) :=
  let text := trim text
  let name := text.takeWhile isNameChar
  match name, trimStart (text.dropWhile isNameChar) with
  | first :: _, '{' :: body =>
      if (first.isAlpha || first == '_') && opensBody body && endsWith '}' text then some name
      else none
  | _, _ => none

/-- Whether a text has the form of a block of the given type, letter case aside. -/
def hasType (type text : List Char) : Bool :=
  match typeName? text with
  | some name => sameIgnoringCase name (trim type)
  | none => false

/-- Whether a text is a block without a type name. -/
def isBare (text : List Char) : Bool :=
  match text with
  | '{' :: body => endsWith '}' text && opensBody body
  | _ => false

/-- Whether an entry is a random choice written as a block. -/
def isRandom (entry : List Char) : Bool :=
  hasType "random".toList entry

/-- The line that a text begins with. -/
def firstLine (s : List Char) : List Char :=
  s.takeWhile fun c => !isLineBreak c

/-- What follows the first line, starting with its line break. -/
def afterFirstLine (s : List Char) : List Char :=
  s.dropWhile fun c => !isLineBreak c

/-- Drops one line break in front: a carriage return, a line feed or the pair of them. -/
def dropLineBreak : List Char → List Char
  | '\r' :: '\n' :: rest => rest
  | '\r' :: rest => rest
  | '\n' :: rest => rest
  | s => s

/-- How many spaces and tabs a line begins with. -/
def indentation (line : List Char) : Nat :=
  (line.takeWhile isInlineBlank).length

/-- How many characters stand before `rest` in its line of `body`. -/
def column (body rest : List Char) : Nat :=
  ((body.take (body.length - rest.length)).reverse.takeWhile (· != '\n')).length

/-- Whether a line opens the next value of a block whose dashes stand at column `marker`. -/
def opensItem (marker : Nat) (line : List Char) : Bool :=
  indentation line ≤ marker && (line.dropWhile isInlineBlank).head? == some '-'

/-- Literal lines written from the left margin: the indentation that all lines share is removed,
blank lines are empty, and blank lines at the start and blanks at the end are dropped. -/
def dedent (lines : List (List Char)) : List Char :=
  let margin := ((lines.filter fun line => !isBlankText line).map indentation).min?.getD 0
  let shifted := lines.map fun line => if isBlankText line then [] else line.drop margin
  trimEnd (joinWith ['\n'] (shifted.dropWhile List.isEmpty))

theorem length_afterFirstLine (s : List Char) : (afterFirstLine s).length ≤ s.length :=
  (List.dropWhile_sublist _).length_le

theorem length_dropLineBreak (s : List Char) : (dropLineBreak s).length ≤ s.length := by
  fun_cases dropLineBreak s <;> grind

theorem length_trimStart (s : List Char) : (trimStart s).length ≤ s.length :=
  (List.dropWhile_sublist _).length_le

theorem length_skipInline (s : List Char) : (s.dropWhile isInlineBlank).length ≤ s.length :=
  (List.dropWhile_sublist _).length_le

/-- A line and its line break take up at least one character. -/
theorem length_nextLine (c : Char) (s : List Char) :
    (dropLineBreak (afterFirstLine (c :: s))).length < (c :: s).length := by
  by_cases h : isLineBreak c
  · have hc : c = '\n' ∨ c = '\r' := by simpa [isLineBreak] using h
    have ha : afterFirstLine (c :: s) = c :: s := by simp [afterFirstLine, h]
    rw [ha]
    rcases hc with rfl | rfl
    · simp [dropLineBreak]
    · cases s with
      | nil => simp [dropLineBreak]
      | cons d t =>
          by_cases hd : d = '\n'
          · subst hd
            show t.length < t.length + 1 + 1
            omega
          · simp [dropLineBreak, hd]
  · have ha : afterFirstLine (c :: s) = afterFirstLine s := by simp [afterFirstLine, h]
    rw [ha]
    have h1 := length_dropLineBreak (afterFirstLine s)
    have h2 := length_afterFirstLine s
    simp only [List.length_cons]
    omega

/-- The lines of a literal value whose dash stands at column `marker`, and the text from the next
dash on. -/
def literalLines (marker : Nat) : List Char → List (List Char) × List Char
  | [] => ([], [])
  | c :: s =>
      let line := firstLine (c :: s)
      if opensItem marker line then ([], c :: s)
      else
        let (lines, rest) := literalLines marker (dropLineBreak (afterFirstLine (c :: s)))
        (line :: lines, rest)
termination_by s => s.length
decreasing_by exact length_nextLine c s

theorem length_literalLines (marker : Nat) (s : List Char) :
    (literalLines marker s).2.length ≤ s.length := by
  fun_induction literalLines marker s with
  | case1 => simp
  | case2 c s line h => simp
  | case3 c s line h lines rest hrec ih =>
      have h1 := length_nextLine c s
      simp only [hrec] at ih ⊢
      omega

/-- The values of a block, read from `rest`, the part of its body that is still to come; `offset`
turns such a part into its position in the text. -/
def readItems (body : List Char) (offset : List Char → Nat) (rest : List Char) :
    Except ParseError (List (List Char)) :=
  match _hrest : trimStart rest with
  | [] => .ok []
  | c :: after =>
      if c ≠ '-' then .error (.unexpected c (offset (c :: after)) .dash)
      else
        match _hafter : after.dropWhile isInlineBlank with
        | '"' :: quoted =>
            match _hq : Quoted.decode quoted with
            | none => .error (.unterminatedQuote (offset ('"' :: quoted)))
            | some (value, next) => do
                let values ← readItems body offset next
                return value :: values
        | '|' :: bar =>
            match firstLine (bar.dropWhile isInlineBlank) with
            | found :: _ =>
                .error (.unexpected found (offset (bar.dropWhile isInlineBlank)) .lineBreakAfterBar)
            | [] =>
                match _hlit : literalLines (column body (c :: after))
                    (dropLineBreak (bar.dropWhile isInlineBlank)) with
                | (lines, next) => do
                    let values ← readItems body offset next
                    return dedent lines :: values
        | [] => .error (.unexpectedEnd .valueAfterDash)
        | '\n' :: _ => .error (.unexpectedEnd .valueAfterDash)
        | '\r' :: _ => .error (.unexpectedEnd .valueAfterDash)
        | bare => do
            let values ← readItems body offset (afterFirstLine bare)
            return trim (firstLine bare) :: values
termination_by rest.length
decreasing_by
  all_goals
    have hr := length_trimStart rest
    rw [_hrest, List.length_cons] at hr
    have ha := length_skipInline after
    rw [_hafter] at ha
  · have := Quoted.length_of_decode _hq
    simp only [List.length_cons] at ha
    omega
  · have h1 := length_literalLines (column body (c :: after))
      (dropLineBreak (bar.dropWhile isInlineBlank))
    have h2 := length_dropLineBreak (bar.dropWhile isInlineBlank)
    have h3 := length_skipInline bar
    rw [_hlit] at h1
    simp only [List.length_cons] at ha h1
    omega
  · have h1 := length_afterFirstLine bare
    omega

/-- The values of a block, with its type name or without, in order. -/
def values (text : List Char) : Except ParseError (List (List Char)) :=
  match splitFirst '{' text with
  | none => .error (.missingKeyword "\x7b")
  | some (before, inside) =>
      let opened := byteLength before
      match splitLast '}' inside with
      | none => .error (.unclosed '}' opened)
      | some (body, after) =>
          match trimStart after with
          | found :: rest =>
              .error (.unexpected found (offsetIn (byteLength text) (found :: rest)) .endOfBlock)
          | [] => readItems body (offsetIn (opened + 1 + byteLength body)) body

end MenuActions.Grammar.Block
