import MenuActions.Yaml.Cursor

/-!
# Scalars in YAML text

The ways to write a text value: plain, between single or double quotes, and as an indented block
whose line breaks are kept or folded.
-/

namespace MenuActions.Yaml

/-- The way in which a scalar is written. -/
inductive Style
  | plain
  | quoted
  | literal
  | folded
  deriving DecidableEq, Repr

/-- The blanks and line breaks between two parts of a value. -/
structure Gap where
  blanks : List Char
  firstBreak : List Char
  moreBreaks : List Char
  crossesLine : Bool

namespace Gap

/-- Nothing between two parts. -/
def none : Gap := ⟨[], [], [], false⟩

/-- What a gap stands for: its blanks, or a folded line break. -/
def text (gap : Gap) : List Char :=
  if gap.crossesLine then
    if gap.firstBreak.head? == some '\n' then
      if gap.moreBreaks.isEmpty then [' '] else gap.moreBreaks
    else gap.firstBreak ++ gap.moreBreaks
  else gap.blanks

/-- Reads a gap. A tab that stands where at least `indent` spaces belong is refused; `fuel` bounds
the number of characters. -/
def read (indent : Option Nat) : (fuel : Nat) → Gap → Cursor → Except Fault (Gap × Cursor)
  | 0, gap, c => .ok (gap, c)
  | fuel + 1, gap, c =>
      match c.ahead 0 with
      | Option.none => .ok (gap, c)
      | some char =>
          if isBlank char then
            if gap.crossesLine then
              if char == '\t' && indent.any (c.column < ·) then .error .tabInIndentation
              else read indent fuel gap c.skip
            else read indent fuel { gap with blanks := gap.blanks ++ [char] } c.skip
          else if isBreak char then
            let (lineBreak, next) := c.skipLine
            if gap.crossesLine then
              read indent fuel { gap with moreBreaks := gap.moreBreaks ++ lineBreak } next
            else
              read indent fuel ⟨[], lineBreak, gap.moreBreaks, true⟩ next
          else .ok (gap, c)

end Gap

/-- The indicators of flow collections. -/
def isFlowIndicator (c : Char) : Bool :=
  c == ',' || c == '[' || c == ']' || c == '{' || c == '}'

/-- Reads the characters of a plain value up to a blank or an indicator that ends it. -/
def plainWord (inFlow : Bool) :
    (fuel : Nat) → List Char → Cursor → Except Fault (List Char × Cursor)
  | 0, word, c => .ok (word, c)
  | fuel + 1, word, c =>
      match c.ahead 0 with
      | none => .ok (word, c)
      | some char =>
          if isBlank char || isBreak char then .ok (word, c)
          else if inFlow && char == ':' &&
              (c.ahead 1).any fun next => isFlowIndicator next || next == '?' then
            .error .unexpectedToken
          else if (char == ':' && c.endsWord 1) || (inFlow && isFlowIndicator char) then
            .ok (word, c)
          else plainWord inFlow fuel (word ++ [char]) c.skip

/-- Reads the words of a plain value, which in a block must stand at least `indent` columns in. The
flag tells whether the value was followed by a line break. -/
def plainWords (inFlow : Bool) (indent : Nat) :
    (fuel : Nat) → List Char → Gap → Cursor → Except Fault ((List Char × Bool) × Cursor)
  | 0, value, gap, c => .ok ((value, gap.crossesLine), c)
  | fuel + 1, value, gap, c =>
      if c.atDocumentMarker || c.sees '#' 0 then .ok ((value, gap.crossesLine), c)
      else do
        let (word, c) ← plainWord inFlow c.rest.length [] c
        let (value, gap) :=
          if word.isEmpty then (value, gap) else (value ++ gap.text ++ word, .none)
        if c.atBlank || c.atBreak then
          let (gap, c) ← gap.read (some indent) c.rest.length c
          if !inFlow && c.column < indent then return ((value, gap.crossesLine), c)
          else plainWords inFlow indent fuel value gap c
        else return ((value, gap.crossesLine), c)

/-- Reads a plain value; the flag tells whether it was followed by a line break. -/
def scanPlain (inFlow : Bool) (indent : Nat) (c : Cursor) :
    Except Fault ((List Char × Bool) × Cursor) :=
  plainWords inFlow indent (c.rest.length + 1) [] .none c

/-- The value of a hexadecimal digit. -/
def hexDigit? (c : Char) : Option Nat :=
  if c.isDigit then some (c.toNat - '0'.toNat)
  else
    let lowered := c.toLower
    if 'a' ≤ lowered ∧ lowered ≤ 'f' then some (lowered.toNat - 'a'.toNat + 10) else none

/-- The number that some hexadecimal digits denote. -/
def hexNumber? (digits : List Char) : Option Nat :=
  digits.foldl (fun n c => n.bind fun n => (hexDigit? c).map fun d => 16 * n + d) (some 0)

/-- The character of an escape with a given number of hexadecimal digits. -/
def escapeByNumber (digits : Nat) (c : Cursor) : Except Fault (Char × Cursor) :=
  let text := c.rest.take digits
  match hexNumber? text with
  | some n =>
      if text.length = digits ∧ n.isValidChar then .ok (Char.ofNat n, c.skipMany digits)
      else .error .badEscape
  | none => .error .badEscape

/-- The character of an escape; the position is behind its backslash. -/
def scanEscape (c : Cursor) : Except Fault (Char × Cursor) :=
  match c.ahead 0 with
  | some '0' => .ok (Char.ofNat 0, c.skip)
  | some 'a' => .ok (Char.ofNat 7, c.skip)
  | some 'b' => .ok (Char.ofNat 8, c.skip)
  | some 't' => .ok ('\t', c.skip)
  | some '\t' => .ok ('\t', c.skip)
  | some 'n' => .ok ('\n', c.skip)
  | some 'v' => .ok (Char.ofNat 11, c.skip)
  | some 'f' => .ok (Char.ofNat 12, c.skip)
  | some 'r' => .ok ('\r', c.skip)
  | some 'e' => .ok (Char.ofNat 27, c.skip)
  | some ' ' => .ok (' ', c.skip)
  | some '"' => .ok ('"', c.skip)
  | some '/' => .ok ('/', c.skip)
  | some '\\' => .ok ('\\', c.skip)
  | some 'N' => .ok (Char.ofNat 0x85, c.skip)
  | some '_' => .ok (Char.ofNat 0xA0, c.skip)
  | some 'L' => .ok (Char.ofNat 0x2028, c.skip)
  | some 'P' => .ok (Char.ofNat 0x2029, c.skip)
  | some 'x' => escapeByNumber 2 c.skip
  | some 'u' => escapeByNumber 4 c.skip
  | some 'U' => escapeByNumber 8 c.skip
  | _ => .error .badEscape

/-- The quote of a single-quoted value. -/
def singleQuote : Char := '\x27'

/-- Reads the characters of a quoted value up to a blank or its closing quote. The flag tells
whether an escaped line break was passed last. -/
def quotedWord (single : Bool) :
    (fuel : Nat) → List Char → Cursor → Except Fault ((List Char × Bool) × Cursor)
  | 0, word, c => .ok ((word, false), c)
  | fuel + 1, word, c =>
      match c.ahead 0 with
      | none => .ok ((word, false), c)
      | some char =>
          if isBlank char || isBreak char then .ok ((word, false), c)
          else if single && char == singleQuote then
            if c.sees singleQuote 1 then
              quotedWord single fuel (word ++ [singleQuote]) (c.skipMany 2)
            else .ok ((word, false), c)
          else if !single && char == '"' then .ok ((word, false), c)
          else if !single && char == '\\' then
            if (c.ahead 1).any isBreak then .ok ((word, true), c.skip.skipLine.2)
            else do
              let (escaped, c) ← scanEscape c.skip
              quotedWord single fuel (word ++ [escaped]) c
          else quotedWord single fuel (word ++ [char]) c.skip

/-- Reads the words of a quoted value and its closing quote. -/
def quotedWords (single : Bool) :
    (fuel : Nat) → List Char → Cursor → Except Fault (List Char × Cursor)
  | 0, _, _ => .error .unexpectedEnd
  | fuel + 1, value, c =>
      if c.atDocumentMarker then .error .unexpectedMarker
      else if c.atEnd then .error .unexpectedEnd
      else do
        let ((word, broken), c) ← quotedWord single c.rest.length [] c
        if !broken && c.sees (if single then singleQuote else '"') 0 then
          return (value ++ word, c.skip)
        else
          let (gap, c) ← Gap.read none c.rest.length { Gap.none with crossesLine := broken } c
          quotedWords single fuel (value ++ word ++ gap.text) c

/-- Reads a quoted value; the position is on its opening quote. -/
def scanQuoted (single : Bool) (c : Cursor) : Except Fault (List Char × Cursor) :=
  quotedWords single (c.rest.length + 1) [] c.skip

/-- What becomes of the line breaks at the end of a block value. -/
inductive Chomping
  | strip
  | clip
  | keep
  deriving DecidableEq, Repr

/-- The chomping that an indicator asks for. -/
def chompingOf? : Option Char → Option Chomping
  | some '+' => some .keep
  | some '-' => some .strip
  | _ => none

/-- The indentation that an indicator asks for. -/
def incrementOf? (c : Option Char) : Option Nat :=
  (c.filter Char.isDigit).map fun char => char.toNat - '0'.toNat

/-- Reads the indicators behind the bar or angle of a block value, in either order. -/
def blockIndicators (c : Cursor) : Except Fault ((Chomping × Option Nat) × Cursor) :=
  let result : (Chomping × Option Nat) × Cursor :=
    match chompingOf? (c.ahead 0), incrementOf? (c.ahead 0) with
    | some chomping, _ =>
        match incrementOf? (c.ahead 1) with
        | some n => ((chomping, some n), c.skipMany 2)
        | none => ((chomping, none), c.skip)
    | none, some n =>
        match chompingOf? (c.ahead 1) with
        | some chomping => ((chomping, some n), c.skipMany 2)
        | none => ((.clip, some n), c.skip)
    | none, none => ((.clip, none), c)
  if result.1.2 = some 0 then .error .badBlockHeader else .ok result

/-- Reads the empty lines of a block value and the indentation of the line after them; `indent` is
zero while it is not known. Gives the line breaks and the deepest column reached. -/
def blockBreaks (indent : Nat) :
    (fuel : Nat) → List Char → Nat → Cursor → Except Fault ((List Char × Nat) × Cursor)
  | 0, breaks, deepest, c => .ok ((breaks, deepest), c)
  | fuel + 1, breaks, deepest, c =>
      let spaces := (c.rest.takeWhile (· == ' ')).length
      let c := c.skipMany (if indent = 0 then spaces else min spaces (indent - c.column))
      let deepest := max deepest c.column
      if (indent = 0 ∨ c.column < indent) ∧ c.sees '\t' 0 then .error .tabInIndentation
      else if c.atBreak then
        let (lineBreak, c) := c.skipLine
        blockBreaks indent fuel (breaks ++ lineBreak) deepest c
      else .ok ((breaks, deepest), c)

/-- The text of a block value so far: what was read, the break that ends its last line, and the
empty lines after that. -/
structure BlockText where
  value : List Char
  lastBreak : List Char
  moreBreaks : List Char
  startsBlank : Bool

/-- Reads the lines of a block value that stand `indent` columns in. -/
def blockLines (literal : Bool) (indent : Nat) :
    (fuel : Nat) → BlockText → Cursor → Except Fault (BlockText × Cursor)
  | 0, text, c => .ok (text, c)
  | fuel + 1, text, c =>
      if c.column ≠ indent ∨ c.atEnd then .ok (text, c)
      else do
        let blank := c.atBlank
        let folds := !literal && text.lastBreak.head? == some '\n' && !text.startsBlank && !blank
        let joint :=
          if folds then if text.moreBreaks.isEmpty then [' '] else []
          else text.lastBreak
        let (line, c) := c.skipWhile fun char => !isBreak char
        let (lineBreak, c) := c.skipLine
        let ((breaks, _), c) ← blockBreaks indent c.rest.length.succ [] 0 c
        blockLines literal indent fuel
          ⟨text.value ++ joint ++ text.moreBreaks ++ line, lineBreak, breaks, blank⟩ c

/-- Reads a block value; the position is on its bar or angle. `parent` is the indentation of the
collection that it stands in. -/
def scanBlock (literal : Bool) (parent : Int) (c : Cursor) : Except Fault (List Char × Cursor) := do
  let ((chomping, increment), c) ← blockIndicators c.skip
  let (_, c) := c.skipWhile isBlank
  let (_, c) := if c.sees '#' 0 then c.skipWhile fun char => !isBreak char else ([], c)
  if !c.endsLine then .error .badBlockHeader
  else
    let (_, c) := c.skipLine
    let known := match increment with
      | some n => (max parent 0).toNat + n
      | none => 0
    let ((breaks, deepest), c) ← blockBreaks known c.rest.length.succ [] 0 c
    let indent := if known = 0 then max (max deepest (parent + 1).toNat) 1 else known
    let (text, c) ← blockLines literal indent c.rest.length.succ ⟨[], [], breaks, false⟩ c
    let tail := match chomping with
      | .strip => []
      | .clip => text.lastBreak
      | .keep => text.lastBreak ++ text.moreBreaks
    return (text.value ++ tail, c)

end MenuActions.Yaml
