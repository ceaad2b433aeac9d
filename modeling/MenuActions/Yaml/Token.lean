import MenuActions.Yaml.Scalar

/-!
# Tokens of YAML text

The parts of a YAML text: scalars, the indicators of collections, and the beginnings and ends of
collections that only their indentation shows. A text in front of a colon becomes a key when the
colon is met.
-/

namespace MenuActions.Yaml

/-- A part of a text. -/
inductive Token
  | directive (name : String) (parameters : List String)
  | documentStart
  | documentEnd
  | blockSequenceStart
  | blockMappingStart
  | blockEnd
  | flowSequenceStart
  | flowSequenceEnd
  | flowMappingStart
  | flowMappingEnd
  | blockEntry
  | flowEntry
  | key
  | value
  | alias (name : String)
  | anchor (name : String)
  | tag (handle suffix : String)
  | scalar (text : String) (style : Style)
  | streamEnd
  deriving DecidableEq, Repr

/-- A token that turns into a key if a colon follows it in the same line. -/
structure KeyCandidate where
  /-- How many tokens stand before it. -/
  position : Nat
  index : Nat
  line : Nat
  column : Nat
  /-- Whether nothing but a key can stand here. -/
  required : Bool
  deriving DecidableEq, Repr

/-- A scan in progress. -/
structure Scanner where
  cursor : Cursor
  /-- The tokens so far, in order. -/
  tokens : List Token
  /-- The column of the innermost block collection, or -1. -/
  indent : Int
  /-- The columns of the block collections around it. -/
  indents : List Int
  /-- The candidate on the present flow level. -/
  candidate : Option KeyCandidate
  /-- The candidates on the flow levels around it. -/
  outer : List (Option KeyCandidate)
  /-- Whether a key may begin here. -/
  keyAllowed : Bool

namespace Scanner

/-- The beginning of a scan. -/
def start (text : List Char) : Scanner :=
  ⟨Cursor.start text, [], -1, [], none, [], true⟩

/-- Whether the scan is inside a flow collection. -/
def inFlow (s : Scanner) : Bool :=
  !s.outer.isEmpty

/-- The column of the present position. -/
def column (s : Scanner) : Int :=
  s.cursor.column

/-- Adds a token. -/
def add (s : Scanner) (token : Token) : Scanner :=
  { s with tokens := s.tokens ++ [token] }

/-- Adds a token in front of the tokens from some position on. -/
def insert (s : Scanner) (position : Nat) (token : Token) : Scanner :=
  { s with tokens := s.tokens.take position ++ token :: s.tokens.drop position }

/-- Gives up the candidate; if only a key could stand there, its colon is missing. -/
def dropCandidate (s : Scanner) : Except Fault Scanner :=
  match s.candidate with
  | some candidate =>
      if candidate.required then .error .missingColon else .ok { s with candidate := none }
  | none => .ok s

/-- Makes the next token a candidate, if a key may begin here. -/
def saveCandidate (s : Scanner) : Except Fault Scanner :=
  if s.keyAllowed then do
    let s ← s.dropCandidate
    let c := s.cursor
    return { s with
      candidate := some ⟨s.tokens.length, c.index, c.line, c.column,
        !s.inFlow && s.indent == s.column⟩ }
  else .ok s

/-- Whether a candidate is too far behind: a key stays in one line and under 1024 characters. -/
def isStale (c : Cursor) (candidate : KeyCandidate) : Bool :=
  candidate.line < c.line || candidate.index + 1024 < c.index

/-- Gives up the candidates of all levels that are too far behind. -/
def dropStale (s : Scanner) : Except Fault Scanner :=
  let stale := fun candidate : Option KeyCandidate => candidate.any (isStale s.cursor)
  if (s.candidate :: s.outer).any fun candidate =>
      stale candidate && candidate.any KeyCandidate.required then
    .error .missingColon
  else
    let keep := fun candidate : Option KeyCandidate =>
      if stale candidate then none else candidate
    .ok { s with candidate := keep s.candidate, outer := s.outer.map keep }

/-- Opens a block collection at a column that lies further in than the present one; its token goes
in front of the tokens from `position` on. -/
def openBlock (s : Scanner) (column : Int) (position : Nat) (token : Token) : Scanner :=
  if !s.inFlow && s.indent < column then
    { s.insert position token with indent := column, indents := s.indent :: s.indents }
  else s

/-- Closes block collections while `indent` is further in than `column`; `fuel` bounds their number.
-/
def closeFrom (column : Int) : (fuel : Nat) → Scanner → Scanner
  | 0, s => s
  | fuel + 1, s =>
      if column < s.indent then
        closeFrom column fuel
          { s.add .blockEnd with indent := s.indents.headD (-1), indents := s.indents.tail }
      else s

/-- Closes the block collections that lie further in than a column. -/
def closeBlocks (s : Scanner) (column : Int) : Scanner :=
  if s.inFlow then s else closeFrom column (s.indents.length + 1) s

/-- Moves on. -/
def moveTo (s : Scanner) (cursor : Cursor) : Scanner :=
  { s with cursor := cursor }

/-- Skips blanks, comments and line breaks; `fuel` bounds the number of steps. -/
def skipToToken : (fuel : Nat) → Scanner → Scanner
  | 0, s => s
  | fuel + 1, s =>
      let (_, c) := s.cursor.skipWhile fun char =>
        char == ' ' || (char == '\t' && (s.inFlow || !s.keyAllowed))
      let (_, c) := if c.sees '#' 0 then c.skipWhile fun char => !isBreak char else ([], c)
      if c.atBreak then
        skipToToken fuel
          { s.moveTo c.skipLine.2 with keyAllowed := s.keyAllowed || !s.inFlow }
      else s.moveTo c

/-- A token of some characters at which a document begins or ends. -/
def documentMarker (s : Scanner) (token : Token) : Except Fault Scanner := do
  let s ← (s.closeBlocks (-1)).dropCandidate
  return ({ s with keyAllowed := false }.add token).moveTo (s.cursor.skipMany 3)

/-- The words of a directive's line up to its end or a comment. -/
def directiveWords (line : List Char) : List String :=
  let words := (line.foldr
    (fun char (words : List (List Char)) =>
      if isBlank char then [] :: words
      else match words with
        | [] => [[char]]
        | word :: words => (char :: word) :: words)
    [[]]).filter fun word => !word.isEmpty
  (words.takeWhile fun word => word.head? != some '#').map String.ofList

/-- A character of a tag behind its handle. -/
def isTagChar (c : Char) : Bool :=
  isWordChar c || [';', '/', '?', ':', '@', '&', '=', '+', '$', '.', '!', '~', '*', singleQuote,
    '(', ')', '%'].contains c

/-- A character of a tag that is written out. -/
def isUriChar (c : Char) : Bool :=
  isTagChar c || c == ',' || c == '[' || c == ']'

/-- Whether a text can be the handle of tags: an exclamation mark, or two with a word between. -/
def isHandle (text : List Char) : Bool :=
  text == ['!'] ||
    (1 < text.length && text.head? == some '!' && text.getLast? == some '!' &&
      (text.drop 1).dropLast.all isWordChar)

/-- A directive's line. -/
def directive (s : Scanner) : Except Fault Scanner := do
  let s ← (s.closeBlocks (-1)).dropCandidate
  let (line, c) := s.cursor.skip.skipWhile fun char => !isBreak char
  match directiveWords line with
  | "YAML" :: [version] =>
      return ({ s with keyAllowed := false }.add (.directive "YAML" [version])).moveTo c
  | "TAG" :: [handle, start] =>
      if isHandle handle.toList && start.toList.all isUriChar then
        return ({ s with keyAllowed := false }.add (.directive "TAG" [handle, start])).moveTo c
      else .error .badDirective
  | _ => .error .badDirective

/-- The beginning of a flow collection. -/
def flowStart (s : Scanner) (token : Token) : Except Fault Scanner := do
  let s ← s.saveCandidate
  return { s.add token with
    candidate := none, outer := s.candidate :: s.outer, keyAllowed := true
    cursor := s.cursor.skip }

/-- The end of a flow collection. -/
def flowEnd (s : Scanner) (token : Token) : Except Fault Scanner := do
  let s ← s.dropCandidate
  return { s.add token with
    candidate := s.outer.headD none, outer := s.outer.tail, keyAllowed := false
    cursor := s.cursor.skip }

/-- The comma between items of a flow collection. -/
def flowEntry (s : Scanner) : Except Fault Scanner := do
  let s ← s.dropCandidate
  return { s.add .flowEntry with keyAllowed := true, cursor := s.cursor.skip }

/-- The dash of an item of a block sequence. -/
def blockEntry (s : Scanner) : Except Fault Scanner :=
  if !s.inFlow && !s.keyAllowed then .error .misplacedEntry
  else do
    let s ← (s.openBlock s.column s.tokens.length .blockSequenceStart).dropCandidate
    return { s.add .blockEntry with keyAllowed := true, cursor := s.cursor.skip }

/-- The question mark in front of a key. -/
def explicitKey (s : Scanner) : Except Fault Scanner :=
  if !s.inFlow && !s.keyAllowed then .error .misplacedKey
  else do
    let s ← (s.openBlock s.column s.tokens.length .blockMappingStart).dropCandidate
    return { s.add .key with keyAllowed := !s.inFlow, cursor := s.cursor.skip }

/-- The colon in front of a value. A candidate becomes the key. -/
def valueMark (s : Scanner) : Except Fault Scanner :=
  match s.candidate with
  | some candidate =>
      let s := (s.insert candidate.position .key).openBlock candidate.column candidate.position
        .blockMappingStart
      .ok { s.add .value with candidate := none, keyAllowed := false, cursor := s.cursor.skip }
  | none =>
      if !s.inFlow && !s.keyAllowed then .error .misplacedValue
      else
        let s := s.openBlock s.column s.tokens.length .blockMappingStart
        .ok { s.add .value with keyAllowed := !s.inFlow, cursor := s.cursor.skip }

/-- An anchor or an alias. -/
def anchorOrAlias (s : Scanner) (token : String → Token) : Except Fault Scanner := do
  let s ← s.saveCandidate
  let (name, c) := s.cursor.skip.skipWhile isWordChar
  let closed := c.endsWord 0 || (c.ahead 0).any fun char =>
    char == '?' || char == ':' || char == ',' || char == ']' || char == '}' || char == '%' ||
      char == '@' || char == (Char.ofNat 0x60)
  if name.isEmpty || !closed then .error .badAnchor
  else return { s.add (token (String.ofList name)) with keyAllowed := false, cursor := c }

/-- The handle and suffix of a tag, and the position behind it. -/
def tagParts (c : Cursor) : Except Fault ((String × String) × Cursor) :=
  if c.sees '<' 1 then
    let (uri, c) := (c.skipMany 2).skipWhile isUriChar
    if uri.isEmpty || !c.sees '>' 0 then .error .badTag
    else .ok (("", String.ofList uri), c.skip)
  else
    let (word, after) := c.skip.skipWhile isWordChar
    if after.sees '!' 0 then
      let (suffix, c) := after.skip.skipWhile isTagChar
      if suffix.isEmpty then .error .badTag
      else .ok ((String.ofList ('!' :: word ++ ['!']), String.ofList suffix), c)
    else
      let (suffix, c) := c.skip.skipWhile isTagChar
      .ok (("!", String.ofList suffix), c)

/-- A tag. -/
def tag (s : Scanner) : Except Fault Scanner := do
  let s ← s.saveCandidate
  let ((handle, suffix), c) ← tagParts s.cursor
  if !c.endsWord 0 && !(s.inFlow && c.sees ',' 0) then .error .badTag
  else return { s.add (.tag handle suffix) with keyAllowed := false, cursor := c }

/-- A block value. -/
def blockScalar (s : Scanner) (literal : Bool) : Except Fault Scanner := do
  let s ← s.dropCandidate
  let (text, c) ← scanBlock literal s.indent s.cursor
  let style := if literal then Style.literal else .folded
  return { s.add (.scalar (String.ofList text) style) with keyAllowed := true, cursor := c }

/-- A quoted value. -/
def quotedScalar (s : Scanner) (single : Bool) : Except Fault Scanner := do
  let s ← s.saveCandidate
  let (text, c) ← scanQuoted single s.cursor
  return { s.add (.scalar (String.ofList text) .quoted) with keyAllowed := false, cursor := c }

/-- A plain value. -/
def plainScalar (s : Scanner) : Except Fault Scanner := do
  let s ← s.saveCandidate
  let ((text, crossed), c) ← scanPlain s.inFlow (s.indent + 1).toNat s.cursor
  return { s.add (.scalar (String.ofList text) .plain) with keyAllowed := crossed, cursor := c }

/-- Whether a plain value may begin with a character that no other token begins with. -/
def beginsPlain (char : Char) : Bool :=
  !(isBlank char || [',', '[', ']', '{', '}', '#', '&', '*', '!', '|', '>', singleQuote, '"', '%',
    '@', Char.ofNat 0x60].contains char)

/-- The end of the text. -/
def finish (s : Scanner) : Except Fault Scanner := do
  let s ← (s.closeBlocks (-1)).dropCandidate
  return s.add .streamEnd

/-- Reads the next token, which begins with a character at the present position. -/
def readToken (s : Scanner) (char : Char) : Except Fault Scanner :=
  let c := s.cursor
  if c.column == 0 && char == '%' then s.directive
  else if c.atMarker '-' then s.documentMarker .documentStart
  else if c.atMarker '.' then s.documentMarker .documentEnd
  else if char == '[' then s.flowStart .flowSequenceStart
  else if char == '{' then s.flowStart .flowMappingStart
  else if char == ']' then s.flowEnd .flowSequenceEnd
  else if char == '}' then s.flowEnd .flowMappingEnd
  else if char == ',' then s.flowEntry
  else if char == '-' && c.endsWord 1 then s.blockEntry
  else if char == '?' && (s.inFlow || c.endsWord 1) then s.explicitKey
  else if char == ':' && (s.inFlow || c.endsWord 1) then s.valueMark
  else if char == '*' then s.anchorOrAlias .alias
  else if char == '&' then s.anchorOrAlias .anchor
  else if char == '!' then s.tag
  else if char == '|' && !s.inFlow then s.blockScalar true
  else if char == '>' && !s.inFlow then s.blockScalar false
  else if char == singleQuote then s.quotedScalar true
  else if char == '"' then s.quotedScalar false
  else if beginsPlain char then s.plainScalar
  else .error .noToken

/-- Reads tokens to the end; `fuel` bounds their number. -/
def readAll : (fuel : Nat) → Scanner → Except Fault Scanner
  | 0, _ => .error .noToken
  | fuel + 1, s => do
      let s ← (s.skipToToken (s.cursor.rest.length + 1)).dropStale
      let s := s.closeBlocks s.column
      match s.cursor.ahead 0 with
      | none => s.finish
      | some char =>
          let s ← s.readToken char
          readAll fuel s

end Scanner

/-- The tokens of a text. A byte order mark in front is no part of it. -/
def tokens (text : List Char) : Except Fault (List Token) :=
  let text := if text.head?.any (·.toNat == 0xFEFF) then text.tail else text
  if text.all isAllowed then
    (Scanner.readAll (text.length + 1) (Scanner.start text)).map Scanner.tokens
  else .error .badCharacter

end MenuActions.Yaml
