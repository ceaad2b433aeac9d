import MenuActions.Yaml.Token

/-!
# Values of YAML text

The tree of scalars, sequences and mappings that a YAML text denotes. An alias stands for the value
of the anchor before it.
-/

namespace MenuActions.Yaml

/-- A value as it is written. -/
inductive Node
  | scalar (tag : Option String) (text : String) (style : Style)
  | sequence (tag : Option String) (items : List Node)
  | mapping (tag : Option String) (pairs : List (Node × Node))
  deriving Inhabited

/-- The value that stands where nothing is written. -/
def Node.nothing : Node :=
  .scalar none "" .plain

/-- The tokens to come, the values of the anchors so far, and what the handles of tags stand for. An
anchor whose value is not complete has none. -/
structure Input where
  tokens : List Token
  anchors : List (String × Option Node)
  handles : List (String × String)

namespace Input

/-- The next token. -/
def peek (input : Input) : Token :=
  input.tokens.headD .streamEnd

/-- The input behind the next token. -/
def drop (input : Input) : Input :=
  { input with tokens := input.tokens.tail }

/-- What the handles of tags stand for when nothing else is said. -/
def standardHandles : List (String × String) :=
  [("!", "!"), ("!!", "tag:yaml.org,2002:"), ("", "")]

/-- The tag that a handle and a suffix stand for. -/
def tagOf (input : Input) (handle suffix : String) : Except Fault String :=
  match input.handles.find? fun entry => entry.1 == handle with
  | some entry => .ok (entry.2 ++ suffix)
  | none => .error .badTag

/-- Gives an anchor a value. -/
def setAnchor (input : Input) (name : Option String) (node : Option Node) : Input :=
  match name with
  | some name => { input with anchors := (name, node) :: input.anchors }
  | none => input

/-- The value of the anchor that an alias names. -/
def anchored (input : Input) (name : String) : Except Fault Node :=
  match input.anchors.find? fun entry => entry.1 == name with
  | some (_, some node) => .ok node
  | _ => .error .unknownAnchor

/-- The anchor and the tag in front of a value, in either order. -/
def properties (input : Input) : Except Fault ((Option String × Option String) × Input) :=
  match input.tokens with
  | .anchor name :: .tag handle suffix :: rest =>
      (input.tagOf handle suffix).map fun tag =>
        ((some name, some tag), { input with tokens := rest })
  | .tag handle suffix :: .anchor name :: rest =>
      (input.tagOf handle suffix).map fun tag =>
        ((some name, some tag), { input with tokens := rest })
  | .anchor name :: rest => .ok ((some name, none), { input with tokens := rest })
  | .tag handle suffix :: rest =>
      (input.tagOf handle suffix).map fun tag => ((none, some tag), { input with tokens := rest })
  | _ => .ok ((none, none), input)

end Input

namespace Node

/-- The positions at which a value may begin. -/
inductive Place
  /-- In a flow collection. -/
  | flow
  /-- In a block collection. -/
  | block
  /-- In a block mapping, where a sequence need not be indented. -/
  | mapping
  deriving DecidableEq, Repr

/-- Whether no value stands in front of a token of a block mapping. -/
def endsMappingPart : Token → Bool
  | .key => true
  | .value => true
  | .blockEnd => true
  | _ => false

/-- Whether no value stands in front of a token of a flow collection with some end. -/
def endsFlowPart (close : Token) (token : Token) : Bool :=
  token == .value || token == .flowEntry || token == close

mutual

/-- Reads a value. -/
def read (place : Place) : (fuel : Nat) → Input → Except Fault (Node × Input)
  | 0, _ => .error .unexpectedToken
  | fuel + 1, input =>
      match input.peek with
      | .alias name => (input.anchored name).map fun node => (node, input.drop)
      | _ => do
          let ((name, tag), input) ← input.properties
          let opened := input.setAnchor name none
          let (node, input) ← readContent place tag (name.isSome || tag.isSome) fuel opened
          return (node, input.setAnchor name (some node))

/-- Reads a value behind its anchor and tag; with one of them in front, the value may be missing. -/
def readContent (place : Place) (tag : Option String) (marked : Bool) :
    (fuel : Nat) → Input → Except Fault (Node × Input)
  | 0, _ => .error .unexpectedToken
  | fuel + 1, input =>
      match input.peek with
      | .blockEntry =>
          if place = .mapping then do
            let (items, input) ← readIndentless fuel input
            return (.sequence tag items, input)
          else if marked then .ok (.scalar tag "" .plain, input)
          else .error .unexpectedToken
      | .scalar text style => .ok (.scalar (tag.filter (· != "!")) text style, input.drop)
      | .flowSequenceStart => do
          let (items, input) ← readFlowItems true fuel input.drop
          return (.sequence tag items, input)
      | .flowMappingStart => do
          let (pairs, input) ← readFlowPairs true fuel input.drop
          return (.mapping tag pairs, input)
      | .blockSequenceStart =>
          if place = .flow then
            if marked then .ok (.scalar tag "" .plain, input) else .error .unexpectedToken
          else do
            let (items, input) ← readItems fuel input.drop
            return (.sequence tag items, input)
      | .blockMappingStart =>
          if place = .flow then
            if marked then .ok (.scalar tag "" .plain, input) else .error .unexpectedToken
          else do
            let (pairs, input) ← readPairs fuel input.drop
            return (.mapping tag pairs, input)
      | _ => if marked then .ok (.scalar tag "" .plain, input) else .error .unexpectedToken

/-- Reads the items of a block sequence up to its end. -/
def readItems : (fuel : Nat) → Input → Except Fault (List Node × Input)
  | 0, _ => .error .unexpectedToken
  | fuel + 1, input =>
      match input.peek with
      | .blockEntry => do
          let input := input.drop
          let (item, input) ←
            if input.peek = .blockEntry ∨ input.peek = .blockEnd then .ok (nothing, input)
            else read .block fuel input
          let (items, input) ← readItems fuel input
          return (item :: items, input)
      | .blockEnd => .ok ([], input.drop)
      | _ => .error .unexpectedToken

/-- Reads the items of a sequence that stands in a mapping without indentation. -/
def readIndentless : (fuel : Nat) → Input → Except Fault (List Node × Input)
  | 0, _ => .error .unexpectedToken
  | fuel + 1, input =>
      match input.peek with
      | .blockEntry => do
          let input := input.drop
          let (item, input) ←
            if input.peek = .blockEntry ∨ endsMappingPart input.peek then .ok (nothing, input)
            else read .block fuel input
          let (items, input) ← readIndentless fuel input
          return (item :: items, input)
      | _ => .ok ([], input)

/-- Reads the keys and values of a block mapping up to its end. -/
def readPairs : (fuel : Nat) → Input → Except Fault (List (Node × Node) × Input)
  | 0, _ => .error .unexpectedToken
  | fuel + 1, input =>
      match input.peek with
      | .key => do
          let input := input.drop
          let (key, input) ←
            if endsMappingPart input.peek then .ok (nothing, input) else read .mapping fuel input
          let (value, input) ←
            if input.peek = .value then
              if endsMappingPart input.drop.peek then .ok (nothing, input.drop)
              else read .mapping fuel input.drop
            else .ok (nothing, input)
          let (pairs, input) ← readPairs fuel input
          return ((key, value) :: pairs, input)
      | .blockEnd => .ok ([], input.drop)
      | _ => .error .unexpectedToken

/-- Reads the value behind a key of a flow collection with some end, if there is one. -/
def readFlowValue (close : Token) : (fuel : Nat) → Input → Except Fault (Node × Input)
  | 0, _ => .error .unexpectedToken
  | fuel + 1, input =>
      if input.peek = .value then
        if input.drop.peek = .flowEntry ∨ input.drop.peek = close then .ok (nothing, input.drop)
        else read .flow fuel input.drop
      else .ok (nothing, input)

/-- Reads the items of a flow sequence up to its end. An item may be a mapping of one key. -/
def readFlowItems (first : Bool) : (fuel : Nat) → Input → Except Fault (List Node × Input)
  | 0, _ => .error .unexpectedToken
  | fuel + 1, input =>
      if input.peek = .flowSequenceEnd then .ok ([], input.drop)
      else if !first && input.peek ≠ .flowEntry then .error .unexpectedToken
      else
        let input := if first then input else input.drop
        if input.peek = .flowSequenceEnd then .ok ([], input.drop)
        else do
          let (item, input) ←
            if input.peek = .key then do
              let input := input.drop
              let (key, input) ←
                if endsFlowPart .flowSequenceEnd input.peek then .ok (nothing, input)
                else read .flow fuel input
              let (value, input) ← readFlowValue .flowSequenceEnd fuel input
              pure (Node.mapping none [(key, value)], input)
            else read .flow fuel input
          let (items, input) ← readFlowItems false fuel input
          return (item :: items, input)

/-- Reads the keys and values of a flow mapping up to its end. A value may be missing. -/
def readFlowPairs (first : Bool) : (fuel : Nat) → Input → Except Fault (List (Node × Node) × Input)
  | 0, _ => .error .unexpectedToken
  | fuel + 1, input =>
      if input.peek = .flowMappingEnd then .ok ([], input.drop)
      else if !first && input.peek ≠ .flowEntry then .error .unexpectedToken
      else
        let input := if first then input else input.drop
        if input.peek = .flowMappingEnd then .ok ([], input.drop)
        else do
          let (pair, input) ←
            if input.peek = .key then do
              let input := input.drop
              let (key, input) ←
                if endsFlowPart .flowMappingEnd input.peek then .ok (nothing, input)
                else read .flow fuel input
              let (value, input) ← readFlowValue .flowMappingEnd fuel input
              pure ((key, value), input)
            else do
              let (key, input) ← read .flow fuel input
              pure ((key, nothing), input)
          let (pairs, input) ← readFlowPairs false fuel input
          return (pair :: pairs, input)

end

/-- Reads the directives in front of a document. The version is given once at most, and so is what a
handle stands for. -/
def readDirectives (versioned : Bool) (handles : List (String × String)) :
    List Token → Except Fault (List (String × String) × List Token)
  | .directive "YAML" versions :: rest =>
      if !versioned && (versions = ["1.1"] ∨ versions = ["1.2"]) then
        readDirectives true handles rest
      else .error .badDirective
  | .directive _ [handle, start] :: rest =>
      if handles.any fun entry => entry.1 == handle then .error .badDirective
      else readDirectives versioned ((handle, start) :: handles) rest
  | rest => .ok (handles, rest)

/-- Whether a token begins or ends a document. -/
def isDocumentEdge : Token → Bool
  | .directive .. => true
  | .documentStart => true
  | .documentEnd => true
  | .streamEnd => true
  | _ => false

/-- Reads the value of a document behind its start marker. -/
def readDocument (tokens : List Token) (handles : List (String × String)) :
    Except Fault (Node × List Token) :=
  let input : Input := ⟨tokens, [], handles ++ Input.standardHandles⟩
  if isDocumentEdge input.peek then .ok (nothing, tokens)
  else (read .block (4 * tokens.length + 4) input).map fun (node, input) => (node, input.tokens)

/-- Whether nothing but ends of documents is left. -/
def isRest (tokens : List Token) : Bool :=
  tokens.all fun token => token == .documentEnd || token == .streamEnd

/-- The value of a text, or none if it holds no document. A text of several documents has no value. -/
def ofText (text : List Char) : Except Fault (Option Node) := do
  let tokens ← Yaml.tokens text
  match tokens.headD .streamEnd with
  | .streamEnd => return none
  | .documentEnd => .error .unexpectedToken
  | _ =>
      let (handles, rest) ← readDirectives false [] tokens
      let (node, rest) ←
        match rest with
        | .documentStart :: rest => readDocument rest handles
        | rest =>
            if isDocumentEdge (tokens.headD .streamEnd) then .error .unexpectedToken
            else readDocument rest []
      if isRest rest then return some node else .error .severalDocuments

end Node

end MenuActions.Yaml
