import MenuActions.Text.Blank

/-!
# Parse errors

What can be wrong with action text. Positions are byte offsets into the text given to the reader
that reports them.
-/

namespace MenuActions.Grammar

/-- What a reader was looking for where it found something else. -/
inductive Expected
  | dash
  | endOfBlock
  | lineBreakAfterBar
  | valueAfterDash
  | commaOrBracket
  | endOfValue
  | branchKeyword
  deriving DecidableEq, Repr

/-- The words for what was expected. -/
def Expected.text : Expected → String
  | .dash => "'-'"
  | .endOfBlock => "end of block"
  | .lineBreakAfterBar => "line break after '|'"
  | .valueAfterDash => "value after '-'"
  | .commaOrBracket => "',' or ']'"
  | .endOfValue => "end of value"
  | .branchKeyword => "'true:' or 'false:'"

/-- The ways in which action text can be malformed. -/
inductive ParseError
  | unterminatedQuote (position : Nat)
  | unclosed (closer : Char) (position : Nat)
  | unexpected (found : Char) (position : Nat) (expected : Expected)
  | unexpectedEnd (expected : Expected)
  | invalidCondition (expression reason : String)
  | missingKeyword (keyword : String)
  deriving DecidableEq, Repr

/-- The error in words. -/
def ParseError.message : ParseError → String
  | .unterminatedQuote position =>
      "unterminated quoted value starting at " ++ toString position
  | .unclosed closer position =>
      "missing closing '" ++ closer.toString ++ "' for the one opened at " ++ toString position
  | .unexpected found position expected =>
      "unexpected '" ++ found.toString ++ "' at " ++ toString position ++ ", expected " ++
        expected.text
  | .unexpectedEnd expected => "expected " ++ expected.text ++ " at end of input"
  | .invalidCondition expression reason =>
      "invalid condition '" ++ expression ++ "': " ++ reason
  | .missingKeyword keyword => "missing '" ++ keyword ++ "'"

/-- The byte offset of `rest`, the end of a text that takes `total` bytes. -/
def offsetIn (total : Nat) (rest : List Char) : Nat :=
  total - Text.byteLength rest

end MenuActions.Grammar
