import MenuActions.Grammar.Block

/-!
# Bracket lists

`[ "v1", v2 ]`: values between brackets, separated by commas, each quoted or bare. A bare value runs
to the next comma and is trimmed; an empty bare value is no value.
-/

namespace MenuActions.Grammar.BracketList

open Text

/-- Drops the comma in front, if there is one. -/
def dropComma : List Char → List Char
  | ',' :: rest => rest
  | s => s

theorem length_dropComma (s : List Char) : (dropComma s).length ≤ s.length := by
  unfold dropComma
  split <;> simp

/-- A bare item and its comma take up at least one character. -/
theorem length_afterBare (c : Char) (s : List Char) :
    (dropComma ((c :: s).dropWhile (· != ','))).length < (c :: s).length := by
  by_cases h : c = ','
  · subst h
    simp [dropComma]
  · have hd : (c :: s).dropWhile (· != ',') = s.dropWhile (· != ',') := by simp [h]
    have h1 := length_dropComma (s.dropWhile (· != ','))
    have h2 : (s.dropWhile (· != ',')).length ≤ s.length := (List.dropWhile_sublist _).length_le
    rw [hd, List.length_cons]
    omega

/-- The items of a list, read from the part between its brackets that is still to come; `offset`
turns such a part into its position in the text. -/
def readItems (offset : List Char → Nat) (rest : List Char) :
    Except ParseError (List (List Char)) :=
  match _hrest : trimStart rest with
  | [] => .ok []
  | '"' :: quoted =>
      match _hq : Quoted.decode quoted with
      | none => .error (.unterminatedQuote (offset ('"' :: quoted)))
      | some (value, next) =>
          match _hnext : trimStart next with
          | [] => .ok [value]
          | ',' :: next' => do
              let items ← readItems offset next'
              return value :: items
          | found :: next' => .error (.unexpected found (offset (found :: next')) .commaOrBracket)
  | c :: bare => do
      let item := trim ((c :: bare).takeWhile (· != ','))
      let items ← readItems offset (dropComma ((c :: bare).dropWhile (· != ',')))
      return if item.isEmpty then items else item :: items
termination_by rest.length
decreasing_by
  all_goals
    have hr := Block.length_trimStart rest
    rw [_hrest, List.length_cons] at hr
  · have h1 := Quoted.length_of_decode _hq
    have h2 := Block.length_trimStart next
    rw [_hnext, List.length_cons] at h2
    omega
  · have := length_afterBare c bare
    simp only [List.length_cons] at this
    omega

/-- The items of a bracket list. A text without brackets is one item, a blank text none. -/
def values (text : List Char) : Except ParseError (List (List Char)) :=
  match trim text with
  | [] => .ok []
  | '[' :: inside =>
      let opened := byteLength (text.takeWhile isBlank)
      match inside.getLast? with
      | some ']' =>
          let inner := inside.dropLast
          readItems (offsetIn (opened + 1 + byteLength inner)) inner
      | _ => .error (.unclosed ']' opened)
  | single => .ok [single]

/-- Whether a text is a bracket list that is empty or begins with a quoted item. -/
def isQuoted (text : List Char) : Bool :=
  match text with
  | '[' :: inside =>
      Block.endsWith ']' text &&
        match trimStart inside with
        | '"' :: _ => true
        | ']' :: _ => true
        | _ => false
  | _ => false

end MenuActions.Grammar.BracketList
