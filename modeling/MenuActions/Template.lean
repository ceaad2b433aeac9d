import MenuActions.Text.Blank

/-!
# Tokens in running text

A token is a name between braces. Filling a text replaces every token whose name has a value, all at
once: inserted text is not looked at again, and every other character stays as it is.
-/

namespace MenuActions.Template

/-- The characters of a placeholder's name. -/
def isPlaceholderChar (c : Char) : Bool :=
  c.isAlphanum || c == '_' || c == '.' || c == ':' || c == '-'

/-- The characters of the name of a message's replacement. -/
def isReplacementChar (c : Char) : Bool :=
  c.isAlphanum || c == '_'

/-- The name of the token whose opening brace stands in front of a text, and what follows the token.
-/
def token? (isName : Char → Bool) (s : List Char) : Option (List Char × List Char) :=
  match s.takeWhile isName, s.dropWhile isName with
  | c :: name, '}' :: rest => some (c :: name, rest)
  | _, _ => none

theorem length_of_token? {isName : Char → Bool} {s name rest : List Char}
    (h : token? isName s = some (name, rest)) : rest.length < s.length := by
  have hd : (s.dropWhile isName).length ≤ s.length := (List.dropWhile_sublist _).length_le
  unfold token? at h
  split at h
  · rename_i heq
    simp only [Option.some.injEq, Prod.mk.injEq] at h
    obtain ⟨-, rfl⟩ := h
    rw [heq, List.length_cons] at hd
    omega
  · simp at h

/-- Replaces the tokens that have a value. -/
def fill (isName : Char → Bool) (value : String → Option String) : List Char → List Char
  | [] => []
  | c :: s =>
      if c = '{' then
        match _h : token? isName s with
        | some (name, rest) =>
            match value (String.ofList name) with
            | some text => text.toList ++ fill isName value rest
            | none => '{' :: name ++ '}' :: fill isName value rest
        | none => '{' :: fill isName value s
      else c :: fill isName value s
termination_by s => s.length
decreasing_by
  · have := length_of_token? _h
    simp only [List.length_cons]
    omega
  · have := length_of_token? _h
    simp only [List.length_cons]
    omega
  · simp
  · simp

/-- The names of the tokens in a text. -/
def tokenNames (isName : Char → Bool) : List Char → List String
  | [] => []
  | c :: s =>
      match if c = '{' then token? isName s else none with
      | some (name, _) => String.ofList name :: tokenNames isName s
      | none => tokenNames isName s

end MenuActions.Template
