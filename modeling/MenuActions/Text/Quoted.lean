import MenuActions.Text.Blank

/-!
# Quoted text

A value between double quotes, in which a backslash before a double quote or another backslash
stands for that character. Any other backslash is an ordinary character.

`decode_escape`: reading back an escaped value gives the value and whatever follows its closing
quote.
-/

namespace MenuActions.Text.Quoted

/-- Writes a backslash in front of every double quote and backslash. -/
def escape : List Char → List Char
  | [] => []
  | c :: rest =>
      if c = '"' ∨ c = '\\' then '\\' :: c :: escape rest else c :: escape rest

/-- A whole quoted value. -/
def encode (value : List Char) : List Char :=
  '"' :: escape value ++ ['"']

/-- The value up to the closing quote and the text after it; `none` when no quote closes it. The
text starts behind the opening quote. -/
def decode : List Char → Option (List Char × List Char)
  | [] => none
  | '"' :: rest => some ([], rest)
  | '\\' :: '"' :: rest => (decode rest).map fun (value, after) => ('"' :: value, after)
  | '\\' :: '\\' :: rest => (decode rest).map fun (value, after) => ('\\' :: value, after)
  | c :: rest => (decode rest).map fun (value, after) => (c :: value, after)

theorem decode_escape (value rest : List Char) :
    decode (escape value ++ '"' :: rest) = some (value, rest) := by
  induction value with
  | nil => rfl
  | cons c value ih =>
      by_cases hq : c = '"'
      · subst hq
        simp [escape, decode, ih]
      · by_cases hb : c = '\\'
        · subst hb
          simp [escape, decode, ih]
        · simp [escape, hq, hb, decode, ih]

/-- The text after a closing quote is shorter than the text it was found in. -/
theorem length_of_decode {s value rest : List Char} (h : decode s = some (value, rest)) :
    rest.length < s.length := by
  induction s using decode.induct generalizing value rest with
  | case1 => simp [decode] at h
  | case2 r =>
      simp only [decode, Option.some.injEq, Prod.mk.injEq] at h
      simp [← h.2]
  | case3 r ih =>
      simp only [decode, Option.map_eq_some_iff, Prod.mk.injEq] at h
      obtain ⟨⟨v, a⟩, hd, -, rfl⟩ := h
      have := ih hd
      simp only [List.length_cons]
      omega
  | case4 r ih =>
      simp only [decode, Option.map_eq_some_iff, Prod.mk.injEq] at h
      obtain ⟨⟨v, a⟩, hd, -, rfl⟩ := h
      have := ih hd
      simp only [List.length_cons]
      omega
  | case5 c r h1 h2 h3 ih =>
      rw [decode] at h
      · simp only [Option.map_eq_some_iff, Prod.mk.injEq] at h
        obtain ⟨⟨v, a⟩, hd, -, rfl⟩ := h
        have := ih hd
        simp only [List.length_cons]
        omega
      all_goals assumption

end MenuActions.Text.Quoted
