import MenuActions.Proofs.Grammar.ConditionalData
import MenuActions.Template

/-!
# Texts without tokens

Filling a text in which no token occurs leaves it as it is.  That no token occurs is kept by every
writer of the grammar: quoting only adds quotes and backslashes, and these are neither braces nor
characters of a name, so they cannot complete a token and cannot break one up.

`tokenFree_append_cons` cuts a text at such a character.  The theorems on the writers follow from it
by induction over the values.
-/

namespace MenuActions.Template

open Text Grammar

/-- No token for a placeholder begins anywhere in a text. -/
def TokenFree (s : List Char) : Prop :=
  tokenNames isPlaceholderChar s = []

instance (s : List Char) : Decidable (TokenFree s) :=
  inferInstanceAs (Decidable (tokenNames isPlaceholderChar s = []))

/-- A character that is no part of any token. -/
def IsSeparator (c : Char) : Prop :=
  isPlaceholderChar c = false ∧ c ≠ '{' ∧ c ≠ '}'

instance (c : Char) : Decidable (IsSeparator c) :=
  inferInstanceAs (Decidable (_ ∧ _ ∧ _))

theorem tokenFree_nil : TokenFree [] := rfl

theorem tokenFree_cons_iff {c : Char} {s : List Char} :
    TokenFree (c :: s) ↔ (c = '{' → token? isPlaceholderChar s = none) ∧ TokenFree s := by
  unfold TokenFree
  rw [tokenNames]
  by_cases hc : c = '{'
  · rw [if_pos hc]
    cases htoken : token? isPlaceholderChar s with
    | none => simp
    | some found => simp [hc]
  · rw [if_neg hc]
    simp [hc]

/-- Only an opening brace begins a token. -/
theorem tokenFree_cons {c : Char} {s : List Char} (hc : c ≠ '{') :
    TokenFree (c :: s) ↔ TokenFree s := by
  rw [tokenFree_cons_iff]
  exact and_iff_right fun h => absurd h hc

theorem token?_eq_none_of_head {c : Char} {s : List Char} (hc : isPlaceholderChar c = false) :
    token? isPlaceholderChar (c :: s) = none := by
  rw [token?, List.takeWhile_cons_of_neg (by simp [hc])]

/-- A brace in front of a separator begins no token. -/
theorem tokenFree_brace_cons {c : Char} {s : List Char} (hc : IsSeparator c) :
    TokenFree ('{' :: c :: s) ↔ TokenFree s := by
  rw [tokenFree_cons_iff, tokenFree_cons hc.2.1]
  exact and_iff_right fun _ => token?_eq_none_of_head hc.1

/-- What stands behind a separator does not decide which token there is in front of it. -/
theorem token?_append_cons {s t : List Char} {c : Char} (hc : IsSeparator c) :
    token? isPlaceholderChar (s ++ c :: t) =
      (token? isPlaceholderChar s).map fun found => (found.1, found.2 ++ c :: t) := by
  obtain ⟨htake, hdrop⟩ := @span_append_cons isPlaceholderChar s t c hc.1
  unfold token?
  rw [htake, hdrop]
  cases s.takeWhile isPlaceholderChar with
  | nil => simp
  | cons first name =>
      cases s.dropWhile isPlaceholderChar with
      | nil =>
          have hbrace := hc.2.2
          simp only [List.nil_append]
          split
          · rename_i heq
            simp_all
          · simp
      | cons d rest =>
          by_cases hd : d = '}'
          · simp [hd]
          · simp [hd]

/-- A text is free of tokens when its two parts on either side of a separator are. -/
theorem tokenFree_append_cons {s t : List Char} {c : Char} (hc : IsSeparator c) :
    TokenFree (s ++ c :: t) ↔ TokenFree s ∧ TokenFree t := by
  induction s with
  | nil =>
      rw [List.nil_append, tokenFree_cons hc.2.1]
      exact (and_iff_right tokenFree_nil).symm
  | cons d s ih =>
      rw [List.cons_append, tokenFree_cons_iff, tokenFree_cons_iff, ih, token?_append_cons hc,
        Option.map_eq_none_iff, and_assoc]

/-- Without an opening brace no token begins. -/
theorem tokenFree_append_of_no_brace {s t : List Char} (h : '{' ∉ s) :
    TokenFree (s ++ t) ↔ TokenFree t := by
  induction s with
  | nil => exact Iff.rfl
  | cons c s ih =>
      rw [List.mem_cons, not_or] at h
      rw [List.cons_append, tokenFree_cons (Ne.symm h.1), ih h.2]

/-- Filling leaves a text without tokens as it is, whatever values there are. -/
theorem fill_eq_self {value : String → Option String} {s : List Char} (h : TokenFree s) :
    fill isPlaceholderChar value s = s := by
  induction s with
  | nil => rw [fill]
  | cons c s ih =>
      obtain ⟨htoken, hs⟩ := tokenFree_cons_iff.mp h
      rw [fill]
      by_cases hc : c = '{'
      · rw [if_pos hc]
        split
        · rename_i hsome
          rw [htoken hc] at hsome
          exact absurd hsome (by simp)
        · rw [ih hs, hc]
      · rw [if_neg hc, ih hs]

/-! ## Quoting -/

/-- Escaping keeps the run of name characters in front of a text, and escapes what follows. -/
theorem span_escape (value : List Char) :
    (Quoted.escape value).takeWhile isPlaceholderChar = value.takeWhile isPlaceholderChar ∧
      (Quoted.escape value).dropWhile isPlaceholderChar =
        Quoted.escape (value.dropWhile isPlaceholderChar) := by
  induction value with
  | nil => exact ⟨rfl, rfl⟩
  | cons c value ih =>
      by_cases hname : isPlaceholderChar c = true
      · have hplain : ¬(c = '"' ∨ c = '\\') := by
          rintro (rfl | rfl)
          · exact absurd hname (by decide)
          · exact absurd hname (by decide)
        rw [Quoted.escape, if_neg hplain, List.takeWhile_cons_of_pos hname,
          List.dropWhile_cons_of_pos hname, List.takeWhile_cons_of_pos hname,
          List.dropWhile_cons_of_pos hname, ih.1, ih.2]
        exact ⟨rfl, rfl⟩
      · rw [List.takeWhile_cons_of_neg hname, List.dropWhile_cons_of_neg hname, Quoted.escape]
        by_cases hescaped : c = '"' ∨ c = '\\'
        · rw [if_pos hescaped, List.takeWhile_cons_of_neg (by decide),
            List.dropWhile_cons_of_neg (by decide)]
          exact ⟨rfl, rfl⟩
        · rw [if_neg hescaped, List.takeWhile_cons_of_neg hname, List.dropWhile_cons_of_neg hname]
          exact ⟨rfl, rfl⟩

/-- Escaping keeps the token in front of a text. -/
theorem token?_escape (value : List Char) :
    token? isPlaceholderChar (Quoted.escape value) =
      (token? isPlaceholderChar value).map fun found => (found.1, Quoted.escape found.2) := by
  obtain ⟨htake, hdrop⟩ := span_escape value
  unfold token?
  rw [htake, hdrop]
  cases value.takeWhile isPlaceholderChar with
  | nil => simp
  | cons first name =>
      cases value.dropWhile isPlaceholderChar with
      | nil => simp [Quoted.escape]
      | cons d rest =>
          by_cases hd : d = '}'
          · subst hd
            simp [Quoted.escape]
          · by_cases hescaped : d = '"' ∨ d = '\\'
            · simp [Quoted.escape, hescaped, hd]
            · simp [Quoted.escape, hescaped, hd]

/-- Escaping neither makes a token nor breaks one up. -/
theorem tokenFree_escape {value : List Char} : TokenFree (Quoted.escape value) ↔ TokenFree value := by
  induction value with
  | nil => exact Iff.rfl
  | cons c value ih =>
      by_cases hescaped : c = '"' ∨ c = '\\'
      · have hc : c ≠ '{' := by
          rintro rfl
          exact absurd hescaped (by decide)
        rw [Quoted.escape, if_pos hescaped, tokenFree_cons (by decide), tokenFree_cons hc,
          tokenFree_cons hc, ih]
      · rw [Quoted.escape, if_neg hescaped, tokenFree_cons_iff, tokenFree_cons_iff, token?_escape, ih,
          Option.map_eq_none_iff]

/-- A quoted value with its quotes, in front of any text. -/
theorem tokenFree_encode_append {value rest : List Char} :
    TokenFree (Quoted.encode value ++ rest) ↔ TokenFree value ∧ TokenFree rest := by
  rw [Quoted.encode, List.cons_append, List.cons_append, tokenFree_cons (by decide),
    List.append_assoc, List.singleton_append, tokenFree_append_cons (by decide), tokenFree_escape]

/-! ## Written texts -/

theorem tokenFree_writeDashed {values : List (List Char)} {rest : List Char}
    (hvalues : ∀ value ∈ values, TokenFree value) (hrest : TokenFree rest) :
    TokenFree (Block.writeDashed values ++ rest) := by
  induction values with
  | nil => exact hrest
  | cons value values ih =>
      have htail := ih fun other hother => hvalues other (List.mem_cons_of_mem _ hother)
      rw [Block.writeDashed_cons, List.cons_append, List.cons_append, List.cons_append,
        tokenFree_cons (by decide), tokenFree_cons (by decide), tokenFree_cons (by decide),
        List.append_assoc, List.cons_append, tokenFree_append_cons (by decide), tokenFree_escape,
        List.cons_append, tokenFree_cons (by decide)]
      exact ⟨hvalues value List.mem_cons_self, htail⟩

/-- A block of quoted values without tokens has none either. -/
theorem tokenFree_writeInline {name : List Char} {values : List (List Char)}
    (hname : Block.IsName name) (hvalues : ∀ value ∈ values, TokenFree value) :
    TokenFree (Block.writeInline name values) := by
  have hbrace : '{' ∉ name := fun hmem => absurd (hname.1 _ hmem) (by decide)
  rw [Block.writeInline, tokenFree_append_of_no_brace hbrace, List.singleton_append,
    tokenFree_cons (by decide), List.cons_append, tokenFree_brace_cons (by decide)]
  exact tokenFree_writeDashed hvalues (by decide)

theorem tokenFree_writeItems {values : List (List Char)} {rest : List Char}
    (hvalues : ∀ value ∈ values, TokenFree value) (hrest : TokenFree rest) :
    TokenFree (BracketList.writeItems values ++ rest) := by
  induction values with
  | nil => exact hrest
  | cons value values ih =>
      have htail := ih fun other hother => hvalues other (List.mem_cons_of_mem _ hother)
      rw [BracketList.writeItems_cons, List.cons_append, tokenFree_cons (by decide),
        List.append_assoc, List.cons_append, tokenFree_append_cons (by decide), tokenFree_escape]
      refine ⟨hvalues value List.mem_cons_self, ?_⟩
      cases values with
      | nil =>
          rw [BracketList.afterItem, List.singleton_append, tokenFree_cons (by decide)]
          exact hrest
      | cons second values =>
          rw [BracketList.afterItem, List.cons_append, List.cons_append, tokenFree_cons (by decide),
            tokenFree_cons (by decide)]
          · exact htail
          · simp

/-- A bracket list of quoted values without tokens has none either, whatever follows it. -/
theorem tokenFree_write_append {values : List (List Char)} {rest : List Char}
    (hvalues : ∀ value ∈ values, TokenFree value) (hrest : TokenFree rest) :
    TokenFree (BracketList.write values ++ rest) := by
  rw [BracketList.write, List.cons_append, List.cons_append, List.cons_append,
    tokenFree_cons (by decide), tokenFree_cons (by decide), List.append_assoc]
  exact tokenFree_writeItems hvalues ((tokenFree_cons (by decide)).mpr hrest)

theorem tokenFree_write {values : List (List Char)} (hvalues : ∀ value ∈ values, TokenFree value) :
    TokenFree (BracketList.write values) := by
  rw [← List.append_nil (BracketList.write values)]
  exact tokenFree_write_append hvalues tokenFree_nil

/-- The data of a conditional action has no tokens when its condition and its values have none. -/
theorem tokenFree_writeData {condition : List Char} {whenTrue whenFalse : List (List Char)}
    (hcondition : TokenFree condition) (htrue : ∀ value ∈ whenTrue, TokenFree value)
    (hfalse : ∀ value ∈ whenFalse, TokenFree value) :
    TokenFree (Conditional.writeData condition whenTrue whenFalse) := by
  have hkeyword : ∀ {keyword s : List Char}, '{' ∉ keyword → TokenFree s →
      TokenFree (' ' :: (keyword ++ ' ' :: s)) := by
    intro keyword s hbrace hs
    rw [tokenFree_cons (by decide), tokenFree_append_of_no_brace hbrace, tokenFree_cons (by decide)]
    exact hs
  rw [Conditional.writeData, tokenFree_encode_append]
  exact ⟨hcondition, hkeyword (by decide)
    (tokenFree_write_append htrue (hkeyword (by decide) (tokenFree_write hfalse)))⟩

end MenuActions.Template
