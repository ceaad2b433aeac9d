import Mathlib.Logic.Basic
import MenuActions.Template
import MenuActions.Proofs.Text.Trimming

/-!
# Filling part by part

Filling goes along a text from left to right: a character stays, a brace that begins no token stays,
and for a token its value is put in.  `fill_induction` is the induction that follows.  What comes out
depends on the values of the tokens that occur, and on no others (`fill_congr`).
-/

namespace MenuActions.Template

variable {isName : Char → Bool} {value value' : String → Option String}

/-- What is put in for a token: its value, or the token itself. -/
def shown (value : String → Option String) (name : List Char) : List Char :=
  match value (String.ofList name) with
  | some text => text.toList
  | none => '{' :: name ++ ['}']

theorem fill_nil : fill isName value [] = [] := by
  rw [fill]

theorem fill_cons {c : Char} {s : List Char} (hc : c ≠ '{') :
    fill isName value (c :: s) = c :: fill isName value s := by
  rw [fill, if_neg hc]

theorem fill_brace {s : List Char} (h : token? isName s = none) :
    fill isName value ('{' :: s) = '{' :: fill isName value s := by
  rw [fill, if_pos rfl]
  split
  · rename_i hsome
    rw [h] at hsome
    exact absurd hsome (by simp)
  · rfl

theorem fill_token {s name rest : List Char} (h : token? isName s = some (name, rest)) :
    fill isName value ('{' :: s) = shown value name ++ fill isName value rest := by
  rw [fill, if_pos rfl]
  split
  · rename_i hsome
    rw [h, Option.some.injEq, Prod.mk.injEq] at hsome
    obtain ⟨rfl, rfl⟩ := hsome
    unfold shown
    cases value (String.ofList name) with
    | some text => rfl
    | none => simp
  · rename_i hnone
    rw [h] at hnone
    exact absurd hnone (by simp)

/-- Induction along the tokens of a text: a character in front of it, a brace that begins no token,
and a token. -/
theorem fill_induction (isName : Char → Bool) {P : List Char → Prop} (nil : P [])
    (char : ∀ c s, c ≠ '{' → P s → P (c :: s))
    (brace : ∀ s, token? isName s = none → P s → P ('{' :: s))
    (token : ∀ s name rest, token? isName s = some (name, rest) → P rest → P ('{' :: s))
    (s : List Char) : P s := by
  induction hlength : s.length using Nat.strongRecOn generalizing s with
  | ind n ih =>
      subst hlength
      cases s with
      | nil => exact nil
      | cons c s =>
          by_cases hc : c = '{'
          · subst hc
            cases htoken : token? isName s with
            | none => exact brace s htoken (ih _ (Nat.lt_succ_self _) s rfl)
            | some found =>
                obtain ⟨name, rest⟩ := found
                exact token s name rest htoken
                  (ih _ (Nat.lt_succ_of_lt (length_of_token? htoken)) rest rfl)
          · exact char c s hc (ih _ (Nat.lt_succ_self _) s rfl)

/-- A token: at least one character of a name, and a closing brace. -/
theorem token?_eq_some_iff {s name rest : List Char} :
    token? isPlaceholderChar s = some (name, rest) ↔
      s = name ++ '}' :: rest ∧ name ≠ [] ∧ ∀ c ∈ name, isPlaceholderChar c = true := by
  constructor
  · intro htoken
    unfold token? at htoken
    split at htoken
    · rename_i first more after htake hdrop
      rw [Option.some.injEq, Prod.mk.injEq] at htoken
      obtain ⟨rfl, rfl⟩ := htoken
      refine ⟨?_, List.cons_ne_nil _ _, fun c hc => ?_⟩
      · rw [← htake, ← hdrop, List.takeWhile_append_dropWhile]
      · rw [← htake] at hc
        exact List.all_eq_true.mp List.all_takeWhile c hc
    · exact absurd htoken (by simp)
  · rintro ⟨rfl, hne, hname⟩
    obtain ⟨first, more, rfl⟩ := List.exists_cons_of_ne_nil hne
    rw [token?, Text.takeWhile_append_cons hname (by decide),
      Text.dropWhile_append_cons hname (by decide)]
    rfl

/-- A token in the rest of a text is a token of the text. -/
theorem mem_tokenNames_append {token : String} (s : List Char) {t : List Char}
    (h : token ∈ tokenNames isName t) : token ∈ tokenNames isName (s ++ t) := by
  induction s with
  | nil => exact h
  | cons c s ih =>
      rw [List.cons_append, tokenNames]
      split
      · exact List.mem_cons_of_mem _ ih
      · exact ih

/-- What follows a token stands at the end of the text. -/
theorem exists_append_of_token? {s name rest : List Char} (h : token? isName s = some (name, rest)) :
    ∃ front, s = front ++ rest := by
  unfold token? at h
  split at h
  · rename_i first more after _ hdrop
    obtain ⟨-, rfl⟩ := Prod.mk.inj (Option.some.inj h)
    refine ⟨s.takeWhile isName ++ ['}'], ?_⟩
    rw [List.append_assoc, List.singleton_append, ← hdrop, List.takeWhile_append_dropWhile]
  · exact absurd h (by simp)

/-- Filling depends on the values of the tokens that occur, and on no others. -/
theorem fill_congr {s : List Char} (h : ∀ token ∈ tokenNames isName s, value token = value' token) :
    fill isName value s = fill isName value' s := by
  induction s using fill_induction isName with
  | nil => rw [fill_nil, fill_nil]
  | char c s hc ih =>
      rw [tokenNames, if_neg hc] at h
      rw [fill_cons hc, fill_cons hc, ih h]
  | brace s hnone ih =>
      rw [tokenNames, if_pos rfl, hnone] at h
      rw [fill_brace hnone, fill_brace hnone, ih h]
  | token s name rest hsome ih =>
      rw [tokenNames, if_pos rfl, hsome] at h
      obtain ⟨hname, hs⟩ := List.forall_mem_cons.mp h
      obtain ⟨front, rfl⟩ := exists_append_of_token? hsome
      have hrest : ∀ token ∈ tokenNames isName rest, value token = value' token :=
        fun token htoken => hs token (mem_tokenNames_append front htoken)
      rw [fill_token hsome, fill_token hsome, ih hrest, shown, shown, hname]

end MenuActions.Template
