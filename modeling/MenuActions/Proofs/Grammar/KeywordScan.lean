import MenuActions.Grammar.TopLevel
import MenuActions.Proofs.Grammar.QuotedValues

/-!
# Scanning for keywords

The search for a keyword passes over quoted text and over brackets without stopping, whatever stands
inside them.  `Scan.Passes` says that a scan goes over a text in this way and in which state it comes
out; the judgments compose along the text, so that a larger text is put together from its parts.

`findKeyword_append` is the use of such a judgment; `findKeyword_cons` and `findKeyword_here` say what the
search does at a character where no keyword begins and at one where a keyword does.
-/

namespace MenuActions.Grammar.TopLevel

open Text

/-- No keyword can begin at any character of a text, and the scan ends in the second state. -/
inductive Scan.Passes : Scan → List Char → Scan → Prop
  | nil (scan : Scan) : Passes scan [] scan
  | cons {scan last : Scan} {c : Char} {s : List Char} :
      scan.admits = false → Passes (scan.step c) s last → Passes scan (c :: s) last

theorem Scan.Passes.append {first middle last : Scan} {s t : List Char}
    (hs : first.Passes s middle) (ht : middle.Passes t last) : first.Passes (s ++ t) last := by
  induction hs with
  | nil _ => exact ht
  | cons hadmits _ ih => exact .cons hadmits (ih ht)

/-- Inside quotes and inside brackets no keyword can begin. -/
theorem Scan.admits_eq_false {scan : Scan} (h : scan.mode ≠ .outside ∨ scan.depth ≠ 0) :
    scan.admits = false := by
  unfold Scan.admits
  rcases h with h | h
  · rw [beq_eq_false_iff_ne.mpr h, Bool.false_and, Bool.false_and]
  · rw [beq_eq_false_iff_ne.mpr h, Bool.and_false, Bool.false_and]

section Quotes

variable {depth : Nat}

/-- Escaped text is passed over up to the quote that closes it. -/
theorem passes_escape (value : List Char) (previous : Char) :
    Scan.Passes ⟨.quoted, depth, previous⟩ (Quoted.escape value ++ ['"'])
      ⟨.outside, depth, '"'⟩ := by
  -- The character just passed is general, since it changes with every character of the value.
  induction value generalizing previous with
  | nil =>
      exact .cons (Scan.admits_eq_false (Or.inl (by simp))) (.nil _)
  | cons c value ih =>
      have hquoted : Scan.admits ⟨.quoted, depth, previous⟩ = false :=
        Scan.admits_eq_false (Or.inl (by simp))
      by_cases hc : c = '"' ∨ c = '\\'
      · rw [Quoted.escape, if_pos hc]
        exact .cons hquoted (.cons (Scan.admits_eq_false (Or.inl (by simp [Scan.step]))) (ih c))
      · rw [Quoted.escape, if_neg hc]
        obtain ⟨hquote, hslash⟩ := not_or.mp hc
        have hstep : Scan.step ⟨.quoted, depth, previous⟩ c = ⟨.quoted, depth, c⟩ := by
          simp [Scan.step, hquote, hslash]
        exact .cons hquoted (hstep ▸ ih c)

/-- A quoted value inside brackets is passed over. -/
theorem passes_encode (value : List Char) (previous : Char) (hdepth : depth ≠ 0) :
    Scan.Passes ⟨.outside, depth, previous⟩ (Quoted.encode value) ⟨.outside, depth, '"'⟩ :=
  .cons (Scan.admits_eq_false (Or.inr hdepth)) (passes_escape value '"')

end Quotes

section Search

variable {keywords : List (List Char)} {scan : Scan}

/-- The search goes on behind a text that the scan passes over. -/
theorem findKeyword_append {last : Scan} {s : List Char} (rest : List Char)
    (h : scan.Passes s last) :
    findKeyword keywords scan (s ++ rest) =
      (findKeyword keywords last rest).map fun (before, keyword, after) =>
        (s ++ before, keyword, after) := by
  induction h with
  | nil _ => simp
  | cons hadmits _ ih =>
      rw [List.cons_append, findKeyword, hadmits]
      simp only [Bool.false_eq_true, if_false]
      rw [ih, Option.map_map]
      rfl

/-- The search goes on behind a character with which no keyword begins. -/
theorem findKeyword_cons {c : Char} {rest : List Char}
    (h : ∀ keyword ∈ keywords, afterKeyword keyword (c :: rest) = none) :
    findKeyword keywords scan (c :: rest) =
      (findKeyword keywords (scan.step c) rest).map fun (before, keyword, after) =>
        (c :: before, keyword, after) := by
  have hnone : (if scan.admits then
      keywords.findSome? fun keyword =>
        (afterKeyword keyword (c :: rest)).map fun after => (keyword, after)
      else none) = none := by
    rw [List.findSome?_eq_none_iff.mpr, ite_self]
    intro keyword hkeyword
    rw [h keyword hkeyword]
    rfl
  rw [findKeyword]
  simp only [hnone]

/-- The search ends where a keyword may begin and one does. -/
theorem findKeyword_here {c : Char} {rest keyword after : List Char} (hadmits : scan.admits = true)
    (h : (keywords.findSome? fun keyword =>
      (afterKeyword keyword (c :: rest)).map fun after => (keyword, after)) =
        some (keyword, after)) :
    findKeyword keywords scan (c :: rest) = some ([], keyword, after) := by
  rw [findKeyword, if_pos hadmits, h]

end Search

end MenuActions.Grammar.TopLevel
