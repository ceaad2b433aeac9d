import MenuActions.Decimal.Numeral
import MenuActions.Proofs.Grammar.BlockForm
import MenuActions.Proofs.Text.LowerCase

/-!
# Numerals

The characters that a text must be made of when it denotes a number, and the natural numbers that are
read back from their own digits.

* `isNumeralChar_of_float?`: letters, digits, signs and points make up every numeral, so that no
  separator, bracket or blank stands in one.
* `natUpTo?_toString`: a natural number within the bound is read from the text that it is written as.
-/

namespace MenuActions.Decimal

open Text Grammar.Block

/-! ## The characters of a numeral -/

/-- The characters that numerals are made of. -/
def isNumeralChar (c : Char) : Bool :=
  c.isAlphanum || c == '+' || c == '-' || c == '.'

theorem isNumeralChar_of_isDigit {c : Char} (h : c.isDigit = true) : isNumeralChar c = true := by
  simp [isNumeralChar, Char.isAlphanum, h]

theorem isBlank_of_isNumeralChar {c : Char} (h : isNumeralChar c = true) : isBlank c = false := by
  simp only [isNumeralChar, Bool.or_eq_true, beq_iff_eq] at h
  rcases h with ((halphanum | rfl) | rfl) | rfl
  · exact isBlank_of_isNameChar (by simp [isNameChar, halphanum])
  all_goals decide

/-- A letter in either case may stand in a numeral. -/
theorem isNumeralChar_of_toLower {c : Char} (h : c.toLower.isLower = true) :
    isNumeralChar c = true := by
  have hletter : 97 ≤ c.toLower.toNat ∧ c.toLower.toNat ≤ 122 :=
    (Bool.and_eq_true_iff.mp h).imp of_decide_eq_true of_decide_eq_true
  have hname : isNameChar c = true := by
    rw [isNameChar_iff]
    obtain ⟨hfirst, hlast, -⟩ | ⟨-, hsame⟩ := toLower_cases c
    · omega
    · rw [hsame] at hletter
      omega
  simp only [isNameChar, Bool.or_eq_true, beq_iff_eq] at hname
  rcases hname with (halphanum | rfl) | rfl
  · simp [isNumeralChar, halphanum]
  · exact absurd h (by decide)
  · decide

theorem natural?_eq_some_iff {s : List Char} {n : Nat} :
    natural? s = some n ↔ s ≠ [] ∧ (∀ c ∈ s, c.isDigit = true) ∧ digitsValue s = n := by
  unfold natural?
  cases s with
  | nil => simp
  | cons c s =>
      by_cases hall : (c :: s).all Char.isDigit = true
      · simp only [hall, List.isEmpty_cons, Bool.not_false, Bool.and_self, if_true, Option.some.injEq]
        rw [List.all_eq_true] at hall
        simp only [ne_eq, List.cons_ne_nil, not_false_eq_true, true_and]
        exact ⟨fun h => ⟨hall, h⟩, fun h => h.2⟩
      · simp only [hall, Bool.and_false, Bool.false_eq_true, if_false]
        rw [List.all_eq_true] at hall
        exact ⟨fun h => absurd h (by simp), fun h => absurd h.2.1 hall⟩

theorem isNumeralChar_of_natural? {s : List Char} {n : Nat} (h : natural? s = some n) :
    ∀ c ∈ s, isNumeralChar c = true :=
  fun c hc => isNumeralChar_of_isDigit ((natural?_eq_some_iff.mp h).2.1 c hc)

/-- Whatever may stand behind a sign may stand behind none. -/
theorem isNumeralChar_of_takeSign {s : List Char}
    (h : ∀ c ∈ (takeSign s).2, isNumeralChar c = true) : ∀ c ∈ s, isNumeralChar c = true := by
  unfold takeSign at h
  split at h
  · exact List.forall_mem_cons.mpr ⟨by decide, h⟩
  · exact List.forall_mem_cons.mpr ⟨by decide, h⟩
  · exact h

theorem isNumeralChar_of_exponent? {s : List Char} {exponent : Int} (h : exponent? s = some exponent) :
    ∀ c ∈ s, isNumeralChar c = true := by
  cases s with
  | nil => exact fun c hc => absurd hc List.not_mem_nil
  | cons e rest =>
      rw [exponent?] at h
      split at h
      · rename_i he
        have hdigits : ∃ n, natural? (takeSign rest).2 = some n := by
          cases hnatural : natural? (takeSign rest).2 with
          | none =>
              simp only [hnatural] at h
              exact absurd h (by simp)
          | some n => exact ⟨n, rfl⟩
        obtain ⟨n, hdigits⟩ := hdigits
        refine List.forall_mem_cons.mpr ⟨?_, ?_⟩
        · rcases he with rfl | rfl <;> decide
        · exact isNumeralChar_of_takeSign (isNumeralChar_of_natural? hdigits)
      · exact absurd h (by simp)

/-- A run of digits with numeral characters behind it is made of numeral characters. -/
theorem isNumeralChar_of_dropWhile {s : List Char}
    (h : ∀ c ∈ s.dropWhile Char.isDigit, isNumeralChar c = true) :
    ∀ c ∈ s, isNumeralChar c = true := by
  intro c hc
  rw [← List.takeWhile_append_dropWhile (p := Char.isDigit) (l := s)] at hc
  rcases List.mem_append.mp hc with hdigit | hrest
  · exact isNumeralChar_of_isDigit (List.all_eq_true.mp List.all_takeWhile c hdigit)
  · exact h c hrest

/-- The words for infinity and for no number are made of letters. -/
theorem isNumeralChar_of_word {s : List Char} {word : String}
    (h : String.ofList (s.map Char.toLower) = word)
    (hword : word.toList.all Char.isLower = true) : ∀ c ∈ s, isNumeralChar c = true := by
  intro c hc
  refine isNumeralChar_of_toLower (List.all_eq_true.mp hword c.toLower ?_)
  rw [← h, String.toList_ofList]
  exact List.mem_map_of_mem hc

theorem isNumeralChar_of_read? {s : List Char} {reading : Reading} (h : read? s = some reading) :
    ∀ c ∈ s, isNumeralChar c = true := by
  refine isNumeralChar_of_takeSign ?_
  unfold read? at h
  cases hsign : takeSign s with
  | mk negative body =>
      rw [hsign] at h
      simp only at h
      split at h
      · rename_i hinfinite
        rcases hinfinite with hword | hword
        · exact isNumeralChar_of_word hword (by decide)
        · exact isNumeralChar_of_word hword (by decide)
      split at h
      · rename_i hword
        exact isNumeralChar_of_word hword (by decide)
      · -- Digits come first; a point with more digits may follow, and the exponent is the rest.
        refine isNumeralChar_of_dropWhile ?_
        split at h
        · rename_i rest hpoint
          split at h
          · exact absurd h (by simp)
          · obtain ⟨exponent, hexponent, -⟩ := Option.map_eq_some_iff.mp h
            rw [hpoint]
            exact List.forall_mem_cons.mpr
              ⟨by decide, isNumeralChar_of_dropWhile (isNumeralChar_of_exponent? hexponent)⟩
        · split at h
          · exact absurd h (by simp)
          · obtain ⟨exponent, hexponent, -⟩ := Option.map_eq_some_iff.mp h
            exact isNumeralChar_of_exponent? hexponent

theorem isNumeralChar_of_float? {s : List Char} {x : Float} (h : float? s = some x) :
    ∀ c ∈ s, isNumeralChar c = true := by
  obtain ⟨reading, hread, -⟩ := Option.map_eq_some_iff.mp h
  exact isNumeralChar_of_read? hread

theorem not_mem_of_float? {s : List Char} {x : Float} {c : Char} (h : float? s = some x)
    (hc : isNumeralChar c = false) : c ∉ s := by
  intro hmem
  rw [isNumeralChar_of_float? h c hmem] at hc
  exact absurd hc (by decide)

theorem ne_nil_of_float? {s : List Char} {x : Float} (h : float? s = some x) : s ≠ [] := by
  rintro rfl
  have hnone : float? [] = none := by decide
  rw [hnone] at h
  exact absurd h (by simp)

/-- There are no blanks around a numeral. -/
theorem trim_of_float? {s : List Char} {x : Float} (h : float? s = some x) : trim s = s :=
  trim_eq_self_of_ends
    (fun c hc => isBlank_of_isNumeralChar (isNumeralChar_of_float? h c (List.mem_of_head? hc)))
    (fun c hc => isBlank_of_isNumeralChar (isNumeralChar_of_float? h c (List.mem_of_getLast? hc)))

/-! ## Natural numbers and their digits -/

theorem digitsValue_toDigits (n : Nat) : digitsValue (Nat.toDigits 10 n) = n :=
  Nat.ofDigitChars_ten_toDigits

theorem isDigit_of_mem_toString {n : Nat} {c : Char} (h : c ∈ (toString n).toList) :
    c.isDigit = true := by
  rw [Nat.toString_eq_ofList_toDigits, String.toList_ofList] at h
  exact Nat.isDigit_of_mem_toDigits (by decide) (by decide) h

theorem natural?_toString (n : Nat) : natural? (toString n).toList = some n := by
  refine natural?_eq_some_iff.mpr ⟨?_, fun c => isDigit_of_mem_toString, ?_⟩
  · rw [Nat.toString_eq_ofList_toDigits, String.toList_ofList]
    exact Nat.toDigits_ne_nil
  · rw [Nat.toString_eq_ofList_toDigits, String.toList_ofList, digitsValue_toDigits]

theorem trim_toString (n : Nat) : trim (toString n).toList = (toString n).toList :=
  trim_eq_self_of_ends
    (fun _ hc => isBlank_of_isNumeralChar
      (isNumeralChar_of_isDigit (isDigit_of_mem_toString (List.mem_of_head? hc))))
    (fun _ hc => isBlank_of_isNumeralChar
      (isNumeralChar_of_isDigit (isDigit_of_mem_toString (List.mem_of_getLast? hc))))

/-- A natural number within the bound is read from its digits. -/
theorem natUpTo?_toString {bound n : Nat} (h : n ≤ bound) :
    natUpTo? bound (toString n).toList = some n := by
  unfold natUpTo?
  split
  · -- A plus sign may be read in front of a number, but none is written there.
    rename_i rest hplus
    have hdigit : Char.isDigit '+' = true :=
      @isDigit_of_mem_toString n _ (by rw [hplus]; exact List.mem_cons_self)
    exact absurd hdigit (by decide)
  · simp only [natural?_toString, Option.filter_some, h, decide_true, if_true]

theorem natUpTo?_le {bound n : Nat} {s : List Char} (h : natUpTo? bound s = some n) : n ≤ bound :=
  of_decide_eq_true (Option.filter_eq_some_iff.mp h).2

end MenuActions.Decimal
