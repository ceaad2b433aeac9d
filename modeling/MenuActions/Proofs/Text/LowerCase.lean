import MenuActions.Text.LetterCase
import MenuActions.Proofs.Text.Trimming
import Mathlib.Tactic.Common

/-!
# Lower case is lower case

Lower-casing a text that is in lower case leaves it as it is, and it makes no blank of another
character.  `lower_lower` and `trim_lower_trim` say so of whole texts.

Both come down to the table of letters.  `lowerRuns_apart` compares its runs with each other: what a run
makes of its letters lies outside every run, and it is no blank.  From there `isLower_lowerLetter` needs
arithmetic alone.
-/

namespace MenuActions.Text

/-! ## The table -/

/-- Whether a run of the table has a letter with this code. -/
def covers (n : Nat) (run : Nat × Nat × Nat × Int) : Bool :=
  run.1 ≤ n && n ≤ run.2.1 && (n - run.1) % run.2.2.1 == 0

/-- The codes of what a run makes of its first letter and of its last. -/
def image (run : Nat × Nat × Nat × Int) : Nat × Nat :=
  ((run.1 + run.2.2.2).toNat, (run.2.1 + run.2.2.2).toNat)

/-- Whether codes from `first` to `last`, every one or every second, lie outside a run: in front of it,
behind it, or between its letters. -/
def passesBy (first last : Nat) (sparse : Bool) (run : Nat × Nat × Nat × Int) : Bool :=
  Nat.blt last run.1 || (Nat.blt run.2.1 first ||
    (sparse && (Nat.beq run.2.2.1 2 && Nat.beq ((first + run.1) % 2) 1)))

/-- Codes that no lower-case letter has: those of capital letters with a rule of their own, those of
blanks, and those that no character has. -/
def avoidedRanges : List (Nat × Nat) :=
  [(0x41, 0x5A), (0x130, 0x130), (0x3A3, 0x3A3), (9, 13), (0x20, 0x20), (0x85, 0x85), (0xA0, 0xA0),
    (0x1680, 0x1680), (0x2000, 0x200A), (0x2028, 0x2029), (0x202F, 0x202F), (0x205F, 0x205F),
    (0x3000, 0x3000), (0xD800, 0xDFFF)]

/-- Whether codes from `first` to `last` lie outside a range. -/
def avoids (first last : Nat) (range : Nat × Nat) : Bool :=
  Nat.blt last range.1 || Nat.blt range.2 first

/-- Every run is compared with every other: what a run makes of its letters is no letter of any run. -/
theorem lowerRuns_apart : (lowerRuns.all fun run =>
    lowerRuns.all (passesBy (image run).1 (image run).2 (run.2.2.1 == 2 || run.1 == run.2.1)) &&
      avoidedRanges.all (avoids (image run).1 (image run).2) &&
      (decide (0 ≤ run.1 + run.2.2.2) && decide ((image run).2 < 0x110000))) = true := by
  decide +kernel

/-- A code that is neither a letter of the table nor one that lower-case letters avoid. -/
structure Plain (n : Nat) : Prop where
  lt : n < 0x110000
  not_covered : ∀ run ∈ lowerRuns, covers n run = false
  not_avoided : ∀ range ∈ avoidedRanges, n < range.1 ∨ range.2 < n

theorem Plain.isValidChar {n : Nat} (h : Plain n) : n.isValidChar := by
  have hlt := h.lt
  have hsurrogate := h.not_avoided (0xD800, 0xDFFF) (by decide)
  unfold Nat.isValidChar
  omega

/-- What a run makes of a letter. -/
theorem plain_of_covers {n : Nat} {run : Nat × Nat × Nat × Int} (hrun : run ∈ lowerRuns)
    (h : covers n run = true) : Plain (n + run.2.2.2).toNat := by
  obtain ⟨first, last, step, shift⟩ := run
  have happart := List.all_eq_true.mp lowerRuns_apart _ hrun
  simp only [image, Bool.and_eq_true, List.all_eq_true, decide_eq_true_eq] at happart
  obtain ⟨⟨hpasses, havoids⟩, hstart, hend⟩ := happart
  simp only [covers, Bool.and_eq_true, decide_eq_true_eq, beq_iff_eq] at h
  obtain ⟨⟨hfirst, hlast⟩, hstep⟩ := h
  have hend := of_decide_eq_true hend
  show Plain (n + shift).toNat
  refine ⟨by omega, fun other hother => ?_, fun range hrange => ?_⟩
  · have hpast := hpasses other hother
    obtain ⟨first', last', step', shift'⟩ := other
    simp only [passesBy, Bool.or_eq_true, Bool.and_eq_true, Nat.blt_eq, Nat.beq_eq, beq_iff_eq] at hpast
    rw [← Bool.not_eq_true]
    simp only [covers, Bool.and_eq_true, decide_eq_true_eq, beq_iff_eq]
    rintro ⟨⟨hfirst', hlast'⟩, hstep'⟩
    rcases hpast with hbefore | hbehind | ⟨hsparse, rfl, hodd⟩
    · omega
    · omega
    · rcases hsparse with rfl | rfl <;> omega
  · have hpast := havoids range hrange
    simp only [avoids, Bool.or_eq_true, Nat.blt_eq] at hpast
    omega

/-! ## Letters -/

/-- A character that lower-casing leaves as it is, wherever it stands. -/
def IsLower (c : Char) : Prop :=
  c ≠ 'Σ' ∧ lowerLetter c = [c]

instance (c : Char) : Decidable (IsLower c) :=
  inferInstanceAs (Decidable (_ ∧ _))

/-- The run of the table that a letter belongs to. -/
theorem lowerLetter_of_le {c : Char} (hascii : 0x80 ≤ c.toNat) (hdotted : c.toNat ≠ 0x130) :
    lowerLetter c =
      (lowerRuns.find? (covers c.toNat)).elim [c] fun run =>
        [Char.ofNat (c.toNat + run.2.2.2).toNat] := by
  rw [lowerLetter, if_neg (Nat.not_lt.mpr hascii), if_neg hdotted]
  extract_lets run
  have hrun : lowerRuns.find? (covers c.toNat) = run := rfl
  rw [hrun]
  cases run <;> rfl

/-- A capital letter of ASCII becomes a small one, and every other character stays. -/
theorem toLower_cases (c : Char) :
    (65 ≤ c.toNat ∧ c.toNat ≤ 90 ∧ c.toLower.toNat = c.toNat + 32) ∨
      (¬(65 ≤ c.toNat ∧ c.toNat ≤ 90) ∧ c.toLower = c) := by
  unfold Char.toLower
  have hA : 'A'.val.toNat = 65 := rfl
  have hZ : 'Z'.val.toNat = 90 := rfl
  have hshift : ('a'.val - 'A'.val).toNat = 32 := rfl
  have hval : c.val.toNat = c.toNat := rfl
  split
  case isTrue hupper =>
    simp only [ge_iff_le, UInt32.le_iff_toNat_le] at hupper
    have hsum : (c.val + ('a'.val - 'A'.val)).toNat = c.toNat + 32 := by
      rw [UInt32.toNat_add]
      omega
    exact Or.inl ⟨by omega, by omega, hsum⟩
  case isFalse hother =>
    simp only [ge_iff_le, UInt32.le_iff_toNat_le] at hother
    exact Or.inr ⟨by omega, rfl⟩

theorem toNat_ofNat {n : Nat} (h : n.isValidChar) : (Char.ofNat n).toNat = n := by
  unfold Char.ofNat
  rw [dif_pos h]
  rfl

/-- A character whose code the table leaves alone is in lower case, and no blank. -/
theorem isLower_of_plain {c : Char} (h : Plain c.toNat) : IsLower c ∧ isBlank c = false := by
  have havoids := fun first last hrange => h.not_avoided (first, last) hrange
  have hcapital := havoids 0x41 0x5A (by decide)
  have hdotted := havoids 0x130 0x130 (by decide)
  have hsigma := havoids 0x3A3 0x3A3 (by decide)
  have hnotSigma : c ≠ 'Σ' := by
    rintro rfl
    have hcode : 'Σ'.toNat = 0x3A3 := rfl
    omega
  have hlower : lowerLetter c = [c] := by
    by_cases hascii : c.toNat < 0x80
    · obtain ⟨hfirst, hlast, -⟩ | ⟨-, hsame⟩ := toLower_cases c
      · omega
      · rw [lowerLetter, if_pos hascii, hsame]
    · have hnone : lowerRuns.find? (covers c.toNat) = none :=
        List.find?_eq_none.mpr fun run hrun => by simp [h.not_covered run hrun]
      rw [lowerLetter_of_le (by omega) (by omega), hnone, Option.elim_none]
  refine ⟨⟨hnotSigma, hlower⟩, ?_⟩
  have h1 := havoids 9 13 (by decide)
  have h2 := havoids 0x20 0x20 (by decide)
  have h3 := havoids 0x85 0x85 (by decide)
  have h4 := havoids 0xA0 0xA0 (by decide)
  have h5 := havoids 0x1680 0x1680 (by decide)
  have h6 := havoids 0x2000 0x200A (by decide)
  have h7 := havoids 0x2028 0x2029 (by decide)
  have h8 := havoids 0x202F 0x202F (by decide)
  have h9 := havoids 0x205F 0x205F (by decide)
  have h10 := havoids 0x3000 0x3000 (by decide)
  rw [← Bool.not_eq_true]
  simp only [isBlank, Bool.or_eq_true, Bool.and_eq_true, decide_eq_true_eq, beq_iff_eq]
  omega

/-- What lower-casing makes of a letter is in lower case; and it is no blank, unless it is the letter
itself. -/
theorem isLower_lowerLetter {c d : Char} (hc : c ≠ 'Σ') (hd : d ∈ lowerLetter c) :
    IsLower d ∧ (isBlank d = true → d = c) := by
  by_cases hascii : c.toNat < 0x80
  · rw [lowerLetter, if_pos hascii, List.mem_singleton] at hd
    obtain ⟨hfirst, hlast, hcode⟩ | ⟨-, hsame⟩ := toLower_cases c
    · -- A small letter of ASCII stays, and has a code that no blank has.
      rw [← hd] at hcode
      have hdsame : d.toLower = d := by
        obtain ⟨-, hupper, -⟩ | ⟨-, hsame⟩ := toLower_cases d
        · omega
        · exact hsame
      have hdsigma : d ≠ 'Σ' := by
        rintro rfl
        have hsigma : 'Σ'.toNat = 0x3A3 := rfl
        omega
      refine ⟨⟨hdsigma, by rw [lowerLetter, if_pos (by omega), hdsame]⟩, fun hblank => ?_⟩
      simp only [isBlank, Bool.or_eq_true, Bool.and_eq_true, decide_eq_true_eq, beq_iff_eq] at hblank
      omega
    · rw [hd, hsame]
      exact ⟨⟨hc, by rw [lowerLetter, if_pos hascii, hsame]⟩, fun _ => rfl⟩
  · by_cases hdotted : c.toNat = 0x130
    · rw [lowerLetter, if_neg hascii, if_pos hdotted] at hd
      have hboth : (['i', Char.ofNat 0x307].all fun d =>
          decide (IsLower d ∧ isBlank d = false)) = true := by decide +kernel
      have hd := of_decide_eq_true (List.all_eq_true.mp hboth d hd)
      exact ⟨hd.1, fun h => by simp [hd.2] at h⟩
    · rw [lowerLetter_of_le (by omega) hdotted] at hd
      cases hrun : lowerRuns.find? (covers c.toNat) with
      | none =>
          simp only [hrun, Option.elim, List.mem_singleton] at hd
          subst hd
          have hsame : lowerLetter d = [d] := by
            rw [lowerLetter_of_le (by omega) hdotted, hrun, Option.elim_none]
          exact ⟨⟨hc, hsame⟩, fun _ => rfl⟩
      | some run =>
          simp only [hrun, Option.elim, List.mem_singleton] at hd
          have hplain := plain_of_covers (List.mem_of_find?_eq_some hrun) (List.find?_some hrun)
          have hcode : d.toNat = (c.toNat + run.2.2.2).toNat := by
            rw [hd, toNat_ofNat hplain.isValidChar]
          have hlower := isLower_of_plain (hcode ▸ hplain)
          exact ⟨hlower.1, fun h => by simp [hlower.2] at h⟩

/-! ## Texts -/

/-- What a letter becomes in its place: characters in lower case, and no blank unless it is one. -/
theorem exists_lowerAfter_cons (before rest : List Char) (c : Char) :
    ∃ front : List Char, lowerAfter before (c :: rest) = front ++ lowerAfter (c :: before) rest ∧
      front ≠ [] ∧ (∀ d ∈ front, IsLower d) ∧ (isBlank c = false → ∀ d ∈ front, isBlank d = false) := by
  by_cases hsigma : c = 'Σ'
  · refine ⟨[if meetsCased before && !(meetsCased rest) then 'ς' else 'σ'], ?_, by simp, ?_, ?_⟩
    · rw [lowerAfter, if_pos hsigma]
    · intro d hd
      rw [List.mem_singleton.mp hd]
      split <;> decide +kernel
    · intro _ d hd
      rw [List.mem_singleton.mp hd]
      split <;> decide
  · refine ⟨lowerLetter c, by rw [lowerAfter, if_neg hsigma], ?_, ?_, ?_⟩
    · by_cases hascii : c.toNat < 0x80
      · simp [lowerLetter, hascii]
      · by_cases hdotted : c.toNat = 0x130
        · simp [lowerLetter, hdotted]
        · rw [lowerLetter_of_le (by omega) hdotted]
          cases lowerRuns.find? (covers c.toNat) <;> simp
    · exact fun d hd => (isLower_lowerLetter hsigma hd).1
    · intro hc d hd
      by_contra hblank
      have hsame := (isLower_lowerLetter hsigma hd).2 (Bool.not_eq_false _ ▸ hblank)
      exact hblank (hsame ▸ hc)

/-- Every character of a lower-cased text is in lower case. -/
theorem isLower_of_mem_lowerAfter {d : Char} (before s : List Char) (h : d ∈ lowerAfter before s) :
    IsLower d := by
  induction s generalizing before with
  | nil => exact absurd h List.not_mem_nil
  | cons c rest ih =>
      obtain ⟨front, hfront, -, hlower, -⟩ := exists_lowerAfter_cons before rest c
      rw [hfront, List.mem_append] at h
      exact h.elim (hlower d) (ih (c :: before))

/-- Characters in lower case stay, whatever stands around them. -/
theorem lowerAfter_eq_self (before : List Char) {s : List Char} (h : ∀ c ∈ s, IsLower c) :
    lowerAfter before s = s := by
  induction s generalizing before with
  | nil => rfl
  | cons c rest ih =>
      obtain ⟨hc, hrest⟩ := List.forall_mem_cons.mp h
      rw [lowerAfter, if_neg hc.1, hc.2, ih (c :: before) hrest]
      rfl

/-- Lower-casing a second time changes nothing. -/
@[simp] theorem lower_lower (s : List Char) : lower (lower s) = lower s :=
  lowerAfter_eq_self [] fun _ hc => isLower_of_mem_lowerAfter [] s hc

theorem head?_lowerAfter (before : List Char) {s : List Char}
    (hs : ∀ c, s.head? = some c → isBlank c = false) {d : Char} (hd : (lowerAfter before s).head? = some d) : isBlank d = false := by
  cases s with
  | nil => cases hd
  | cons c rest =>
      obtain ⟨front, hfront, hne, -, hblank⟩ := exists_lowerAfter_cons before rest c
      rw [hfront, List.head?_append_of_ne_nil _ hne] at hd
      exact hblank (hs c rfl) d (List.mem_of_head? hd)

theorem getLast?_lowerAfter (before : List Char) {s : List Char}
    (hs : ∀ c, s.getLast? = some c → isBlank c = false) {d : Char}
    (hd : (lowerAfter before s).getLast? = some d) : isBlank d = false := by
  induction s generalizing before with
  | nil => cases hd
  | cons c rest ih =>
      obtain ⟨front, hfront, hne, -, hblank⟩ := exists_lowerAfter_cons before rest c
      rw [hfront] at hd
      cases rest with
      | nil =>
          rw [lowerAfter, List.append_nil] at hd
          exact hblank (hs c rfl) d (List.mem_of_getLast? hd)
      | cons next rest =>
          obtain ⟨front', hfront', hne', -, -⟩ := exists_lowerAfter_cons (c :: before) rest next
          refine ih (c :: before) (fun last hlast => hs last ?_) ?_
          · rwa [List.getLast?_cons_cons]
          · rwa [List.getLast?_append_of_ne_nil _ (by simp [hfront', hne'])] at hd

/-- Lower-casing a trimmed text leaves no blank to trim. -/
@[simp] theorem trim_lower_trim (s : List Char) : trim (lower (trim s)) = lower (trim s) :=
  trim_eq_self_of_ends (fun _ => head?_lowerAfter [] fun _ => head?_trim)
    fun _ => getLast?_lowerAfter [] fun _ => getLast?_trim

end MenuActions.Text
