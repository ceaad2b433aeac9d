import MenuActions.Proofs.Grammar.ConditionalRoundTrip
import MenuActions.Proofs.Grammar.ConditionRoundTrip
import MenuActions.Proofs.Grammar.ErrorPosition

/-!
# Errors of readers that call readers

The readers of an action's values and of a conditional action cut their text to pieces and let other
readers go through the pieces.  Their errors are passed on as they are, so a position counts from the
start of the piece and not of the text.

`error_pointsInto_piece` says for each error which piece that is.  For values it is the text without the
blanks in front of it; for a conditional action it is this text too, or the text of a branch behind its
keyword, and what stands between the condition and the branches is reported where the blanks in front of
it begin.  So a position is exact where nothing was cut off, and `readValues_error_short` is a text with
two blanks in front for which it is short by two.
-/

namespace MenuActions.Grammar

open Text TopLevel

/-! ## Text behind the piece -/

/-- Blanks behind a text change nothing about what an error says of it. -/
theorem ParseError.PointsInto.append {text blanks : List Char} {error : ParseError}
    (h : error.PointsInto text) (hblanks : ∀ c ∈ blanks, isBlank c = true) :
    error.PointsInto (text ++ blanks) := by
  have hquote : '"' ∉ blanks := fun hmem => absurd (hblanks _ hmem) (by decide)
  cases error with
  | unterminatedQuote position =>
      obtain ⟨rest, hbegins, hdecode⟩ := h
      exact ⟨rest ++ blanks, hbegins.append blanks, decode_append_eq_none hdecode hquote⟩
  | unclosed closer position =>
      obtain ⟨before, opener, rest, rfl, hposition, hopener, hpair⟩ := h
      exact ⟨before, opener, rest ++ blanks, by simp, hposition, hopener, hpair⟩
  | unexpected found position expected =>
      obtain ⟨rest, hbegins⟩ := h
      exact ⟨rest ++ blanks, hbegins.append blanks⟩
  | unexpectedEnd expected => trivial
  | invalidCondition expression reason => trivial
  | missingKeyword keyword => trivial

theorem ParseError.PointsInto.of_trim {text : List Char} {error : ParseError}
    (h : error.PointsInto (trim text)) : error.PointsInto (trimStart text) := by
  obtain ⟨blanks, hsplit, hblanks⟩ := exists_blank_of_trimEnd (trimStart text)
  rw [hsplit]
  exact h.append hblanks

/-! ## Values -/

theorem readValues_error_pointsInto {type text : List Char} {error : ParseError}
    (h : readValues type text = .error error) : error.PointsInto (trim text) := by
  unfold readValues at h
  dsimp only at h
  split at h
  · exact absurd h (by simp)
  · split at h
    · exact Block.pointsInto_of_values_error h
    · split at h
      · exact BracketList.pointsInto_of_values_error h
      · exact absurd h (by simp)

/-! ## Keywords and branches -/

theorem error_of_map {α β : Type} {read : Except ParseError α} {f : α → β} {error : ParseError}
    (h : read.map f = .error error) : read = .error error := by
  cases read with
  | error found => exact congrArg Except.error (Except.error.inj h)
  | ok found => exact absurd h (by simp [Except.map])

theorem error_of_binds {α β γ : Type} {first : Except ParseError α} {second : Except ParseError β}
    {add : α → β → γ} {error : ParseError}
    (h : (do let a ← first; let b ← second; return add a b) = Except.error error) :
    first = .error error ∨ second = .error error := by
  cases first with
  | error found => exact .inl (congrArg Except.error (Except.error.inj h))
  | ok found => exact .inr (error_of_bind h)

/-- What is found behind a keyword stands behind the keyword as it was written. -/
theorem afterKeyword_eq_some {keyword text after : List Char}
    (h : afterKeyword keyword text = some after) :
    ∃ written, text = written ++ after ∧ sameIgnoringCase written keyword = true := by
  induction keyword generalizing text with
  | nil =>
      obtain rfl : text = after := by simpa [afterKeyword] using h
      exact ⟨[], rfl, rfl⟩
  | cons k keyword ih =>
      cases text with
      | nil => exact absurd h (by simp [afterKeyword])
      | cons c text =>
          rw [afterKeyword] at h
          split at h
          case isTrue hsame =>
              obtain ⟨written, rfl, hwritten⟩ := ih h
              refine ⟨c :: written, rfl, ?_⟩
              simpa [sameIgnoringCase, hsame] using hwritten
          case isFalse => exact absurd h (by simp)

theorem findKeyword_eq_some {keywords : List (List Char)} {scan : Scan}
    {text before keyword after : List Char}
    (h : findKeyword keywords scan text = some (before, keyword, after)) :
    ∃ written, text = before ++ (written ++ after) ∧ keyword ∈ keywords ∧
      sameIgnoringCase written keyword = true := by
  induction text generalizing scan before with
  | nil => exact absurd h (by simp [findKeyword])
  | cons c rest ih =>
      rw [findKeyword] at h
      split at h
      case h_1 found behind hhere =>
          obtain ⟨rfl, rfl, rfl⟩ : [] = before ∧ found = keyword ∧ behind = after := by simpa using h
          split at hhere
          case isTrue =>
              obtain ⟨other, hmem, hother⟩ := List.exists_of_findSome?_eq_some hhere
              obtain ⟨_, hafter, heq⟩ := Option.map_eq_some_iff.mp hother
              obtain ⟨rfl, rfl⟩ := Prod.mk.inj heq
              obtain ⟨written, htext, hsame⟩ := afterKeyword_eq_some hafter
              exact ⟨written, htext, hmem, hsame⟩
          case isFalse => exact absurd hhere (by simp)
      case h_2 =>
          obtain ⟨⟨front, found, behind⟩, hlater, heq⟩ := Option.map_eq_some_iff.mp h
          obtain ⟨rfl, rfl, rfl⟩ : c :: front = before ∧ found = keyword ∧ behind = after := by
            simpa using heq
          obtain ⟨written, rfl, hmem, hsame⟩ := ih hlater
          exact ⟨written, rfl, hmem, hsame⟩

namespace Conditional

/-- A part of a text that stands behind one of the two keywords. -/
def BehindKeyword (text branch : List Char) : Prop :=
  ∃ before written back, text = before ++ (written ++ (branch ++ back)) ∧
    ∃ keyword ∈ [trueKeyword, falseKeyword], sameIgnoringCase written keyword = true

/-- The piece of a conditional action that an error points into. -/
inductive ErrorIn (text : List Char) : ParseError → Prop
  | unplaced {error : ParseError} : (∀ whole, error.PointsInto whole) → ErrorIn text error
  | condition {position : Nat} : (ParseError.unterminatedQuote position).PointsInto text →
      ErrorIn text (.unterminatedQuote position)
  | branch {error : ParseError} {branch : List Char} :
      BehindKeyword text branch → error.PointsInto (trimStart branch) → ErrorIn text error
  | between {found : Char} {front blanks rest : List Char} :
      text = front ++ (blanks ++ found :: rest) → (∀ c ∈ blanks, isBlank c = true) →
        ErrorIn text (.unexpected found (byteLength front) .branchKeyword)

section Reader

variable {text : List Char} {error : ParseError}

/-- The errors of a condition carry no position. -/
theorem pointsInto_of_expression {source : List Char} (h : Expression.read source = .error error)
    (text : List Char) : error.PointsInto text := by
  rw [Expression.read_eq] at h
  cases hread : Expression.readPieces (Expression.splitTerms false source) with
  | error found =>
      rw [hread] at h
      obtain rfl := Except.error.inj h
      trivial
  | ok expression =>
      rw [hread] at h
      exact absurd h (by simp [Except.mapError])

theorem ErrorIn.append {blanks : List Char} (h : ErrorIn text error)
    (hblanks : ∀ c ∈ blanks, isBlank c = true) : ErrorIn (text ++ blanks) error := by
  cases h with
  | unplaced hpoints => exact .unplaced hpoints
  | condition hpoints => exact .condition (hpoints.append hblanks)
  | branch hbehind hpoints =>
      obtain ⟨before, written, back, rfl, hkeyword⟩ := hbehind
      exact .branch ⟨before, written, back ++ blanks, by simp, hkeyword⟩ hpoints
  | between htext hspace =>
      rename_i found front space rest
      have hmore : text ++ blanks = front ++ (space ++ found :: (rest ++ blanks)) := by
        simp [htext]
      exact .between hmore hspace

theorem readBranch_error_pointsInto {branch : List Char} (h : readBranch branch = .error error) :
    error.PointsInto (trimStart branch) := by
  refine ParseError.PointsInto.of_trim ?_
  unfold readBranch at h
  dsimp only at h
  split at h
  · exact absurd h (by simp [Except.map])
  · split at h
    · exact absurd h (by simp [Except.map])
    · split at h
      · exact BracketList.pointsInto_of_values_error (error_of_map h)
      · have hpoints := readValues_error_pointsInto (error_of_map h)
        rwa [trim_trim] at hpoints
      · exact absurd h (by simp [Except.map])

section Branches

variable {before written keyword after : List Char} (htext : text = before ++ (written ++ after))
  (hkeyword : keyword ∈ [trueKeyword, falseKeyword])
  (hwritten : sameIgnoringCase written keyword = true)

include htext hkeyword hwritten

theorem behindKeyword_last : BehindKeyword text after :=
  ⟨before, written, [], by simpa using htext, keyword, hkeyword, hwritten⟩

/-- The two keywords cut a text into two branches. -/
theorem behindKeyword_both {scan : Scan} {other found mine : List Char} {keywords : List (List Char)}
    (hkeywords : ∀ k ∈ keywords, k ∈ [trueKeyword, falseKeyword])
    (h : findKeyword keywords scan after = some (mine, found, other)) :
    BehindKeyword text mine ∧ BehindKeyword text other := by
  obtain ⟨second, rfl, hfound, hsecond⟩ := findKeyword_eq_some h
  exact ⟨⟨before, written, second ++ other, htext, keyword, hkeyword, hwritten⟩,
    ⟨before ++ (written ++ mine), second, [], by simp [htext], found, hkeywords found hfound,
      hsecond⟩⟩

/-- An error of the branches is an error of one of them, and points into the text behind its
keyword. -/
theorem readBranches_error (h : readBranches keyword after = .error error) : ErrorIn text error := by
  unfold readBranches at h
  split at h <;> split at h
  · rename_i mine found other hfound
    obtain ⟨hmine, hother⟩ := behindKeyword_both htext hkeyword hwritten (by simp) hfound
    rcases error_of_binds h with h | h
    · exact .branch hmine (readBranch_error_pointsInto h)
    · exact .branch hother (readBranch_error_pointsInto h)
  · exact .branch (behindKeyword_last htext hkeyword hwritten)
      (readBranch_error_pointsInto (error_of_bind h))
  · rename_i mine found other hfound
    obtain ⟨hmine, hother⟩ := behindKeyword_both htext hkeyword hwritten (by simp) hfound
    rcases error_of_binds h with h | h
    · exact .branch hother (readBranch_error_pointsInto h)
    · exact .branch hmine (readBranch_error_pointsInto h)
  · exact .branch (behindKeyword_last htext hkeyword hwritten)
      (readBranch_error_pointsInto (error_of_bind h))

end Branches

/-- An error of what follows a condition.  The position handed on is that of the text behind the
condition. -/
theorem readTail_error {source front tail : List Char} {previous : Char}
    (h : readTail source previous (byteLength front) tail = .error error) :
    ErrorIn (front ++ tail) error := by
  unfold readTail at h
  cases hexpression : Expression.read source with
  | error found =>
      rw [hexpression] at h
      obtain rfl : found = error := Except.error.inj h
      exact .unplaced (pointsInto_of_expression hexpression)
  | ok expression =>
      rw [hexpression] at h
      simp only [bind, Except.bind] at h
      split at h
      case h_1 =>
          obtain rfl := Except.error.inj h
          exact .unplaced fun _ => trivial
      case h_2 between keyword after hfound =>
          obtain ⟨written, rfl, hkeyword, hwritten⟩ := findKeyword_eq_some hfound
          split at h
          case h_1 found hbranches =>
              obtain rfl : found = error := Except.error.inj h
              have htext : front ++ (between ++ (written ++ after)) =
                  (front ++ between) ++ (written ++ after) := by simp
              exact readBranches_error htext hkeyword hwritten hbranches
          case h_2 =>
              split at h
              case h_1 found rest hbetween =>
                  obtain rfl := Except.error.inj h
                  obtain ⟨blanks, rfl, hblanks, -⟩ := dropWhile_eq_cons hbetween
                  have htext : front ++ ((blanks ++ found :: rest) ++ (written ++ after)) =
                      front ++ (blanks ++ found :: (rest ++ (written ++ after))) := by simp
                  exact .between htext hblanks
              case h_2 => exact absurd h (by simp [pure, Except.pure])

/-- What is left of a text begins where the text in front of it ends. -/
theorem offsetIn_append (front tail : List Char) :
    offsetIn (byteLength (front ++ tail)) tail = byteLength front := by
  rw [offsetIn, byteLength_append]
  omega

theorem readTail_suffix {whole source tail : List Char} {previous : Char} (htail : tail <:+ whole)
    (h : readTail source previous (offsetIn (byteLength whole) tail) tail = .error error) :
    ErrorIn whole error := by
  obtain ⟨front, rfl⟩ := htail
  rw [offsetIn_append] at h
  exact readTail_error h

theorem suffix_splitBare (previous : Char) (bare : List Char) :
    (splitBare previous bare).2 <:+ bare := by
  unfold splitBare
  split
  · exact List.drop_suffix _ _
  · exact List.nil_suffix

theorem read_error (h : read text = .error error) : ErrorIn (trim text) error := by
  unfold read at h
  dsimp only at h
  split at h
  case h_1 =>
      obtain rfl := Except.error.inj h
      exact .unplaced fun _ => trivial
  case h_2 rest hcheck =>
      obtain ⟨check, htext, -⟩ := afterKeyword_eq_some hcheck
      rw [htext] at h ⊢
      split at h
      case h_1 quoted hstart =>
          have hquoted : '"' :: quoted <:+ check ++ rest :=
            suffix_of_dropWhile hstart (List.suffix_append check rest)
          split at h
          case h_1 hdecode =>
              obtain rfl := Except.error.inj h
              have hpoints : (ParseError.unterminatedQuote _).PointsInto ([] ++ (_ ++ [])) :=
                pointsInto_of_decode hquoted (by simp) hdecode
              exact .condition (by simpa using hpoints)
          case h_2 source tail hdecode =>
              have htail : tail <:+ check ++ rest :=
                (suffix_of_decode hdecode).trans ((List.suffix_cons '"' quoted).trans hquoted)
              exact readTail_suffix htail h
      case h_2 =>
          have htail : ∀ previous, (splitBare previous (trimStart rest)).2 <:+ check ++ rest :=
            fun previous => (suffix_splitBare previous _).trans
              ((List.dropWhile_suffix isBlank).trans (List.suffix_append check rest))
          exact readTail_suffix (htail _) h

end Reader

end Conditional

/-- An error of the values of an action points into the text behind the blanks in front, and an error of
a conditional action into this text or a piece of it. -/
theorem error_pointsInto_piece (type text : List Char) (error : ParseError) :
    (readValues type text = .error error → error.PointsInto (trimStart text)) ∧
      (Conditional.read text = .error error → Conditional.ErrorIn (trimStart text) error) := by
  refine ⟨fun h => (readValues_error_pointsInto h).of_trim, fun h => ?_⟩
  obtain ⟨blanks, hsplit, hblanks⟩ := exists_blank_of_trimEnd (trimStart text)
  rw [hsplit]
  exact (Conditional.read_error h).append hblanks

/-- A list in a branch that is not closed is reported at the start of the branch, not of the text. -/
theorem error_pointsInto_branch :
    Conditional.read "check:\"permission:a\" true: [ \"x".toList = .error (.unclosed ']' 0) ∧
      Conditional.ErrorIn (trimStart "check:\"permission:a\" true: [ \"x".toList) (.unclosed ']' 0) := by
  have h : Conditional.read "check:\"permission:a\" true: [ \"x".toList =
      .error (.unclosed ']' 0) := by
    decide +kernel
  exact ⟨h, (error_pointsInto_piece [] _ _).2 h⟩

/-- With two blanks in front of a block, the position of the character that was found is short by two. -/
theorem readValues_error_short :
    readValues "message".toList "  \x7b - \"a\" x \x7d".toList = .error (.unexpected 'x' 8 .dash) ∧
      BeginsAt "  \x7b - \"a\" x \x7d".toList 10 "x \x7d".toList ∧
      ¬(ParseError.unexpected 'x' 8 .dash).PointsInto "  \x7b - \"a\" x \x7d".toList := by
  refine ⟨by decide +kernel, ⟨"  \x7b - \"a\" ".toList, rfl, rfl⟩, ?_⟩
  rintro ⟨rest, hbegins⟩
  have hquote : BeginsAt "  \x7b - \"a\" x \x7d".toList 8 "\" x \x7d".toList :=
    ⟨"  \x7b - \"a".toList, rfl, rfl⟩
  exact absurd (hbegins.unique hquote) (by simp)

end MenuActions.Grammar
