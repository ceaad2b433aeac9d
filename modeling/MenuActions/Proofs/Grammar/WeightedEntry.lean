import MenuActions.Grammar.Weighted
import MenuActions.Proofs.Decimal.Numerals

/-!
# Entries with a weight and without

What an entry of a random choice is read as, for any check of actions.  `Carries` says of a text that it
is an action with a numeral behind it which could be its weight, and `Reads` which action and which weight
are read: the whole text with weight one when it carries no valid action, and that action otherwise.
`read?_eq_some_iff` says that the reader does just that.

A text carries an action only if it has two colons and ends in a numeral.  So an entry with more colons, or
one that ends with a closing brace or bracket, is an action of weight one as it stands.
-/

namespace MenuActions

open Text

namespace Decimal

/-- The closing brace and the closing bracket. -/
def IsClosing (c : Char) : Prop :=
  c = '}' ∨ c = ']'

/-- No numeral has a closing brace or bracket in it. -/
theorem IsClosing.isNumeralChar_eq {c : Char} (h : IsClosing c) : isNumeralChar c = false := by
  rcases h with rfl | rfl <;> decide

end Decimal

namespace Grammar.Weighted

/-- A text that is an action with one colon and, behind another colon, a numeral.  There are no blanks
around the action and any around the colon behind it. -/
structure Carries (text action : List Char) (weight : Float) : Prop where
  written : ∃ before after numeral, text = action ++ (before ++ ':' :: (after ++ numeral)) ∧
    (∀ c ∈ before, isBlank c = true) ∧ (∀ c ∈ after, isBlank c = true) ∧
      Decimal.float? numeral = some weight
  trimmed : trim action = action
  colon : action.count ':' = 1

theorem not_mem_of_blank {s : List Char} {c : Char} (hs : ∀ a ∈ s, isBlank a = true)
    (hc : isBlank c = false) : c ∉ s := by
  intro hmem
  rw [hs c hmem] at hc
  exact absurd hc (by decide)

namespace Carries

variable {text action : List Char} {weight : Float}

theorem count_eq (h : Carries text action weight) : text.count ':' = 2 := by
  obtain ⟨before, after, numeral, rfl, hbefore, hafter, hnumeral⟩ := h.written
  have hfirst : before.count ':' = 0 :=
    List.count_eq_zero.mpr (not_mem_of_blank hbefore (by decide))
  have hsecond : after.count ':' = 0 := List.count_eq_zero.mpr (not_mem_of_blank hafter (by decide))
  have hthird : numeral.count ':' = 0 :=
    List.count_eq_zero.mpr (Decimal.not_mem_of_float? hnumeral (by decide))
  simp only [List.count_append, List.count_cons_self, h.colon, hfirst, hsecond, hthird]

/-- The last colon of the text is the one behind the action. -/
theorem exists_cut (h : Carries text action weight) :
    ∃ front tail, splitLast ':' text = some (front, tail) ∧ trim front = action ∧
      Decimal.float? (trim tail) = some weight := by
  obtain ⟨before, after, numeral, rfl, hbefore, hafter, hnumeral⟩ := h.written
  have hbehind : ':' ∉ after ++ numeral := fun hmem =>
    (List.mem_append.mp hmem).elim (not_mem_of_blank hafter (by decide))
      (Decimal.not_mem_of_float? hnumeral (by decide))
  refine ⟨action ++ before, after ++ numeral, ?_, ?_, ?_⟩
  · rw [← List.append_assoc, splitLast_append_cons hbehind]
  · have hblank := @trim_append_of_blank [] action before (List.forall_mem_nil _) hbefore
    rwa [h.trimmed] at hblank
  · have hblank := @trim_append_of_blank after numeral [] hafter (List.forall_mem_nil _)
    rw [List.append_nil, Decimal.trim_of_float? hnumeral] at hblank
    rw [hblank, hnumeral]

/-- The action is what stands in front of the last colon. -/
theorem action_eq {front tail : List Char} (h : Carries text action weight)
    (htext : text = front ++ ':' :: tail) (htail : ':' ∉ tail) : action = trim front := by
  obtain ⟨before, behind, hcut, haction, -⟩ := h.exists_cut
  rw [splitLast_eq_some_iff.mpr ⟨htext, htail⟩, Option.some.injEq, Prod.mk.injEq] at hcut
  rw [hcut.1, haction]

/-- The text ends with the last character of the numeral. -/
theorem isNumeralChar_of_getLast? (h : Carries text action weight) {c : Char}
    (hlast : text.getLast? = some c) : Decimal.isNumeralChar c = true := by
  obtain ⟨before, after, numeral, rfl, -, -, hnumeral⟩ := h.written
  obtain ⟨front, last, rfl⟩ :=
    (List.eq_nil_or_concat' numeral).resolve_left (Decimal.ne_nil_of_float? hnumeral)
  have hsplit : action ++ (before ++ ':' :: (after ++ (front ++ [last]))) =
      (action ++ before ++ ':' :: after ++ front) ++ [last] := by simp
  rw [hsplit, List.getLast?_concat, Option.some.injEq] at hlast
  exact Decimal.isNumeralChar_of_float? hnumeral c (by simp [hlast])

theorem ne_nil (h : Carries text action weight) : text ≠ [] := by
  rintro rfl
  exact absurd h.count_eq (by decide)

end Carries

/-! ## The reader looks for such an action -/

theorem candidate?_eq_some_iff {text action : List Char} {weight : Float} (htrim : trim text = text) :
    candidate? text = some (action, weight) ↔ Carries text action weight := by
  unfold candidate? trailingNumber?
  rw [Option.filter_eq_some_iff, Option.bind_eq_some_iff]
  constructor
  · rintro ⟨⟨⟨front, tail⟩, hsplit, hread⟩, hcount⟩
    obtain ⟨number, hnumber, hparts⟩ := Option.map_eq_some_iff.mp hread
    obtain ⟨rfl, rfl⟩ := Prod.mk.inj hparts
    obtain ⟨rfl, -⟩ := splitLast_eq_some_iff.mp hsplit
    -- The text is trimmed, so the only blanks that are dropped are those around the colon.
    obtain ⟨before, hfront, hbefore⟩ := exists_blank_behind_trim fun c (hc : front.head? = some c) =>
      head_of_trim_eq_self htrim c (by rw [List.head?_append, hc, Option.some_or])
    obtain ⟨after, htail, hafter⟩ := exists_blank_before_trim fun c (hc : tail.getLast? = some c) =>
      last_of_trim_eq_self htrim c (by
        rw [List.getLast?_append, List.getLast?_cons, hc, Option.getD_some, Option.some_or])
    refine ⟨⟨before, after, trim tail, ?_, hbefore, hafter, hnumber⟩, trim_trim front,
      beq_iff_eq.mp hcount⟩
    rw [← htail, ← List.append_assoc, ← hfront]
  · intro h
    obtain ⟨front, tail, hcut, haction, hnumber⟩ := h.exists_cut
    refine ⟨⟨(front, tail), hcut, ?_⟩, by simp only [h.colon, beq_self_eq_true]⟩
    simp only [haction, hnumber, Option.map_some]

section Read

variable {isValid : String → Bool} {entry : List Char}

theorem read?_of_blank (h : trim entry = []) : read? isValid entry = none := by
  unfold read?
  rw [h]
  rfl

/-- A text that carries no valid action is an action itself. -/
theorem read?_whole (hne : trim entry ≠ [])
    (hinvalid : ∀ action weight, Carries (trim entry) action weight →
      isValid (String.ofList action) = false) :
    read? isValid entry = some ⟨String.ofList (trim entry), 1.0⟩ := by
  unfold read?
  dsimp only
  rw [if_neg (by simpa using hne)]
  cases hfound : candidate? (trim entry) with
  | none => rfl
  | some found =>
      obtain ⟨action, weight⟩ := found
      have hcarries := (candidate?_eq_some_iff (trim_trim entry)).mp hfound
      simp only [hinvalid action weight hcarries, Bool.false_eq_true, if_false]

/-- A valid action that the text carries is read with the number behind it, if that can be a weight. -/
theorem read?_of_carries {action : List Char} {weight : Float}
    (hcarries : Carries (trim entry) action weight) (hvalid : isValid (String.ofList action) = true) :
    read? isValid entry =
      if weight > 0.0 && weight.isFinite then some ⟨String.ofList action, weight⟩ else none := by
  unfold read?
  dsimp only
  rw [if_neg (by simpa using hcarries.ne_nil),
    (candidate?_eq_some_iff (trim_trim entry)).mpr hcarries]
  simp only [hvalid, if_true]

/-- What a trimmed text is read as, when it is read at all. -/
inductive Reads (isValid : String → Bool) (text : List Char) : Weighted → Prop
  | whole (hne : text ≠ [])
      (hinvalid : ∀ action weight, Carries text action weight →
        isValid (String.ofList action) = false) :
      Reads isValid text ⟨String.ofList text, 1.0⟩
  | weighted {action : List Char} {weight : Float} (hcarries : Carries text action weight)
      (hvalid : isValid (String.ofList action) = true) (hpositive : weight > 0.0)
      (hfinite : weight.isFinite = true) : Reads isValid text ⟨String.ofList action, weight⟩

/-- An entry is read as its trimmed text says. -/
theorem read?_eq_some_iff {read : Weighted} :
    read? isValid entry = some read ↔ Reads isValid (trim entry) read := by
  constructor
  · intro h
    by_cases hblank : trim entry = []
    · rw [read?_of_blank hblank] at h
      exact absurd h (by simp)
    -- A number behind a text that is no valid action is an argument, and the whole text is taken.
    by_cases hvalid : ∃ action weight, Carries (trim entry) action weight ∧
        isValid (String.ofList action) = true
    · obtain ⟨action, weight, hcarries, hvalid⟩ := hvalid
      rw [read?_of_carries hcarries hvalid] at h
      split at h
      · rename_i hweight
        obtain ⟨hpositive, hfinite⟩ := Bool.and_eq_true_iff.mp hweight
        obtain rfl := Option.some.inj h
        exact .weighted hcarries hvalid (of_decide_eq_true hpositive) hfinite
      · exact absurd h (by simp)
    · have hinvalid : ∀ action weight, Carries (trim entry) action weight →
          isValid (String.ofList action) = false := by
        intro action weight hcarries
        rw [Bool.eq_false_iff]
        exact fun htrue => hvalid ⟨action, weight, hcarries, htrue⟩
      rw [read?_whole hblank hinvalid] at h
      obtain rfl := Option.some.inj h
      exact .whole hblank hinvalid
  · intro h
    cases h with
    | whole hne hinvalid => exact read?_whole hne hinvalid
    | weighted hcarries hvalid hpositive hfinite =>
        rw [read?_of_carries hcarries hvalid, hfinite, decide_eq_true hpositive]
        rfl

/-- A text that ends with a closing brace or bracket carries no action, so it is one of weight one. -/
theorem read?_of_closing {c : Char} (htrim : trim entry = entry) (hlast : entry.getLast? = some c)
    (hc : Decimal.IsClosing c) : read? isValid entry = some ⟨String.ofList entry, 1.0⟩ := by
  have hne : trim entry ≠ [] := by
    rw [htrim]
    rintro rfl
    exact absurd hlast (by simp)
  rw [read?_whole hne, htrim]
  intro action weight hcarries
  rw [htrim] at hcarries
  have hnumeral := hcarries.isNumeralChar_of_getLast? hlast
  rw [hc.isNumeralChar_eq] at hnumeral
  exact absurd hnumeral (by decide)

/-- An entry with more than two colons is an action of weight one. -/
theorem read?_of_count (h : 2 < entry.count ':') :
    read? isValid entry = some ⟨String.ofList (trim entry), 1.0⟩ := by
  have hcount : (trim entry).count ':' = entry.count ':' := by
    obtain ⟨front, back, hsplit, hfront, hback⟩ := exists_blank_of_trim entry
    have hbefore : front.count ':' = 0 :=
      List.count_eq_zero.mpr (not_mem_of_blank hfront (by decide))
    have hbehind : back.count ':' = 0 := List.count_eq_zero.mpr (not_mem_of_blank hback (by decide))
    conv_rhs => rw [hsplit]
    rw [List.count_append, List.count_append, hbefore, hbehind, Nat.zero_add, Nat.add_zero]
  refine read?_whole (fun hnil => ?_) fun action weight hcarries => ?_
  · rw [hnil, List.count_nil] at hcount
    omega
  · have htwo := hcarries.count_eq
    omega

/-- A text of more than three pieces with colons between them is an action of weight one. -/
theorem read?_of_pieces {pieces : List (List Char)} (h : 3 < pieces.length) :
    read? isValid (joinWith [':'] pieces) = some ⟨String.ofList (trim (joinWith [':'] pieces)), 1.0⟩ := by
  have hcolons := length_le_count_joinWith ':' pieces
  exact read?_of_count (by omega)

end Read

end Grammar.Weighted

end MenuActions
