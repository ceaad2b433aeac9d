import MenuActions.Value.Inventory
import MenuActions.Proofs.Decimal.Numerals

/-!
# Items given in some number

`give:<item>:<digits>`: the item may have colons and numbers of its own, so the number behind it is found
from the end.  Zero is refused.  A number beyond the largest amount is no amount, and then it stays where a
piece that is no number stays: in the name of the item, of which one is given.

`read?_give_number` says so for every item and every run of digits.  It rests on what the reader makes of
the last argument, which `splitAmount_concat` says for any arguments in front of it.
-/

namespace MenuActions

open Text

namespace Decimal

theorem trim_of_isDigit {s : List Char} (h : ∀ c ∈ s, c.isDigit = true) : trim s = s :=
  trim_eq_self_of_ends
    (fun c hc => isBlank_of_isNumeralChar (isNumeralChar_of_isDigit (h c (List.mem_of_head? hc))))
    (fun c hc => isBlank_of_isNumeralChar (isNumeralChar_of_isDigit (h c (List.mem_of_getLast? hc))))

/-- A run of digits denotes its value, unless the value is beyond the bound. -/
theorem natUpTo?_of_isDigit {bound : Nat} {s : List Char} (hne : s ≠ [])
    (h : ∀ c ∈ s, c.isDigit = true) :
    natUpTo? bound s = if digitsValue s ≤ bound then some (digitsValue s) else none := by
  have hnatural : natural? s = some (digitsValue s) := natural?_eq_some_iff.mpr ⟨hne, h, rfl⟩
  unfold natUpTo?
  split
  · -- A sign is no digit.
    exact absurd (h '+' List.mem_cons_self) (by decide)
  · simp only [hnatural, Option.filter_some, decide_eq_true_eq]

end Decimal

namespace InventoryOp

/-- The arguments of a value whose pieces have no blanks around them. -/
theorem arguments_eq_splitAll {value : List Char}
    (h : ∀ piece ∈ splitAll ':' value, trim piece = piece) :
    Grammar.arguments 0 value = splitAll ':' value :=
  calc (splitAll ':' value).map trim
    _ = (splitAll ':' value).map id := List.map_congr_left h
    _ = splitAll ':' value := List.map_id _

/-- The last argument is the amount if it is a number and an item stands in front of it. -/
theorem splitAmount_concat {items : List (List Char)} (last : List Char) (h : items ≠ []) :
    splitAmount (items ++ [last]) =
      match Decimal.natUpTo? maxAmount last with
      | some amount => (items, some amount)
      | none => (items ++ [last], none) := by
  have hlength : 2 ≤ (items ++ [last]).length := by
    have := List.length_pos_iff.mpr h
    rw [List.length_append, List.length_singleton]
    omega
  have hlast : (items ++ [last]).getLastD [] = last := by simp
  unfold splitAmount
  cases hamount : Decimal.natUpTo? maxAmount last with
  | none => simp only [hlength, if_true, hlast, hamount]
  | some amount => simp only [hlength, if_true, hlast, hamount, List.dropLast_concat]

/-- An operation on an item with some text behind it is read from its arguments. -/
theorem read?_splitAll {word item last : List Char} (hword : ':' ∉ word) (hlast : ':' ∉ last)
    (hpieces : ∀ piece ∈ splitAll ':' item, trim piece = piece)
    (htrim : trim word = word ∧ trim last = last) :
    read? (word ++ ':' :: (item ++ ':' :: last)) =
      match Decimal.natUpTo? maxAmount last with
      | some amount => ofParts (String.ofList (lower word)) (String.ofList item) (some amount)
      | none => ofParts (String.ofList (lower word)) (String.ofList (item ++ ':' :: last)) none := by
  have hsplit : splitAll ':' (word ++ ':' :: (item ++ ':' :: last)) =
      word :: (splitAll ':' item ++ [last]) := by
    rw [splitAll_append, splitAll_append, splitAll_of_not_mem hword, splitAll_of_not_mem hlast]
    rfl
  have harguments : Grammar.arguments 0 (word ++ ':' :: (item ++ ':' :: last)) =
      word :: (splitAll ':' item ++ [last]) := by
    rw [arguments_eq_splitAll, hsplit]
    rw [hsplit]
    intro piece hpiece
    simp only [List.mem_cons, List.mem_append, List.not_mem_nil, or_false] at hpiece
    rcases hpiece with rfl | hpiece | rfl
    · exact htrim.1
    · exact hpieces piece hpiece
    · exact htrim.2
  have hne : splitAll ':' item ≠ [] := by
    obtain ⟨piece, pieces, heq⟩ := splitAll_eq_cons ':' item
    rw [heq]
    exact List.cons_ne_nil _ _
  -- Without an amount the pieces are put together as they were split.
  have hjoin : joinWith [':'] (splitAll ':' item ++ [last]) = item ++ ':' :: last := by
    rw [← splitAll_of_not_mem hlast, ← splitAll_append, joinWith_splitAll]
  unfold read?
  simp only [harguments, splitAmount_concat last hne]
  cases Decimal.natUpTo? maxAmount last with
  | none => simp only [hjoin]
  | some amount => simp only [joinWith_splitAll]

/-- Giving an item with a run of digits behind it.  An amount from one to the largest is given of exactly
that item, and zero is refused.  A greater number is no amount: one item is given, and the digits are the
last piece of its name. -/
theorem read?_give_number (item digits : List Char) (hitem : item ≠ [])
    (hpieces : ∀ piece ∈ splitAll ':' item, trim piece = piece) (hne : digits ≠ [])
    (hdigits : ∀ c ∈ digits, c.isDigit = true) :
    read? ("give:".toList ++ item ++ ':' :: digits) =
      if Decimal.digitsValue digits = 0 then none
      else if Decimal.digitsValue digits ≤ maxAmount then
        some (.give (String.ofList item) (Decimal.digitsValue digits))
      else some (.give (String.ofList (item ++ ':' :: digits)) 1) := by
  have hcolon : ':' ∉ digits := fun hmem => absurd (hdigits ':' hmem) (by decide)
  have htext : "give:".toList ++ item ++ ':' :: digits =
      "give".toList ++ ':' :: (item ++ ':' :: digits) := by simp
  have hlower : String.ofList (lower "give".toList) = "give" := by decide
  rw [htext, read?_splitAll (by decide) hcolon hpieces
    ⟨by decide, Decimal.trim_of_isDigit hdigits⟩, Decimal.natUpTo?_of_isDigit hne hdigits, hlower]
  by_cases hbound : Decimal.digitsValue digits ≤ maxAmount
  · simp [ofParts, hbound, hitem]
  · have hzero : Decimal.digitsValue digits ≠ 0 := by
      intro hzero
      exact hbound (hzero ▸ Nat.zero_le _)
    simp [ofParts, hbound, hzero]

/-- The largest amount, of an item whose own pieces are numbers. -/
theorem read?_give_largest :
    read? "give:a:007:4294967295".toList = some (.give "a:007" 4294967295) :=
  read?_give_number "a:007".toList "4294967295".toList (by decide) (by decide) (by decide)
    (List.all_eq_true.mp (by decide))

/-- The number behind the largest amount becomes a part of the item. -/
theorem read?_give_beyond :
    Decimal.digitsValue "4294967296".toList = maxAmount + 1 ∧
      read? "give:diamond:4294967296".toList = some (.give "diamond:4294967296" 1) := by
  decide +kernel

end InventoryOp

end MenuActions
