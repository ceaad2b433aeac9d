import MenuActions.Grammar.Conditional
import MenuActions.Proofs.Grammar.KeywordScan
import MenuActions.Proofs.Grammar.MixedList

/-!
# Branches in quotes

The actions of a branch can be written as a bracket list or as a block without a name, each action in
quotes and blanks anywhere between them.  A branch that is written in this way is read back without loss
(`readBranch_write`), and the search for a keyword passes over it (`findKeyword_write`), whatever the
actions are: they may themselves hold keywords, brackets, quotes and colons.

Both are inductions over the actions, of which the one for reading a list is
`MixedList.readItems_write`.  `Inside` says of a part of the text that the search, once it is within
brackets, stays there; the parts compose.
-/

namespace MenuActions.Grammar

open Text TopLevel

/-- A value in quotes, with the blanks in front of it and behind it. -/
structure SpacedValue where
  front : List Char
  value : List Char
  back : List Char

/-- The text of a value in quotes and its blanks. -/
def SpacedValue.write (item : SpacedValue) : List Char :=
  item.front ++ (Quoted.encode item.value ++ item.back)

/-- The two ways to write the actions of a branch in quotes, with the blanks behind the bracket or brace
that opens them. -/
inductive BranchText
  | list (opening : List Char) (items : List SpacedValue)
  | block (opening : List Char) (items : List SpacedValue)

namespace BranchText

/-- The actions of a branch. -/
def values : BranchText → List (List Char)
  | list _ items => items.map SpacedValue.value
  | block _ items => items.map SpacedValue.value

/-- Quoted values, each behind a dash. -/
def writeDashed (items : List SpacedValue) : List Char :=
  items.flatMap fun item => '-' :: item.write

/-- Quoted values with commas between them. -/
def writeListed (items : List SpacedValue) : List Char :=
  joinWith [','] (items.map SpacedValue.write)

/-- The text of a branch. -/
def write : BranchText → List Char
  | list opening items => '[' :: ((opening ++ writeListed items) ++ [']'])
  | block opening items => '{' :: ((opening ++ writeDashed items) ++ ['}'])

/-- The bracket or brace that closes a branch. -/
def closer : BranchText → Char
  | list _ _ => ']'
  | block _ _ => '}'

/-- Blanks stand between the values; behind a dash they do not end the line. -/
def WellSpaced : BranchText → Prop
  | list opening items =>
      (∀ c ∈ opening, isBlank c = true) ∧
        ∀ item ∈ items, (∀ c ∈ item.front, isBlank c = true) ∧ ∀ c ∈ item.back, isBlank c = true
  | block opening items =>
      (∀ c ∈ opening, isBlank c = true) ∧
        ∀ item ∈ items, (∀ c ∈ item.front, isInlineBlank c = true) ∧
          ∀ c ∈ item.back, isBlank c = true

instance : (text : BranchText) → Decidable text.WellSpaced
  | list opening items =>
      decidable_of_iff (opening.all isBlank = true ∧
        ∀ item ∈ items, item.front.all isBlank = true ∧ item.back.all isBlank = true) (by
          simp only [List.all_eq_true, WellSpaced])
  | block opening items =>
      decidable_of_iff (opening.all isBlank = true ∧
        ∀ item ∈ items, item.front.all isInlineBlank = true ∧ item.back.all isBlank = true) (by
          simp only [List.all_eq_true, WellSpaced])

/-! ## Reading a branch back -/

theorem writeListed_cons (item next : SpacedValue) (items : List SpacedValue) :
    writeListed (item :: next :: items) = item.write ++ ',' :: writeListed (next :: items) := by
  simp [writeListed, joinWith]

theorem write_append (item : SpacedValue) (rest : List Char) :
    item.write ++ rest =
      item.front ++ '"' :: (Quoted.escape item.value ++ '"' :: (item.back ++ rest)) := by
  simp [SpacedValue.write, Quoted.encode]

theorem readItems_writeDashed {body : List Char} {offset : List Char → Nat}
    {items : List SpacedValue} (hitems : (block [] items).WellSpaced) :
    ∀ gap : List Char, (∀ c ∈ gap, isBlank c = true) →
      Block.readItems body offset (gap ++ writeDashed items) =
        .ok (items.map SpacedValue.value) := by
  -- The blanks in front are those behind the value before.
  induction items with
  | nil =>
      intro gap hgap
      refine Block.readItems_of_blank (trimStart_eq_nil_of_blank ?_)
      simpa [writeDashed] using hgap
  | cons item items ih =>
      intro gap hgap
      obtain ⟨hfront, hback⟩ := hitems.2 item List.mem_cons_self
      have hrest := ih ⟨hitems.1, fun other hother => hitems.2 other (List.mem_cons_of_mem item hother)⟩
        item.back hback
      have htext : writeDashed (item :: items) = '-' :: (item.front ++
          '"' :: (Quoted.escape item.value ++ '"' :: (item.back ++ writeDashed items))) := by
        rw [writeDashed, List.flatMap_cons, List.cons_append, write_append]
        rfl
      have hdash : trimStart (gap ++ writeDashed (item :: items)) = '-' :: (item.front ++
          '"' :: (Quoted.escape item.value ++ '"' :: (item.back ++ writeDashed items))) := by
        rw [htext]
        exact trimStart_append_cons hgap (by decide)
      rw [Block.readItems_quoted hdash (dropWhile_append_cons hfront (by decide))
        (Quoted.decode_escape item.value _), hrest]
      rfl

/-- The values of a list are quoted items of a bracket list. -/
def toItem (item : SpacedValue) : BracketList.SpacedItem :=
  ⟨item.front, .quoted item.value, item.back⟩

theorem readItems_writeListed {offset : List Char → Nat} {items : List SpacedValue}
    (hitems : (list [] items).WellSpaced) (gap : List Char) (hgap : ∀ c ∈ gap, isBlank c = true) :
    BracketList.readItems offset (gap ++ writeListed items) = .ok (items.map SpacedValue.value) := by
  have hwell : ∀ spaced ∈ items.map toItem, spaced.WellFormed := by
    intro spaced hspaced
    obtain ⟨item, hitem, rfl⟩ := List.mem_map.mp hspaced
    exact ⟨(hitems.2 item hitem).1, trivial, (hitems.2 item hitem).2⟩
  have htext : BracketList.MixedList.writeItems (items.map toItem) = writeListed items := by
    rw [BracketList.MixedList.writeItems, List.map_map]
    rfl
  have hread := @BracketList.MixedList.readItems_write offset _ none hwell (by simp) gap hgap
  rwa [htext, BracketList.MixedList.ending, List.append_nil, List.map_map] at hread

/-- A branch stands between its bracket or brace and the one that closes it. -/
theorem exists_write_eq (text : BranchText) :
    ∃ first inside, text.write = first :: (inside ++ [text.closer]) ∧ (first = '[' ∨ first = '{') := by
  cases text with
  | list opening items => exact ⟨'[', _, rfl, Or.inl rfl⟩
  | block opening items => exact ⟨'{', _, rfl, Or.inr rfl⟩

theorem getLast?_write (text : BranchText) : text.write.getLast? = some text.closer := by
  obtain ⟨first, inside, hwrite, -⟩ := text.exists_write_eq
  rw [hwrite, ← List.cons_append, List.getLast?_concat]

theorem isBlank_closer (text : BranchText) : isBlank text.closer = false := by
  cases text <;> rfl

@[simp] theorem trim_write (text : BranchText) : trim text.write = text.write := by
  obtain ⟨first, inside, hwrite, hfirst⟩ := text.exists_write_eq
  have hopen : isBlank first = false := by
    rcases hfirst with rfl | rfl <;> rfl
  rw [hwrite]
  exact trim_cons_concat hopen text.isBlank_closer

/-- The values of a bracket list, whatever blanks stand between them. -/
theorem values_list {opening : List Char} {items : List SpacedValue}
    (h : (list opening items).WellSpaced) :
    BracketList.values (list opening items).write = .ok (items.map SpacedValue.value) := by
  rw [write, BracketList.values_eq_readItems]
  exact readItems_writeListed ⟨by simp, h.2⟩ opening h.1

/-- A dash or the closing brace stands first in the body of a block. -/
theorem opensBody_block {opening : List Char} (hopening : ∀ c ∈ opening, isBlank c = true)
    (items : List SpacedValue) :
    Block.opensBody ((opening ++ writeDashed items) ++ ['}']) = true := by
  unfold Block.opensBody
  rw [List.append_assoc]
  cases items with
  | nil =>
      rw [writeDashed, List.flatMap_nil, List.nil_append, trimStart_append_cons hopening (by decide)]
      rfl
  | cons item items =>
      rw [writeDashed, List.flatMap_cons, List.cons_append, List.cons_append,
        trimStart_append_cons hopening (by decide)]
      rfl

/-- The values of a block without a name. -/
theorem readValues_block (type : List Char) {opening : List Char} {items : List SpacedValue}
    (h : (block opening items).WellSpaced) :
    readValues type (block opening items).write = .ok (items.map SpacedValue.value) := by
  rw [write, Block.readValues_nameless type (opensBody_block h.1 items)]
  exact readItems_writeDashed ⟨by simp, h.2⟩ opening h.1

/-- A branch with blanks around it gives its actions. -/
theorem readBranch_write {text : BranchText} (h : text.WellSpaced) {front back : List Char}
    (hfront : ∀ c ∈ front, isBlank c = true) (hback : ∀ c ∈ back, isBlank c = true) :
    Conditional.readBranch (front ++ (text.write ++ back)) = .ok (text.values.map String.ofList) := by
  have htrim : trim (front ++ (text.write ++ back)) = text.write := by
    rw [trim_append_of_blank hfront hback, trim_write]
  cases text with
  | list opening items =>
      have hname : Block.typeName? (list opening items).write = none :=
        Block.typeName?_eq_none_of_head (by decide) (by decide)
      have hempty : (list opening items).write.isEmpty = false := rfl
      unfold Conditional.readBranch
      simp only [htrim, hempty, hname, Option.isSome_none, Bool.false_eq_true, if_false]
      show Except.map _ (BracketList.values (list opening items).write) = _
      rw [values_list h]
      rfl
  | block opening items =>
      have hname : Block.typeName? (block opening items).write = none :=
        Block.typeName?_eq_none_of_head (by decide) (by decide)
      have hempty : (block opening items).write.isEmpty = false := rfl
      unfold Conditional.readBranch
      simp only [htrim, hempty, hname, Option.isSome_none, Bool.false_eq_true, if_false]
      show Except.map _ (readValues [] (block opening items).write) = _
      rw [readValues_block [] h]
      rfl

/-! ## Searching past a branch -/

/-- Within brackets, the search for a keyword passes over a text and is within the same brackets
behind it. -/
def Inside (s : List Char) : Prop :=
  ∀ previous, ∃ last, Scan.Passes ⟨.outside, 1, previous⟩ s ⟨.outside, 1, last⟩

theorem Inside.nil : Inside [] :=
  fun previous => ⟨previous, .nil _⟩

theorem Inside.append {s t : List Char} (hs : Inside s) (ht : Inside t) : Inside (s ++ t) := by
  intro previous
  obtain ⟨middle, hs⟩ := hs previous
  obtain ⟨last, ht⟩ := ht middle
  exact ⟨last, hs.append ht⟩

/-- A character that neither opens nor closes anything. -/
theorem Inside.cons {c : Char} {s : List Char} (hc : c ∉ ['"', '[', '{', ']', '}']) (hs : Inside s) :
    Inside (c :: s) := by
  intro previous
  obtain ⟨last, hs⟩ := hs c
  have hstep : Scan.step ⟨.outside, 1, previous⟩ c = ⟨.outside, 1, c⟩ := by
    simp only [List.mem_cons, List.not_mem_nil, or_false, not_or] at hc
    simp [Scan.step, hc]
  exact ⟨last, .cons (Scan.admits_eq_false (Or.inr (by simp))) (hstep ▸ hs)⟩

theorem inside_encode (value : List Char) : Inside (Quoted.encode value) :=
  fun previous => ⟨'"', passes_encode value previous Nat.one_ne_zero⟩

/-- No blank opens or closes anything. -/
theorem not_mem_of_isBlank {c : Char} (h : isBlank c = true) : c ∉ ['"', '[', '{', ']', '}'] := by
  intro hmem
  have hnone : (['"', '[', '{', ']', '}'].all fun d => !isBlank d) = true := by decide
  have hc := List.all_eq_true.mp hnone c hmem
  rw [h] at hc
  exact absurd hc (by decide)

theorem inside_blank {s : List Char} (hs : ∀ c ∈ s, isBlank c = true) : Inside s := by
  induction s with
  | nil => exact .nil
  | cons c s ih =>
      exact .cons (not_mem_of_isBlank (hs c List.mem_cons_self))
        (ih fun d hd => hs d (List.mem_cons_of_mem c hd))

theorem inside_write {item : SpacedValue} (hfront : ∀ c ∈ item.front, isBlank c = true)
    (hback : ∀ c ∈ item.back, isBlank c = true) : Inside item.write :=
  (inside_blank hfront).append ((inside_encode item.value).append (inside_blank hback))

theorem inside_writeDashed {items : List SpacedValue} (h : (block [] items).WellSpaced) :
    Inside (writeDashed items) := by
  induction items with
  | nil => exact .nil
  | cons item items ih =>
      obtain ⟨hfront, hback⟩ := h.2 item List.mem_cons_self
      have hitem := inside_write (fun c hc => isBlank_of_isInlineBlank (hfront c hc)) hback
      exact (Inside.cons (by decide) hitem).append
        (ih ⟨h.1, fun other hother => h.2 other (List.mem_cons_of_mem item hother)⟩)

theorem inside_writeListed {items : List SpacedValue} (h : (list [] items).WellSpaced) :
    Inside (writeListed items) := by
  induction items with
  | nil => exact .nil
  | cons item items ih =>
      obtain ⟨hfront, hback⟩ := h.2 item List.mem_cons_self
      have hitem := inside_write hfront hback
      cases items with
      | nil => exact hitem
      | cons next items =>
          rw [writeListed_cons]
          exact hitem.append (.cons (by decide)
            (ih ⟨h.1, fun other hother => h.2 other (List.mem_cons_of_mem item hother)⟩))

/-- Between its bracket or brace and the one that closes it, a branch is passed over. -/
theorem passes_write {text : BranchText} (h : text.WellSpaced) :
    ∃ first inside, text.write = first :: inside ∧ (first = '[' ∨ first = '{') ∧
      Scan.Passes ⟨.outside, 1, first⟩ inside ⟨.outside, 0, text.closer⟩ := by
  have hclose : ∀ {s : List Char} {first closer : Char}, Inside s → (closer = ']' ∨ closer = '}') →
      Scan.Passes ⟨.outside, 1, first⟩ (s ++ [closer]) ⟨.outside, 0, closer⟩ := by
    intro s first closer hs hcloser
    obtain ⟨last, hs⟩ := hs first
    have hstep : Scan.step ⟨.outside, 1, last⟩ closer = ⟨.outside, 0, closer⟩ := by
      rcases hcloser with rfl | rfl <;> rfl
    exact hs.append (.cons (Scan.admits_eq_false (Or.inr (by simp))) (hstep ▸ .nil _))
  cases text with
  | list opening items =>
      refine ⟨'[', _, rfl, Or.inl rfl, hclose ?_ (Or.inl rfl)⟩
      exact (inside_blank h.1).append (inside_writeListed ⟨by simp, h.2⟩)
  | block opening items =>
      refine ⟨'{', _, rfl, Or.inr rfl, hclose ?_ (Or.inr rfl)⟩
      exact (inside_blank h.1).append (inside_writeDashed ⟨by simp, h.2⟩)

/-- The search for keywords that begin with a letter passes over a branch. -/
theorem findKeyword_write {text : BranchText} (h : text.WellSpaced) {keywords : List (List Char)}
    (hkeywords : ∀ keyword ∈ keywords, ∀ c, c = '[' ∨ c = '{' → ∀ s,
      afterKeyword keyword (c :: s) = none) (previous : Char) (rest : List Char) :
    findKeyword keywords (.start previous) (text.write ++ rest) =
      (findKeyword keywords (.start text.closer) rest).map fun (before, keyword, after) =>
        (text.write ++ before, keyword, after) := by
  obtain ⟨first, inside, hwrite, hfirst, hpasses⟩ := passes_write h
  have hstep : (Scan.start previous).step first = ⟨.outside, 1, first⟩ := by
    rcases hfirst with rfl | rfl <;> rfl
  rw [hwrite, List.cons_append, findKeyword_cons fun keyword hkeyword =>
    hkeywords keyword hkeyword first hfirst _, hstep, findKeyword_append rest hpasses, Option.map_map]
  rfl

end BranchText

end MenuActions.Grammar
