import MenuActions.Proofs.Grammar.QuotedValues

/-!
# Lists of quoted and bare items

A bracket list may hold quoted and bare items in any mix, with blanks around each of them and a comma
behind the last.  `values_write` says that such a list gives the values of its items.  The induction is
over the items; one step is an item with the comma behind it, quoted (`readItems_quoted`) or bare
(`readItems_bare`).
-/

namespace MenuActions.Grammar.BracketList

open Text

/-- An item of a bracket list and the form in which it is written. -/
inductive Item
  | quoted (value : List Char)
  | bare (value : List Char)
  deriving DecidableEq, Repr

namespace Item

/-- The value that an item stands for. -/
def value : Item → List Char
  | quoted value => value
  | bare value => value

/-- The text of an item. -/
def write : Item → List Char
  | quoted value => Quoted.encode value
  | bare value => value

/-- When a value can be written without quotes. -/
structure IsBare (value : List Char) : Prop where
  ne_nil : value ≠ []
  trimmed : trim value = value
  no_comma : ',' ∉ value
  no_quote : value.head? ≠ some '"'

instance (value : List Char) : Decidable (IsBare value) :=
  decidable_of_iff (value ≠ [] ∧ trim value = value ∧ ',' ∉ value ∧ value.head? ≠ some '"')
    ⟨fun ⟨h₁, h₂, h₃, h₄⟩ => ⟨h₁, h₂, h₃, h₄⟩, fun ⟨h₁, h₂, h₃, h₄⟩ => ⟨h₁, h₂, h₃, h₄⟩⟩

/-- The items that can stand in a list: every text can be quoted. -/
def WellFormed : Item → Prop
  | quoted _ => True
  | bare value => IsBare value

instance : (item : Item) → Decidable item.WellFormed
  | quoted _ => inferInstanceAs (Decidable True)
  | bare value => inferInstanceAs (Decidable (IsBare value))

end Item

/-- An item with the blanks around it. -/
structure SpacedItem where
  front : List Char
  item : Item
  back : List Char

namespace SpacedItem

/-- The text of an item with its blanks. -/
def write (spaced : SpacedItem) : List Char :=
  spaced.front ++ (spaced.item.write ++ spaced.back)

structure WellFormed (spaced : SpacedItem) : Prop where
  front_blank : ∀ c ∈ spaced.front, isBlank c = true
  item_wellFormed : spaced.item.WellFormed
  back_blank : ∀ c ∈ spaced.back, isBlank c = true

instance (spaced : SpacedItem) : Decidable spaced.WellFormed :=
  decidable_of_iff (spaced.front.all isBlank = true ∧ spaced.item.WellFormed ∧
      spaced.back.all isBlank = true) (by
    simp only [List.all_eq_true]
    exact ⟨fun ⟨h₁, h₂, h₃⟩ => ⟨h₁, h₂, h₃⟩, fun ⟨h₁, h₂, h₃⟩ => ⟨h₁, h₂, h₃⟩⟩)

end SpacedItem

/-- A bracket list: the blanks behind its bracket, its items, and the blanks behind a comma that stands
after them. -/
structure MixedList where
  opening : List Char
  items : List SpacedItem
  comma : Option (List Char)

namespace MixedList

/-- The items between their commas. -/
def writeItems (items : List SpacedItem) : List Char :=
  joinWith [','] (items.map SpacedItem.write)

/-- The comma behind the last item, if there is one. -/
def ending : Option (List Char) → List Char
  | none => []
  | some blanks => ',' :: blanks

/-- The text of a list. -/
def write (list : MixedList) : List Char :=
  '[' :: ((list.opening ++ (writeItems list.items ++ ending list.comma)) ++ [']'])

/-- The values of its items. -/
def values (list : MixedList) : List (List Char) :=
  list.items.map fun spaced => spaced.item.value

structure WellFormed (list : MixedList) : Prop where
  opening_blank : ∀ c ∈ list.opening, isBlank c = true
  items_wellFormed : ∀ spaced ∈ list.items, spaced.WellFormed
  comma_blank : ∀ blanks ∈ list.comma, ∀ c ∈ blanks, isBlank c = true

instance (list : MixedList) : Decidable list.WellFormed :=
  decidable_of_iff (list.opening.all isBlank = true ∧ (∀ spaced ∈ list.items, spaced.WellFormed) ∧
      list.comma.all (List.all · isBlank) = true) (by
    simp only [List.all_eq_true, Option.all_eq_true]
    exact ⟨fun ⟨h₁, h₂, h₃⟩ => ⟨h₁, h₂, h₃⟩, fun ⟨h₁, h₂, h₃⟩ => ⟨h₁, h₂, h₃⟩⟩)

end MixedList

/-! ## One item -/

section Items

variable {gap rest : List Char} {offset : List Char → Nat}

/-- A bare item runs to the next comma, and an empty one counts for nothing. -/
theorem readItems_bare {c : Char} {bare : List Char} (h : trimStart rest = c :: bare)
    (hquote : c ≠ '"') :
    readItems offset rest =
      (do
        let items ← readItems offset (dropComma ((c :: bare).dropWhile (· != ',')))
        return if (trim ((c :: bare).takeWhile (· != ','))).isEmpty then items
          else trim ((c :: bare).takeWhile (· != ',')) :: items) := by
  conv_lhs => unfold readItems
  split
  · rename_i hrest
    rw [h] at hrest
    exact absurd hrest (by simp)
  · rename_i found hrest
    rw [h] at hrest
    exact absurd (List.cons.inj hrest).1 hquote
  · rename_i d tail _ hrest
    rw [h] at hrest
    obtain ⟨rfl, rfl⟩ := List.cons.inj hrest
    rfl

/-- A comma with nothing in front of it is passed over. -/
theorem readItems_comma (hgap : ∀ c ∈ gap, isBlank c = true) :
    readItems offset (gap ++ ',' :: rest) = readItems offset rest := by
  have htake : (',' :: rest).takeWhile (· != ',') = [] := List.takeWhile_cons_of_neg (by decide)
  have hdrop : (',' :: rest).dropWhile (· != ',') = ',' :: rest :=
    List.dropWhile_cons_of_neg (by decide)
  rw [readItems_bare (trimStart_append_cons hgap (by decide)) (by decide), htake, hdrop, dropComma]
  exact bind_pure (readItems offset rest)

/-- No comma stands in a bare item and the blanks behind it. -/
theorem ne_comma_of_isBare {value back : List Char} (hvalue : Item.IsBare value)
    (hback : ∀ c ∈ back, isBlank c = true) : ∀ c ∈ value ++ back, (c != ',') = true := by
  intro c hc
  have hne : c ≠ ',' := by
    rintro rfl
    rcases List.mem_append.mp hc with hc | hc
    · exact hvalue.no_comma hc
    · exact absurd (hback _ hc) (by decide)
  simpa using hne

/-- A bare item is what stands between the blanks. -/
theorem trim_append_of_isBare {value back : List Char} (hvalue : Item.IsBare value)
    (hback : ∀ c ∈ back, isBlank c = true) : trim (value ++ back) = value := by
  have hall := @trim_append_of_blank [] value back (by simp) hback
  rwa [List.nil_append, hvalue.trimmed] at hall

/-- An item begins behind the blanks in front of it. -/
theorem SpacedItem.gap_write (spaced : SpacedItem) (gap rest : List Char) :
    gap ++ (spaced.write ++ rest) =
      (gap ++ spaced.front) ++ (spaced.item.write ++ (spaced.back ++ rest)) := by
  simp [SpacedItem.write]

/-- The first character of a bare item is neither blank nor a quote. -/
theorem exists_eq_cons_of_isBare {value : List Char} (hvalue : Item.IsBare value) :
    ∃ c tail, value = c :: tail ∧ isBlank c = false ∧ c ≠ '"' := by
  obtain ⟨c, tail, rfl⟩ := List.exists_cons_of_ne_nil hvalue.ne_nil
  exact ⟨c, tail, rfl, head_of_trim_eq_self hvalue.trimmed c rfl,
    fun h => hvalue.no_quote (by rw [h]; rfl)⟩

variable {spaced : SpacedItem}

/-- An item with a comma behind it is followed by the items behind the comma. -/
theorem readItems_item_comma (hspaced : spaced.WellFormed) (hgap : ∀ c ∈ gap, isBlank c = true) :
    readItems offset (gap ++ (spaced.write ++ ',' :: rest)) =
      (do let values ← readItems offset rest; return spaced.item.value :: values) := by
  have hblanks : ∀ c ∈ gap ++ spaced.front, isBlank c = true := fun c hc =>
    (List.mem_append.mp hc).elim (hgap c) (hspaced.front_blank c)
  have hback := hspaced.back_blank
  have hitem := hspaced.item_wellFormed
  rw [spaced.gap_write]
  cases h : spaced.item with
  | quoted value =>
      have htext : Quoted.encode value ++ (spaced.back ++ ',' :: rest) =
          '"' :: (Quoted.escape value ++ '"' :: (spaced.back ++ ',' :: rest)) := by
        simp [Quoted.encode]
      rw [Item.write, htext, readItems_quoted (trimStart_append_cons hblanks (by decide))
        (Quoted.decode_escape value _) (trimStart_append_cons hback (by decide))]
      rfl
  | bare value =>
      rw [h] at hitem
      have hne := ne_comma_of_isBare hitem hback
      have htake := @takeWhile_append_cons (· != ',') (value ++ spaced.back) rest ',' hne (by decide)
      have hdrop := @dropWhile_append_cons (· != ',') (value ++ spaced.back) rest ',' hne (by decide)
      have hempty : value.isEmpty = false := by simpa using hitem.ne_nil
      obtain ⟨c, tail, rfl, hc, hquote⟩ := exists_eq_cons_of_isBare hitem
      rw [List.append_assoc] at htake hdrop
      rw [Item.write, List.cons_append,
        readItems_bare (trimStart_append_cons hblanks hc) hquote, ← List.cons_append, htake, hdrop,
        dropComma, trim_append_of_isBare hitem hback, hempty]
      rfl

/-- An item with nothing behind it is the last one. -/
theorem readItems_item_last (hspaced : spaced.WellFormed) (hgap : ∀ c ∈ gap, isBlank c = true) :
    readItems offset (gap ++ spaced.write) = .ok [spaced.item.value] := by
  have hblanks : ∀ c ∈ gap ++ spaced.front, isBlank c = true := fun c hc =>
    (List.mem_append.mp hc).elim (hgap c) (hspaced.front_blank c)
  have hback := hspaced.back_blank
  have hitem := hspaced.item_wellFormed
  have htext := spaced.gap_write gap []
  rw [List.append_nil, List.append_nil] at htext
  rw [htext]
  cases h : spaced.item with
  | quoted value =>
      have hencode : Quoted.encode value ++ spaced.back =
          '"' :: (Quoted.escape value ++ '"' :: spaced.back) := by
        simp [Quoted.encode]
      rw [Item.write, hencode]
      exact readItems_last (trimStart_append_cons hblanks (by decide)) (Quoted.decode_escape value _)
        (trimStart_eq_nil_of_blank hback)
  | bare value =>
      rw [h] at hitem
      have hne := ne_comma_of_isBare hitem hback
      have htake : (value ++ spaced.back).takeWhile (· != ',') = value ++ spaced.back := by
        simpa using @List.takeWhile_append_of_pos _ (· != ',') _ [] hne
      have hdrop : (value ++ spaced.back).dropWhile (· != ',') = [] := by
        simpa using @List.dropWhile_append_of_pos _ (· != ',') _ [] hne
      have hempty : value.isEmpty = false := by simpa using hitem.ne_nil
      obtain ⟨c, tail, rfl, hc, hquote⟩ := exists_eq_cons_of_isBare hitem
      rw [Item.write, List.cons_append,
        readItems_bare (trimStart_append_cons hblanks hc) hquote, ← List.cons_append, htake, hdrop,
        trim_append_of_isBare hitem hback, hempty]
      have hend : readItems offset (dropComma []) = .ok [] := readItems_of_blank rfl
      rw [hend]
      rfl

end Items

/-! ## All items -/

namespace MixedList

variable {offset : List Char → Nat} {items : List SpacedItem} {comma : Option (List Char)}

theorem writeItems_cons_cons (spaced next : SpacedItem) (items : List SpacedItem) :
    writeItems (spaced :: next :: items) = spaced.write ++ ',' :: writeItems (next :: items) := by
  rw [writeItems, List.map_cons, List.map_cons, joinWith_cons_cons, List.append_assoc]
  rfl

/-- Behind the last item there may be a comma and blanks. -/
theorem readItems_ending (hcomma : ∀ blanks ∈ comma, ∀ c ∈ blanks, isBlank c = true) (gap : List Char)
    (hgap : ∀ c ∈ gap, isBlank c = true) : readItems offset (gap ++ ending comma) = .ok [] := by
  cases comma with
  | none =>
      rw [ending, List.append_nil]
      exact readItems_of_blank (trimStart_eq_nil_of_blank hgap)
  | some blanks =>
      rw [ending, readItems_comma hgap]
      exact readItems_of_blank (trimStart_eq_nil_of_blank (hcomma blanks rfl))

theorem readItems_write (hitems : ∀ spaced ∈ items, spaced.WellFormed)
    (hcomma : ∀ blanks ∈ comma, ∀ c ∈ blanks, isBlank c = true) (gap : List Char)
    (hgap : ∀ c ∈ gap, isBlank c = true) :
    readItems offset (gap ++ (writeItems items ++ ending comma)) =
      .ok (items.map fun spaced => spaced.item.value) := by
  -- The blanks in front are those behind the bracket, and none behind a comma: they go with the item.
  induction items generalizing gap with
  | nil => exact readItems_ending hcomma gap hgap
  | cons spaced items ih =>
      obtain ⟨hspaced, hrest⟩ := List.forall_mem_cons.mp hitems
      cases items with
      | nil =>
          have hsingle : writeItems [spaced] = spaced.write := rfl
          rw [hsingle]
          cases comma with
          | none =>
              rw [ending, List.append_nil]
              exact readItems_item_last hspaced hgap
          | some blanks =>
              rw [ending, readItems_item_comma hspaced hgap,
                readItems_of_blank (trimStart_eq_nil_of_blank (hcomma blanks rfl))]
              rfl
      | cons next items =>
          have hnext := ih hrest [] (by simp)
          rw [List.nil_append] at hnext
          rw [writeItems_cons_cons, List.append_assoc, List.cons_append,
            readItems_item_comma hspaced hgap, hnext]
          rfl

theorem values_write {list : MixedList} (h : list.WellFormed) :
    BracketList.values list.write = .ok list.values := by
  rw [write, values_eq_readItems]
  exact readItems_write h.items_wellFormed h.comma_blank list.opening h.opening_blank

end MixedList

end MenuActions.Grammar.BracketList
