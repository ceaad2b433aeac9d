import MenuActions.Proofs.Grammar.BranchText

/-!
# The shapes of several values

The data of an action may give several values as a bracket list, as a block of the action's type or as
a block without a name.  Which of them it is, is told from the first and the last characters alone,
and the values between them may hold brackets, braces, commas, dashes and quotes of their own.

`shapes_read_back` says that the three shapes give the same values when every value is quoted, however
the values are spaced, and that a bracket list gives its items when quoted and bare ones are mixed.
-/

namespace MenuActions.Grammar

open Text

namespace BranchText

/-- A list of quoted values begins with a quote or is closed at once. -/
theorem isQuoted_list {opening : List Char} {items : List SpacedValue}
    (h : (list opening items).WellSpaced) : BracketList.isQuoted (list opening items).write = true := by
  have hend : Block.endsWith ']' (list opening items).write = true := by
    rw [Block.endsWith, getLast?_write]
    rfl
  unfold BracketList.isQuoted
  rw [write] at hend ⊢
  simp only [hend, Bool.true_and]
  rw [List.append_assoc]
  cases items with
  | nil =>
      rw [writeListed, List.map_nil, joinWith, List.nil_append, trimStart_append_cons h.1 (by decide)]
      rfl
  | cons item items =>
      obtain ⟨rest, hrest⟩ : ∃ rest, writeListed (item :: items) = item.write ++ rest := by
        cases items with
        | nil => exact ⟨[], (List.append_nil _).symm⟩
        | cons next items => exact ⟨_, writeListed_cons item next items⟩
      have hblanks : ∀ c ∈ opening ++ item.front, isBlank c = true := fun c hc =>
        (List.mem_append.mp hc).elim (h.1 c) ((h.2 item List.mem_cons_self).1 c)
      rw [hrest, List.append_assoc, write_append, ← List.append_assoc,
        trimStart_append_cons hblanks (by decide)]
      rfl

/-- The values of a bracket list of quoted values, as the data of an action of any type. -/
theorem readValues_list (type : List Char) {opening : List Char} {items : List SpacedValue}
    (h : (list opening items).WellSpaced) :
    readValues type (list opening items).write = .ok (items.map SpacedValue.value) := by
  have hquoted := isQuoted_list h
  have hvalues := values_list h
  rw [write] at hquoted hvalues ⊢
  rw [BracketList.readValues_of_isQuoted type hquoted, hvalues]

/-- The values of a block with a name, as the data of an action of that type. -/
theorem readValues_named {name blanks opening : List Char} {items : List SpacedValue}
    (hname : Block.IsName name) (hblanks : ∀ c ∈ blanks, isBlank c = true)
    (h : (block opening items).WellSpaced) :
    readValues name (name ++ (blanks ++ (block opening items).write)) =
      .ok (items.map SpacedValue.value) := by
  rw [write, Block.readValues_block hname hblanks (opensBody_block h.1 items),
    Block.values_eq_readItems hname hblanks]
  exact readItems_writeDashed ⟨by simp, h.2⟩ opening h.1

end BranchText

/-- All shapes of several values give these values.  A bracket list, a block and a block without a name
give quoted values with any blanks around them; and a bracket list of quoted and bare items in any mix,
with blanks around them and a comma behind the last one or none, gives its items. -/
theorem shapes_read_back :
    (∀ (type blanks opening : List Char) (items : List SpacedValue), Block.IsName type →
      (∀ c ∈ blanks, isBlank c = true) →
      ((BranchText.list opening items).WellSpaced →
        readValues type (BranchText.list opening items).write = .ok (items.map SpacedValue.value)) ∧
      ((BranchText.block opening items).WellSpaced →
        readValues type (type ++ (blanks ++ (BranchText.block opening items).write)) =
            .ok (items.map SpacedValue.value) ∧
          readValues type (BranchText.block opening items).write =
            .ok (items.map SpacedValue.value))) ∧
    ∀ list : BracketList.MixedList, list.WellFormed →
      BracketList.values list.write = .ok list.values := by
  refine ⟨fun type blanks opening items htype hblanks => ⟨?_, fun hblock => ⟨?_, ?_⟩⟩, ?_⟩
  · exact BranchText.readValues_list type
  · exact BranchText.readValues_named htype hblanks hblock
  · exact BranchText.readValues_block type hblock
  · exact fun _ => BracketList.MixedList.values_write

/-- Values with brackets, braces, commas and quotes, one of them empty, and a bare item that ends in a
bracket. -/
theorem shapes_read_back_brackets :
    let items : List SpacedValue := [⟨[' '], "a, \"b\" ]".toList, ['\n']⟩, ⟨[], [], []⟩,
      ⟨['\t'], "- \x7d \x7b".toList, [' ']⟩]
    let mixed : BracketList.MixedList := ⟨[' '], [⟨[], .quoted "x, y]".toList, []⟩,
      ⟨[' '], .bare "z \" ]".toList, ['\n']⟩, ⟨[], .quoted [], [' ']⟩], some [' ']⟩
    (readValues "sound".toList (BranchText.list [' '] items).write = .ok (items.map SpacedValue.value) ∧
      readValues "sound".toList ("sound".toList ++ ([' '] ++ (BranchText.block [' '] items).write)) =
          .ok (items.map SpacedValue.value) ∧
        readValues "sound".toList (BranchText.block [' '] items).write =
          .ok (items.map SpacedValue.value)) ∧
    BracketList.values mixed.write = .ok mixed.values := by
  intro items mixed
  have hspace : ∀ c ∈ [' '], isBlank c = true := isBlank_of_mem_singleton (by decide)
  obtain ⟨hlist, hblock⟩ := shapes_read_back.1 "sound".toList [' '] [' '] items (by decide) hspace
  exact ⟨⟨hlist (by decide), hblock (by decide)⟩, shapes_read_back.2 mixed (by decide)⟩

end MenuActions.Grammar
