import MenuActions.Proofs.Grammar.BlockItems

/-!
# Writing and reading back blocks

A block is written with one item on each line, and each item in one of three forms: quoted, bare or
as literal lines behind a bar.  The conditions on a bare and on a literal value say which texts can
be written in these forms at all; every text can be quoted.

`values_writeBlock` is the round trip: whatever the mix of forms, reading gives the values back in
order.  Its induction is over the items.  What it carries along is that the items still to come
stand at the beginning of a line, because the column of a dash is counted from there.
-/

namespace MenuActions.Grammar.Block

open Text

/-- A value and the form in which it is written; the lines of a literal value are indented by a
number of spaces. -/
inductive Item
  | quoted (value : List Char)
  | bare (value : List Char)
  | literal (indent : Nat) (value : List Char)
  deriving DecidableEq, Repr

/-- The lines of a text. -/
def linesOf (value : List Char) : List (List Char) :=
  splitAll '\n' value

/-- A line behind some spaces; an empty line stays empty. -/
def indentLine (indent : Nat) (line : List Char) : List Char :=
  if line = [] then [] else List.replicate indent ' ' ++ line

/-- Some lines, each with a line break behind it. -/
def writeLines (lines : List (List Char)) : List Char :=
  lines.flatMap fun line => line ++ ['\n']

namespace Item

/-- The value that an item stands for. -/
def value : Item → List Char
  | quoted value => value
  | bare value => value
  | literal _ value => value

/-- What stands behind the dash of an item, up to the end of its last line. -/
def form : Item → List Char
  | quoted value => Quoted.encode value ++ ['\n']
  | bare value => value ++ ['\n']
  | literal indent value => ['|', '\n'] ++ writeLines ((linesOf value).map (indentLine indent))

/-- An item at an indentation. -/
def write (indent : Nat) (item : Item) : List Char :=
  List.replicate indent ' ' ++ ('-' :: ' ' :: item.form)

/-- Whether a line begins with neither a space nor a tab. -/
def IsFlush (line : List Char) : Prop :=
  ∀ c, line.head? = some c → isInlineBlank c = false

instance (line : List Char) : Decidable (IsFlush line) :=
  decidable_of_iff ((line.head?.all fun c => !isInlineBlank c) = true) (by
    cases line <;> simp [IsFlush])

/-- When a value can be written without quotes on the line of its dash. -/
structure IsBare (value : List Char) : Prop where
  ne_nil : value ≠ []
  trimmed : trim value = value
  line : IsLine value
  no_quote : value.head? ≠ some '"'
  no_bar : value.head? ≠ some '|'

/-- When a value is what its own literal lines are brought to. -/
structure IsLiteral (value : List Char) : Prop where
  no_return : '\r' ∉ value
  trimmed : trimEnd value = value
  first : ∃ line rest, linesOf value = line :: rest ∧ isBlankText line = false
  blank : ∀ line ∈ linesOf value, isBlankText line = true → line = []
  flush : ∃ line ∈ linesOf value, isBlankText line = false ∧ IsFlush line

/-- The items that can stand in a block whose dashes have an indentation. -/
def WellFormed (indent : Nat) : Item → Prop
  | quoted _ => True
  | bare value => IsBare value
  | literal deeper value => indent < deeper ∧ IsLiteral value

end Item

/-- A block with its name and the opening brace on the first line, the items on lines of their own,
and the closing brace on the last line. -/
def writeBlock (name : List Char) (indent : Nat) (items : List Item) : List Char :=
  name ++ ([' ', '{', '\n'] ++ (items.flatMap (Item.write indent) ++ ['}']))

/-! ## Lines of a value -/

theorem isLine_of_mem_linesOf {value line : List Char} (hreturn : '\r' ∉ value)
    (hline : line ∈ linesOf value) : IsLine line := by
  exact isLine_iff.mpr
    ⟨not_mem_of_mem_splitAll hline, fun hmem => hreturn (mem_of_mem_splitAll hline hmem)⟩

theorem isLine_replicate_append {line : List Char} (n : Nat) (h : IsLine line) :
    IsLine (List.replicate n ' ' ++ line) := by
  intro c hc
  rcases List.mem_append.mp hc with hc | hc
  · rw [List.eq_of_mem_replicate hc]
    decide
  · exact h c hc

theorem isLine_indentLine {line : List Char} (n : Nat) (h : IsLine line) :
    IsLine (indentLine n line) := by
  unfold indentLine
  by_cases hline : line = []
  · rw [if_pos hline]
    intro c hc
    exact absurd hc (by simp)
  · rw [if_neg hline]
    exact isLine_replicate_append n h

/-- Indented lines do not open an item of the block around them. -/
theorem opensItem_indentLine {marker n : Nat} (line : List Char) (h : marker < n) :
    opensItem marker (indentLine n line) = false := by
  unfold indentLine
  by_cases hline : line = []
  · rw [if_pos hline]
    simp [opensItem]
  · rw [if_neg hline]
    exact opensItem_eq_false h

theorem isBlankText_indentLine (n : Nat) (line : List Char) :
    isBlankText (indentLine n line) = isBlankText line := by
  unfold indentLine
  by_cases hline : line = []
  · rw [if_pos hline, hline]
  · rw [if_neg hline]
    have hspaces : isBlankText (List.replicate n ' ') = true :=
      isBlankText_iff.mpr fun c hc => isBlank_of_isInlineBlank (isInlineBlank_of_mem_replicate hc)
    rw [isBlankText_append, hspaces, Bool.true_and]

theorem ne_nil_of_not_blank {line : List Char} (h : isBlankText line = false) : line ≠ [] := by
  rintro rfl
  exact absurd h (by decide)

theorem indentation_indentLine {line : List Char} (n : Nat) (h : isBlankText line = false) :
    indentation (indentLine n line) = n + indentation line := by
  rw [indentLine, if_neg (ne_nil_of_not_blank h), indentation_replicate_append]

/-- Lines that open no item are read up to the end of the text or a line that does. -/
theorem literalLines_writeLines {marker : Nat} {lines : List (List Char)} {rest : List Char}
    (hlines : ∀ line ∈ lines, IsLine line ∧ opensItem marker line = false)
    (hrest : rest = [] ∨ opensItem marker (firstLine rest) = true) :
    literalLines marker (writeLines lines ++ rest) = (lines, rest) := by
  induction lines with
  | nil =>
      rcases hrest with rfl | hrest
      · rw [writeLines, List.flatMap_nil, List.nil_append, literalLines]
      · exact literalLines_of_opensItem hrest
  | cons line lines ih =>
      obtain ⟨hline, hopen⟩ := hlines line List.mem_cons_self
      have htail := ih fun other hother => hlines other (List.mem_cons_of_mem _ hother)
      have htext : writeLines (line :: lines) ++ rest =
          line ++ '\n' :: (writeLines lines ++ rest) := by
        simp [writeLines]
      rw [htext, literalLines_append _ hline hopen, htail]

/-! ## The literal form -/

theorem indentation_eq_zero_iff {line : List Char} : indentation line = 0 ↔ Item.IsFlush line := by
  cases line with
  | nil => simp [indentation, Item.IsFlush]
  | cons c line => cases hc : isInlineBlank c <;> simp [indentation, Item.IsFlush, hc]

/-- The indentation that all lines of an indented literal value share is the one that was added. -/
theorem margin_indentLine {value : List Char} (n : Nat) (h : Item.IsLiteral value) :
    margin ((linesOf value).map (indentLine n)) = n := by
  -- A line that was flush left has the indentation, and no other line has less.
  obtain ⟨line, hline, hvisible, hflush⟩ := h.flush
  have hmem := List.mem_map_of_mem (f := indentLine n) hline
  have hblank : isBlankText (indentLine n line) = false := by
    rw [isBlankText_indentLine, hvisible]
  have hle := margin_le hmem hblank
  rw [indentation_indentLine n hvisible, indentation_eq_zero_iff.mpr hflush, Nat.add_zero] at hle
  obtain ⟨indented, hindented, hleast, hmargin⟩ := exists_indentation_eq ⟨_, hmem, hblank⟩
  obtain ⟨other, -, rfl⟩ := List.mem_map.mp hindented
  rw [isBlankText_indentLine] at hleast
  rw [indentation_indentLine n hleast] at hmargin
  omega

/-- Cutting the indentation off gives back every line that is visible or empty. -/
theorem outdent_indentLine {line : List Char} (n : Nat) (h : isBlankText line = true → line = []) :
    outdent n (indentLine n line) = line := by
  cases hblank : isBlankText line with
  | true =>
      rw [outdent_of_blank n (by rw [isBlankText_indentLine, hblank])]
      exact (h hblank).symm
  | false =>
      rw [outdent_of_visible n (by rw [isBlankText_indentLine, hblank]), indentLine,
        if_neg (ne_nil_of_not_blank hblank), List.drop_left' (by simp)]

/-- Indenting the lines of a literal value and bringing them to the margin gives the value back. -/
theorem dedent_indentLine {value : List Char} (n : Nat) (h : Item.IsLiteral value) :
    dedent ((linesOf value).map (indentLine n)) = value := by
  -- The margin is the indentation, so cutting it off gives every line back.
  have hshift : ((linesOf value).map (indentLine n)).map (outdent n) = linesOf value := by
    rw [List.map_map]
    exact (List.map_congr_left fun line hline => outdent_indentLine n (h.blank line hline)).trans
      (List.map_id _)
  obtain ⟨line, rest, hlines, hfirst⟩ := h.first
  have hempty : line.isEmpty = false := by simpa using ne_nil_of_not_blank hfirst
  rw [dedent_eq_trimEnd, margin_indentLine n h, hshift, hlines,
    List.dropWhile_cons_of_neg (by simp [hempty]), ← hlines, linesOf, joinWith_splitAll]
  exact h.trimmed

/-! ## One item and the items after it -/

/-- Behind the dash of an item stands a space, then its form. -/
theorem trimStart_write {blanks : List Char} (indent : Nat) (item : Item) (more : List Char)
    (hblanks : ∀ c ∈ blanks, isBlank c = true) :
    trimStart (blanks ++ (item.write indent ++ more)) = '-' :: ' ' :: (item.form ++ more) := by
  have hspaces : ∀ c ∈ blanks ++ List.replicate indent ' ', isBlank c = true := by
    intro c hc
    rcases List.mem_append.mp hc with hc | hc
    · exact hblanks c hc
    · exact isBlank_of_isInlineBlank (isInlineBlank_of_mem_replicate hc)
  have htext : blanks ++ (item.write indent ++ more) =
      (blanks ++ List.replicate indent ' ') ++ '-' :: ' ' :: (item.form ++ more) := by
    simp [Item.write]
  rw [htext, trimStart_append_cons hspaces (by decide)]

/-- An item that follows literal lines ends them, being no further indented than their dash. -/
theorem opensItem_write (indent : Nat) (items : List Item) :
    items.flatMap (Item.write indent) = [] ∨
      opensItem indent (firstLine (items.flatMap (Item.write indent))) = true := by
  cases items with
  | nil => exact Or.inl rfl
  | cons item items =>
      refine Or.inr ?_
      have hline : ∀ c ∈ List.replicate indent ' ', (!isLineBreak c) = true := by
        intro c hc
        rw [List.eq_of_mem_replicate hc]
        decide
      rw [List.flatMap_cons, Item.write, List.append_assoc, firstLine,
        List.takeWhile_append_of_pos hline, List.cons_append, List.takeWhile_cons_of_pos (by decide)]
      exact opensItem_dash indent _

/-- Every item ends its last line. -/
theorem exists_write_eq (indent : Nat) (item : Item) :
    ∃ text, item.write indent = text ++ ['\n'] := by
  suffices h : ∃ text, item.form = text ++ ['\n'] by
    obtain ⟨text, htext⟩ := h
    exact ⟨List.replicate indent ' ' ++ '-' :: ' ' :: text, by simp [Item.write, htext]⟩
  cases item with
  | quoted value => exact ⟨Quoted.encode value, rfl⟩
  | bare value => exact ⟨value, rfl⟩
  | literal deeper value =>
      have hne : (linesOf value).map (indentLine deeper) ≠ [] := by
        obtain ⟨line, lines, hlines⟩ := splitAll_eq_cons '\n' value
        simp [linesOf, hlines]
      obtain ⟨lines, line, hlines⟩ : ∃ lines line,
          (linesOf value).map (indentLine deeper) = lines ++ [line] :=
        ⟨_, _, (List.dropLast_concat_getLast hne).symm⟩
      exact ⟨'|' :: '\n' :: (writeLines lines ++ line), by
        simp [Item.form, hlines, writeLines]⟩

section Forms

variable {indent : Nat} {body blanks value : List Char} {offset : List Char → Nat}

theorem readItems_write_quoted (more : List Char) (hblanks : ∀ c ∈ blanks, isBlank c = true) :
    readItems body offset (blanks ++ ((Item.quoted value).write indent ++ more)) =
      (do let values ← readItems body offset ('\n' :: more); return value :: values) := by
  have hafter : (' ' :: ((Item.quoted value).form ++ more)).dropWhile isInlineBlank =
      '"' :: (Quoted.escape value ++ '"' :: '\n' :: more) := by
    rw [List.dropWhile_cons_of_pos (by decide), Item.form, Quoted.encode]
    simp [isInlineBlank]
  exact readItems_quoted (trimStart_write indent _ more hblanks) hafter
    (Quoted.decode_escape value ('\n' :: more))

theorem readItems_write_bare (more : List Char) (hblanks : ∀ c ∈ blanks, isBlank c = true)
    (hvalue : Item.IsBare value) :
    readItems body offset (blanks ++ ((Item.bare value).write indent ++ more)) =
      (do let values ← readItems body offset ('\n' :: more); return value :: values) := by
  obtain ⟨c, tail, rfl⟩ := List.exists_cons_of_ne_nil hvalue.ne_nil
  have hblank : isBlank c = false := head_of_trim_eq_self hvalue.trimmed c rfl
  have hquote : c ≠ '"' := fun h => hvalue.no_quote (by rw [h]; rfl)
  have hbar : c ≠ '|' := fun h => hvalue.no_bar (by rw [h]; rfl)
  have hafter : (' ' :: ((Item.bare (c :: tail)).form ++ more)).dropWhile isInlineBlank =
      c :: (tail ++ '\n' :: more) := by
    rw [List.dropWhile_cons_of_pos (by decide), Item.form]
    simp [isInlineBlank_of_not_blank hblank]
  have hfirst : firstLine (c :: (tail ++ '\n' :: more)) = c :: tail :=
    firstLine_append more hvalue.line
  have hlater : afterFirstLine (c :: (tail ++ '\n' :: more)) = '\n' :: more :=
    afterFirstLine_append more hvalue.line
  rw [readItems_bare (trimStart_write indent _ more hblanks) hafter hquote hbar
    (hvalue.line c List.mem_cons_self), hfirst, hlater, hvalue.trimmed]

theorem readItems_write_literal {deeper : Nat} {front more : List Char}
    (hblanks : ∀ c ∈ blanks, isBlank c = true) (hdeeper : indent < deeper)
    (hvalue : Item.IsLiteral value)
    (hbody : body = front ++ '\n' :: ((Item.literal deeper value).write indent ++ more))
    (hmore : more = [] ∨ opensItem indent (firstLine more) = true) :
    readItems body offset (blanks ++ ((Item.literal deeper value).write indent ++ more)) =
      (do let values ← readItems body offset more; return value :: values) := by
  have hafter : (' ' :: ((Item.literal deeper value).form ++ more)).dropWhile isInlineBlank =
      '|' :: '\n' :: (writeLines ((linesOf value).map (indentLine deeper)) ++ more) := by
    rw [List.dropWhile_cons_of_pos (by decide), Item.form]
    simp [isInlineBlank]
  have hspaces : '\n' ∉ List.replicate indent ' ' := by
    intro hmem
    exact absurd (List.eq_of_mem_replicate hmem) (by decide)
  have hcolumn : column body ('-' :: ' ' :: ((Item.literal deeper value).form ++ more)) =
      indent := by
    rw [column_eq (by rw [hbody, Item.write, List.append_assoc, List.cons_append,
      List.cons_append]) hspaces, List.length_replicate]
  -- The lines of the value are deeper than the dash, and what follows them is not.
  have hlines : literalLines indent
      (writeLines ((linesOf value).map (indentLine deeper)) ++ more) =
      ((linesOf value).map (indentLine deeper), more) := by
    refine literalLines_writeLines ?_ hmore
    intro indented hindented
    obtain ⟨line, hline, rfl⟩ := List.mem_map.mp hindented
    exact ⟨isLine_indentLine deeper (isLine_of_mem_linesOf hvalue.no_return hline),
      opensItem_indentLine line hdeeper⟩
  have hread : literalLines (column body ('-' :: ' ' :: ((Item.literal deeper value).form ++ more)))
      (dropLineBreak (('\n' :: (writeLines ((linesOf value).map (indentLine deeper)) ++
        more)).dropWhile isInlineBlank)) = ((linesOf value).map (indentLine deeper), more) := by
    rw [hcolumn]
    exact hlines
  rw [readItems_literal (trimStart_write indent _ more hblanks) hafter rfl hread,
    dedent_indentLine deeper hvalue]

end Forms

/-! ## The round trip -/

/-- The reader reads the items that are written and no others. -/
theorem readItems_write {indent : Nat} {items : List Item} {body front blanks : List Char}
    (offset : List Char → Nat) (hitems : ∀ item ∈ items, item.WellFormed indent)
    (hbody : body = front ++ '\n' :: items.flatMap (Item.write indent))
    (hblanks : ∀ c ∈ blanks, isBlank c = true) :
    readItems body offset (blanks ++ items.flatMap (Item.write indent)) =
      .ok (items.map Item.value) := by
  -- The induction is over the items; each of them begins a line of `body`.
  induction items generalizing front blanks with
  | nil =>
      rw [List.flatMap_nil, List.append_nil]
      exact readItems_of_blank (trimStart_eq_nil_of_blank hblanks)
  | cons item items ih =>
      have hitem := hitems item List.mem_cons_self
      have hrest : ∀ other ∈ items, other.WellFormed indent := fun other hother =>
        hitems other (List.mem_cons_of_mem _ hother)
      rw [List.flatMap_cons] at hbody ⊢
      obtain ⟨text, htext⟩ := exists_write_eq indent item
      -- An item ends its line, so the items after it begin a line of `body` again.
      have hnext : body = (front ++ '\n' :: text) ++
          '\n' :: items.flatMap (Item.write indent) := by
        rw [hbody, htext]
        simp
      have hfeed : ∀ c ∈ ['\n'], isBlank c = true := isBlank_of_mem_singleton (by decide)
      cases item with
      | quoted value =>
          rw [readItems_write_quoted _ hblanks, ← List.singleton_append, ih hrest hnext hfeed]
          rfl
      | bare value =>
          rw [readItems_write_bare _ hblanks hitem, ← List.singleton_append,
            ih hrest hnext hfeed]
          rfl
      | literal deeper value =>
          obtain ⟨hdeeper, hvalue⟩ := hitem
          rw [readItems_write_literal hblanks hdeeper hvalue hbody (opensItem_write indent items),
            ← List.nil_append (items.flatMap _), ih hrest hnext (by simp)]
          rfl

/-- Behind its first brace, the text of a block is recognized as the body of one. -/
theorem opensBody_write (indent : Nat) (items : List Item) :
    opensBody ('\n' :: items.flatMap (Item.write indent) ++ ['}']) = true := by
  have hfeed : ∀ c ∈ ['\n'], isBlank c = true := isBlank_of_mem_singleton (by decide)
  cases items with
  | nil => rfl
  | cons item items =>
      have hstart := trimStart_write indent item (items.flatMap (Item.write indent) ++ ['}']) hfeed
      unfold opensBody
      rw [List.flatMap_cons, List.cons_append, List.append_assoc, ← List.singleton_append, hstart]
      rfl

/-- A block of items on lines of their own, quoted, bare and literal ones in any mix, reads back as
the values of its items in order, and so does the data of an action of that type. -/
theorem values_writeBlock {name : List Char} {indent : Nat} {items : List Item}
    (hname : ∃ text, typeName? text = some name)
    (hitems : ∀ item ∈ items, item.WellFormed indent) :
    values (writeBlock name indent items) = .ok (items.map Item.value) ∧
      readValues name (writeBlock name indent items) = .ok (items.map Item.value) := by
  obtain ⟨_, hname⟩ := hname
  obtain ⟨hname, -⟩ := typeName?_eq_some_iff.mp hname
  have htext : writeBlock name indent items =
      name ++ ([' '] ++ '{' :: ('\n' :: items.flatMap (Item.write indent) ++ ['}'])) := by
    simp [writeBlock]
  have hread : values (writeBlock name indent items) = .ok (items.map Item.value) := by
    rw [htext, values_eq_readItems hname (isBlank_of_mem_singleton (by decide))]
    have hbody : '\n' :: items.flatMap (Item.write indent) =
        ['\n'] ++ items.flatMap (Item.write indent) := rfl
    rw [hbody]
    exact @readItems_write indent items _ [] ['\n'] _ hitems rfl
      (isBlank_of_mem_singleton (by decide))
  refine ⟨hread, ?_⟩
  rw [htext] at hread ⊢
  rw [readValues_block hname (isBlank_of_mem_singleton (by decide)) (opensBody_write indent items)]
  exact hread

/-- The round trip for a block with one item of each form: quotes around a line break and a dash, a
bare brace, and literal lines with a dash of their own. -/
theorem values_writeBlock_mixed :
    values (writeBlock "list".toList 2
      [.quoted "a\n- \"b\"".toList, .bare "- c \x7d".toList,
        .literal 4 "d\n  - e\n\nf".toList]) =
      .ok ["a\n- \"b\"".toList, "- c \x7d".toList, "d\n  - e\n\nf".toList] := by
  have hbare : Item.IsBare "- c \x7d".toList :=
    ⟨by decide, by decide, by decide, by decide, by decide⟩
  have hliteral : Item.IsLiteral "d\n  - e\n\nf".toList :=
    ⟨by decide, by decide, ⟨"d".toList, ["  - e".toList, [], "f".toList], by decide, by decide⟩,
      by decide, ⟨"d".toList, by decide, by decide, by decide⟩⟩
  refine (values_writeBlock ⟨"list \x7b\x7d".toList, by decide⟩ ?_).1
  intro item hitem
  rcases List.mem_cons.mp hitem with rfl | hitem
  · exact trivial
  rcases List.mem_cons.mp hitem with rfl | hitem
  · exact hbare
  rcases List.mem_cons.mp hitem with rfl | hitem
  · exact ⟨by decide, hliteral⟩
  · exact absurd hitem List.not_mem_nil

end MenuActions.Grammar.Block
