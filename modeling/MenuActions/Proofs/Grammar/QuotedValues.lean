import MenuActions.Proofs.Grammar.BlockItems

/-!
# Quoted values on one line

The two ways of writing any values whatever on one line: as a block whose values are quoted, and as
a bracket list of quoted values.  Both are read back without loss, so that a value may itself be the
text of an action with blocks, lists and quotes of its own.

The induction is over the values in both cases.  Nothing is assumed about a value, since
`Quoted.decode_escape` finds its end in front of any text.
-/

namespace MenuActions.Grammar

open Text

namespace Block

/-- Some values, each quoted behind a dash and with a space after it. -/
def writeDashed (values : List (List Char)) : List Char :=
  values.flatMap fun value => '-' :: ' ' :: (Quoted.encode value ++ [' '])

/-- A block of quoted values on one line. -/
def writeInline (name : List Char) (values : List (List Char)) : List Char :=
  name ++ ([' '] ++ '{' :: ((' ' :: writeDashed values) ++ ['}']))

/-- A block of quoted values on one line that has no name. -/
def writeNameless (values : List (List Char)) : List Char :=
  '{' :: ((' ' :: writeDashed values) ++ ['}'])

theorem writeDashed_cons (value : List Char) (values : List (List Char)) :
    writeDashed (value :: values) =
      '-' :: ' ' :: '"' :: (Quoted.escape value ++ '"' :: ' ' :: writeDashed values) := by
  simp [writeDashed, Quoted.encode]

theorem readItems_writeDashed {body : List Char} {offset : List Char → Nat}
    (values : List (List Char)) :
    readItems body offset (' ' :: writeDashed values) = .ok values := by
  induction values with
  | nil => exact readItems_of_blank (trimStart_cons_of_blank (by decide))
  | cons value values ih =>
      have hdash : trimStart (' ' :: writeDashed (value :: values)) =
          '-' :: ' ' :: '"' :: (Quoted.escape value ++ '"' :: ' ' :: writeDashed values) := by
        rw [writeDashed_cons, trimStart_cons_of_blank (by decide), trimStart_cons (by decide)]
      have hquote : (' ' :: '"' :: (Quoted.escape value ++ '"' :: ' ' ::
          writeDashed values)).dropWhile isInlineBlank =
            '"' :: (Quoted.escape value ++ '"' :: ' ' :: writeDashed values) := by
        rw [List.dropWhile_cons_of_pos (by decide), List.dropWhile_cons_of_neg (by decide)]
      rw [readItems_quoted hdash hquote (Quoted.decode_escape value _), ih]
      rfl

/-- A dash or the closing brace stands first in the body. -/
theorem opensBody_writeDashed (values : List (List Char)) :
    opensBody ((' ' :: writeDashed values) ++ ['}']) = true := by
  unfold opensBody
  rw [List.cons_append, trimStart_cons_of_blank (by decide)]
  cases values with
  | nil => rfl
  | cons value values =>
      rw [writeDashed_cons, List.cons_append, trimStart_cons (by decide)]
      rfl

theorem trim_writeNameless (values : List (List Char)) :
    trim (writeNameless values) = writeNameless values :=
  trim_cons_concat (by decide) (by decide)

theorem values_writeNameless (values : List (List Char)) :
    Block.values (writeNameless values) = .ok values := by
  rw [writeNameless, values_nameless, readItems_writeDashed]

section Written

variable {name : List Char} (values : List (List Char))

theorem trim_writeInline (hname : IsName name) :
    trim (writeInline name values) = writeInline name values :=
  trim_written _ _ hname

theorem typeName?_writeInline (hname : IsName name) :
    typeName? (writeInline name values) = some name :=
  typeName?_eq_some_iff.mpr (hasForm_of_opensBody hname (isBlank_of_mem_singleton (by decide))
    (opensBody_writeDashed values))

theorem values_writeInline (hname : IsName name) :
    Block.values (writeInline name values) = .ok values := by
  rw [writeInline, values_eq_readItems hname (isBlank_of_mem_singleton (by decide)),
    readItems_writeDashed]

/-- The data of an action that is a block of quoted values of its type gives these values. -/
theorem readValues_writeInline (hname : IsName name) :
    readValues name (writeInline name values) = .ok values := by
  rw [writeInline, readValues_block hname (isBlank_of_mem_singleton (by decide))
    (opensBody_writeDashed values)]
  exact values_writeInline values hname

end Written

end Block

namespace BracketList

/-- What stands between the first bracket and the last is read as the items of a list. -/
theorem values_eq_readItems (inner : List Char) :
    BracketList.values ('[' :: (inner ++ [']'])) =
      readItems (offsetIn (1 + byteLength inner)) inner := by
  have htrim : trim ('[' :: (inner ++ [']'])) = '[' :: (inner ++ [']']) :=
    trim_cons_concat (by decide) (by decide)
  have hopened : ('[' :: (inner ++ [']'])).takeWhile isBlank = [] :=
    List.takeWhile_cons_of_neg (by decide)
  have hlast : (inner ++ [']']).getLast? = some ']' := List.getLast?_concat
  have hinner : (inner ++ [']']).dropLast = inner := List.dropLast_concat
  unfold BracketList.values
  simp only [htrim, hopened, hlast, hinner, byteLength_nil, Nat.zero_add]

/-- Some values, each quoted, with commas between them and a space at the end. -/
def writeItems : List (List Char) → List Char
  | [] => []
  | [value] => Quoted.encode value ++ [' ']
  | value :: values => Quoted.encode value ++ (',' :: ' ' :: writeItems values)

/-- What stands behind a value that is followed by others. -/
def afterItem : List (List Char) → List Char
  | [] => [' ']
  | values => ',' :: ' ' :: writeItems values

/-- A bracket list of quoted values. -/
def write (values : List (List Char)) : List Char :=
  '[' :: ((' ' :: writeItems values) ++ [']'])

theorem writeItems_cons (value : List Char) (values : List (List Char)) :
    writeItems (value :: values) = '"' :: (Quoted.escape value ++ '"' :: afterItem values) := by
  cases values <;> simp [writeItems, afterItem, Quoted.encode]

theorem readItems_of_blank {rest : List Char} {offset : List Char → Nat} (h : trimStart rest = []) :
    readItems offset rest = .ok [] := by
  unfold readItems
  split
  · rfl
  all_goals
    rename_i hrest
    rw [h] at hrest
    exact absurd hrest (by simp)

/-- A quoted value with nothing but blanks behind it is the last one. -/
theorem readItems_last {rest quoted value next : List Char} {offset : List Char → Nat}
    (h : trimStart rest = '"' :: quoted) (hquoted : Quoted.decode quoted = some (value, next))
    (hnext : trimStart next = []) : readItems offset rest = .ok [value] := by
  unfold readItems
  split
  · rename_i hrest
    rw [h] at hrest
    exact absurd hrest (by simp)
  · rename_i found hrest
    rw [h] at hrest
    obtain ⟨-, rfl⟩ := List.cons.inj hrest
    split
    · rename_i hnone
      rw [hquoted] at hnone
      exact absurd hnone (by simp)
    · rename_i found more hsome
      rw [hquoted, Option.some.injEq, Prod.mk.injEq] at hsome
      obtain ⟨rfl, rfl⟩ := hsome
      split
      · rfl
      all_goals
        rename_i hmore
        rw [hnext] at hmore
        exact absurd hmore (by simp)
  · rename_i c bare hne hrest
    rw [h] at hrest
    obtain ⟨rfl, rfl⟩ := List.cons.inj hrest
    exact (hne rfl).elim

/-- A quoted value with a comma behind it is followed by the values behind the comma. -/
theorem readItems_quoted {rest quoted value next more : List Char} {offset : List Char → Nat}
    (h : trimStart rest = '"' :: quoted) (hquoted : Quoted.decode quoted = some (value, next))
    (hnext : trimStart next = ',' :: more) :
    readItems offset rest = (do let values ← readItems offset more; return value :: values) := by
  -- The reader looks at what is left, at the quoted value and at what stands behind it; of its cases
  -- only the one with a quote and then a comma remains.
  conv_lhs => unfold readItems
  split
  · rename_i hrest
    rw [h] at hrest
    exact absurd hrest (by simp)
  · rename_i found hrest
    rw [h] at hrest
    obtain ⟨-, rfl⟩ := List.cons.inj hrest
    split
    · rename_i hnone
      rw [hquoted] at hnone
      exact absurd hnone (by simp)
    · rename_i found after hsome
      rw [hquoted, Option.some.injEq, Prod.mk.injEq] at hsome
      obtain ⟨rfl, rfl⟩ := hsome
      split
      · rename_i hmore
        rw [hnext] at hmore
        exact absurd hmore (by simp)
      · rename_i hmore
        rw [hnext] at hmore
        obtain ⟨-, rfl⟩ := List.cons.inj hmore
        rfl
      · rename_i found hne hmore
        rw [hnext] at hmore
        obtain ⟨rfl, rfl⟩ := List.cons.inj hmore
        exact (hne rfl).elim
  · rename_i c bare hne hrest
    rw [h] at hrest
    obtain ⟨rfl, rfl⟩ := List.cons.inj hrest
    exact (hne rfl).elim

theorem readItems_writeItems {offset : List Char → Nat} (values : List (List Char)) :
    readItems offset (' ' :: writeItems values) = .ok values := by
  induction values with
  | nil => exact readItems_of_blank (trimStart_cons_of_blank (by decide))
  | cons value values ih =>
      have htext : trimStart (' ' :: writeItems (value :: values)) =
          '"' :: (Quoted.escape value ++ '"' :: afterItem values) := by
        rw [writeItems_cons, trimStart_cons_of_blank (by decide), trimStart_cons (by decide)]
      have hdecode := Quoted.decode_escape value (afterItem values)
      cases values with
      | nil => exact readItems_last htext hdecode (trimStart_cons_of_blank (by decide))
      | cons second values =>
          rw [readItems_quoted htext hdecode (trimStart_cons (by decide)), ih]
          rfl

theorem getLast?_write (values : List (List Char)) : (write values).getLast? = some ']' := by
  rw [write, ← List.cons_append, List.getLast?_concat]

@[simp] theorem trim_write (values : List (List Char)) : trim (write values) = write values :=
  trim_cons_concat (by decide) (by decide)

theorem values_write (values : List (List Char)) :
    BracketList.values (write values) = .ok values := by
  rw [write, values_eq_readItems, readItems_writeItems]

theorem isQuoted_write (values : List (List Char)) : isQuoted (write values) = true := by
  have hend : Block.endsWith ']' (write values) = true := by
    rw [Block.endsWith, getLast?_write]
    rfl
  unfold isQuoted
  rw [write] at hend ⊢
  simp only [hend, Bool.true_and]
  rw [List.cons_append, trimStart_cons_of_blank (by decide)]
  cases values with
  | nil => rfl
  | cons value values =>
      rw [writeItems_cons, List.cons_append, trimStart_cons (by decide)]
      rfl

/-- Data that is a bracket list of quoted values is read as such, whatever the type of the action. -/
theorem readValues_of_isQuoted (type : List Char) {inner : List Char}
    (h : isQuoted ('[' :: (inner ++ [']'])) = true) :
    readValues type ('[' :: (inner ++ [']'])) = BracketList.values ('[' :: (inner ++ [']'])) := by
  have htrim : trim ('[' :: (inner ++ [']'])) = '[' :: (inner ++ [']']) :=
    trim_cons_concat (by decide) (by decide)
  have hblock : Block.typeName? ('[' :: (inner ++ [']'])) = none :=
    Block.typeName?_eq_none_of_head (by decide) (by decide)
  have hbare : Block.isBare ('[' :: (inner ++ [']'])) = false := rfl
  unfold readValues
  simp only [htrim, List.isEmpty_cons, Block.hasType, hblock, hbare, h, Bool.or_self,
    Bool.false_eq_true, if_false, if_true]

/-- A bracket list of quoted values gives these values as the data of an action of any type. -/
theorem readValues_write (type : List Char) (values : List (List Char)) :
    readValues type (write values) = .ok values :=
  (readValues_of_isQuoted type (isQuoted_write values)).trans (values_write values)

end BracketList

end MenuActions.Grammar
