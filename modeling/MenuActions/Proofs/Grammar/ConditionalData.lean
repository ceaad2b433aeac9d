import MenuActions.Proofs.Grammar.ConditionalRoundTrip

/-!
# Conditional actions in quotes

The data of a conditional action whose condition is quoted and whose branches are bracket lists of
quoted values.  `readData_writeData` reads the condition and the values of both branches back, for
any condition that can be read and any values at all.

`readData_encode` says so of any text behind the condition that is read as two branches; `dataBranches`
gives those of the data.
-/

namespace MenuActions.Grammar.Conditional

open Text TopLevel

/-- What stands behind the condition: two branches, the true one first. -/
def writeBranches (whenTrue whenFalse : List (List Char)) : List Char :=
  ' ' :: (trueKeyword ++ ' ' :: (BracketList.write whenTrue ++
    ' ' :: (falseKeyword ++ ' ' :: BracketList.write whenFalse)))

/-- The data of a conditional action with two branches. -/
def writeData (condition : List Char) (whenTrue whenFalse : List (List Char)) : List Char :=
  Quoted.encode condition ++ writeBranches whenTrue whenFalse

/-- The data begins with the quote of the condition and ends with the bracket of the false branch. -/
theorem exists_writeData_eq (condition : List Char) (whenTrue whenFalse : List (List Char)) :
    ∃ inside, writeData condition whenTrue whenFalse = '"' :: (inside ++ [']']) := by
  refine ⟨Quoted.escape condition ++ '"' :: ' ' :: (trueKeyword ++ ' ' :: (BracketList.write whenTrue ++
    ' ' :: (falseKeyword ++ ' ' :: '[' :: ' ' :: BracketList.writeItems whenFalse))), ?_⟩
  simp [writeData, writeBranches, Quoted.encode, BracketList.write]

/-- A quoted condition has no blanks around it and its branches if there are none behind these. -/
theorem trim_encode (condition : List Char) {tail : List Char} (htail : trimEnd tail = tail) :
    trim (Quoted.encode condition ++ tail) = Quoted.encode condition ++ tail := by
  have hends : Quoted.encode condition ++ tail = ('"' :: Quoted.escape condition) ++ '"' :: tail := by
    simp [Quoted.encode]
  rw [hends, trim, List.cons_append, trimStart_cons (by decide), ← List.cons_append,
    trimEnd_append_cons (by decide), htail]

/-- The data of a conditional action is read without its keyword. -/
theorem readData_encode {condition tail : List Char} {expression : Expression}
    {whenTrue whenFalse : List String} (hcondition : Expression.read condition = .ok expression)
    (htail : trimEnd tail = tail) (hbranches : ReadsBranches tail whenTrue whenFalse) :
    readData (Quoted.encode condition ++ tail) =
      .ok ⟨String.ofList condition, expression, whenTrue, whenFalse⟩ := by
  have hsame : sameIgnoringCase checkKeyword checkKeyword = true := by decide
  obtain ⟨offset, hread⟩ := read_encode condition hsame htail
  -- The data begins with a quote, so it does not begin with the keyword of the action.
  have hdata : readData (Quoted.encode condition ++ tail) =
      read (checkKeyword ++ (Quoted.encode condition ++ tail)) := by
    unfold readData
    rw [trim_encode condition htail]
    rfl
  rw [hdata, hread, readTail_branches hcondition hbranches offset]

/-! ## The data as one of the written forms -/

/-- The values of a bracket list: a space between two of them and one behind the last. -/
def spaced (front : List Char) : List (List Char) → List SpacedValue
  | [] => []
  | [value] => [⟨front, value, [' ']⟩]
  | value :: values => ⟨front, value, []⟩ :: spaced [' '] values

theorem spaced_cons_cons (front value next : List Char) (values : List (List Char)) :
    spaced front (value :: next :: values) = ⟨front, value, []⟩ :: spaced [' '] (next :: values) :=
  rfl

theorem values_spaced (front : List Char) (values : List (List Char)) :
    (spaced front values).map SpacedValue.value = values := by
  induction values generalizing front with
  | nil => rfl
  | cons value values ih =>
      cases values with
      | nil => rfl
      | cons next values => rw [spaced_cons_cons, List.map_cons, ih]

theorem wellSpaced_spaced {front : List Char} (hfront : ∀ c ∈ front, isBlank c = true)
    (values : List (List Char)) : (BranchText.list [' '] (spaced front values)).WellSpaced := by
  have hspace : ∀ c ∈ [' '], isBlank c = true := isBlank_of_mem_singleton (by decide)
  refine ⟨hspace, ?_⟩
  induction values generalizing front with
  | nil => exact fun item hitem => absurd hitem List.not_mem_nil
  | cons value values ih =>
      cases values with
      | nil =>
          intro item hitem
          obtain rfl := List.mem_singleton.mp hitem
          exact ⟨hfront, hspace⟩
      | cons next values =>
          intro item hitem
          rcases List.mem_cons.mp (spaced_cons_cons front value next values ▸ hitem) with rfl | hitem
          · exact ⟨hfront, by simp⟩
          · exact ih hspace item hitem

theorem writeListed_spaced (front value : List Char) (values : List (List Char)) :
    BranchText.writeListed (spaced front (value :: values)) =
      front ++ BracketList.writeItems (value :: values) := by
  induction values generalizing front value with
  | nil => rfl
  | cons next values ih =>
      have hrest := ih [' '] next
      obtain ⟨item, items, hitems⟩ : ∃ item items, spaced [' '] (next :: values) = item :: items := by
        cases values <;> exact ⟨_, _, rfl⟩
      have htext : BracketList.writeItems (value :: next :: values) =
          Quoted.encode value ++ (',' :: ' ' :: BracketList.writeItems (next :: values)) := rfl
      rw [hitems] at hrest
      rw [spaced_cons_cons, hitems, BranchText.writeListed_cons, hrest, htext]
      simp [SpacedValue.write]

/-- A bracket list of quoted values is a written branch. -/
theorem write_spaced (values : List (List Char)) :
    (BranchText.list [' '] (spaced [] values)).write = BracketList.write values := by
  cases values with
  | nil => rfl
  | cons value values =>
      rw [BranchText.write, writeListed_spaced, BracketList.write]
      rfl

/-- A keyword and a bracket list of quoted values, with a space in front of each. -/
def dataBranch (keyword : List Char) (values : List (List Char)) : Branch :=
  ⟨[' '], keyword, [' '], .list [' '] (spaced [] values)⟩

theorem wellFormed_dataBranch (keyword : List Char) (values : List (List Char)) :
    (dataBranch keyword values).WellFormed keyword where
  gap_blank := isBlank_of_mem_singleton (by decide)
  gap_endsWord c hc := by
    obtain rfl : ' ' = c := Option.some.inj hc
    decide
  keyword_same := by simp [dataBranch, sameIgnoringCase]
  space_blank := isBlank_of_mem_singleton (by decide)
  actions_wellSpaced := wellSpaced_spaced (by simp) values

/-- The two branches of the data. -/
def dataBranches (whenTrue whenFalse : List (List Char)) : Branches :=
  .trueFirst (dataBranch trueKeyword whenTrue) (dataBranch falseKeyword whenFalse)

/-- The data is a quoted condition with these branches. -/
theorem writeData_eq (condition : List Char) (whenTrue whenFalse : List (List Char)) :
    writeData condition whenTrue whenFalse =
      Quoted.encode condition ++ (dataBranches whenTrue whenFalse).write := by
  simp [dataBranches, Branches.write, Branch.write, dataBranch, write_spaced, writeData, writeBranches]

theorem trim_writeData (condition : List Char) (whenTrue whenFalse : List (List Char)) :
    trim (writeData condition whenTrue whenFalse) = writeData condition whenTrue whenFalse := by
  rw [writeData_eq, trim_encode condition (trimEnd_write _)]

/-- The data of a conditional action is read back: its condition, and the values of its branches. -/
theorem readData_writeData {condition : List Char} {expression : Expression}
    (whenTrue whenFalse : List (List Char)) (hcondition : Expression.read condition = .ok expression) :
    readData (writeData condition whenTrue whenFalse) =
      .ok ⟨String.ofList condition, expression, whenTrue.map String.ofList,
        whenFalse.map String.ofList⟩ := by
  have hbranches : (dataBranches whenTrue whenFalse).WellFormed :=
    ⟨wellFormed_dataBranch trueKeyword whenTrue, wellFormed_dataBranch falseKeyword whenFalse⟩
  have hvalues : (dataBranches whenTrue whenFalse).whenTrue = whenTrue ∧
      (dataBranches whenTrue whenFalse).whenFalse = whenFalse :=
    ⟨values_spaced [] whenTrue, values_spaced [] whenFalse⟩
  rw [writeData_eq, readData_encode hcondition (trimEnd_write _) (readsBranches_write hbranches),
    hvalues.1, hvalues.2]

end MenuActions.Grammar.Conditional
