import MenuActions.Delay
import MenuActions.Proofs.Grammar.QuotedValues

/-!
# The notations of a delay

A delay is written as a time with a colon and an action behind it, or as a block, with its name or without,
whose first value is the time and whose other values are the actions.  `Parts` says of any data which time
and which actions it has, and `split_eq_ok_iff` that these are what the reader takes apart.

`notations_agree`: the notations give the same delay or the same error, whatever the time and the action
are, and a delay that is read lies within the limits and has just the actions that were written.
-/

namespace MenuActions.Delay

open Text Grammar

/-! ## Taking the data apart -/

/-- Data in the form of a block; with a brace in front it counts as one, whatever follows. -/
def IsBlock (data : List Char) : Prop :=
  Block.hasType typeName.toList data = true ∨ data.head? = some '{'

/-- The time and the actions in some data: the values of a block, or what stands in front of the first colon
and behind it. -/
inductive Parts (data : List Char) : List Char → List (List Char) → Prop
  | block {time : List Char} {actions : List (List Char)} (hblock : IsBlock (trim data))
      (hvalues : Block.values (trim data) = .ok (time :: actions)) : Parts data time actions
  | alone (hplain : ¬IsBlock (trim data)) (hcolon : ':' ∉ trim data) : Parts data (trim data) []
  | colon {before after : List Char} (hplain : ¬IsBlock (trim data))
      (htext : trim data = before ++ ':' :: after) (hbefore : ':' ∉ before) :
      Parts data (trim before) (if trim after = [] then [] else [trim after])

theorem isBlock_iff {data : List Char} :
    (Block.hasType typeName.toList data || data.head? == some '{') = true ↔ IsBlock data := by
  rw [IsBlock, Bool.or_eq_true, beq_iff_eq]

theorem split_of_block {data : List Char} (hblock : IsBlock (trim data)) :
    split data =
      match Block.values (trim data) with
      | .error error => .error (.ofParse typeName error)
      | .ok [] => .error (.validation typeName "missing delay")
      | .ok (time :: actions) => .ok (time, actions) := by
  unfold split
  exact if_pos (isBlock_iff.mpr hblock)

theorem split_of_no_colon {data : List Char} (hplain : ¬IsBlock (trim data))
    (hcolon : ':' ∉ trim data) : split data = .ok (trim data, []) := by
  have hpieces : arguments 2 (trim data) = [trim (trim data)] := by
    simp only [arguments, splitUpTo, splitFirst_eq_none_iff.mpr hcolon, List.map_cons, List.map_nil]
  unfold split
  dsimp only
  rw [if_neg (fun h => hplain (isBlock_iff.mp h)), hpieces, trim_trim]
  rfl

theorem split_of_colon {data before after : List Char} (hplain : ¬IsBlock (trim data))
    (htext : trim data = before ++ ':' :: after) (hbefore : ':' ∉ before) :
    split data = .ok (trim before, if trim after = [] then [] else [trim after]) := by
  have hcut : splitFirst ':' (trim data) = some (before, after) :=
    splitFirst_eq_some_iff.mpr ⟨htext, hbefore⟩
  have hpieces : arguments 2 (trim data) = [trim before, trim after] := by
    simp only [arguments, splitUpTo, hcut, List.map_cons, List.map_nil]
  unfold split
  dsimp only
  rw [if_neg (fun h => hplain (isBlock_iff.mp h)), hpieces]
  simp only [List.isEmpty_iff]

/-- The reader takes data apart into the time and the actions that are in it. -/
theorem split_eq_ok_iff {data time : List Char} {actions : List (List Char)} :
    split data = .ok (time, actions) ↔ Parts data time actions := by
  constructor
  · intro h
    -- The cases are those of the reader: a block, no colon, and a colon.
    by_cases hblock : IsBlock (trim data)
    · rw [split_of_block hblock] at h
      split at h
      · exact absurd h (by simp)
      · exact absurd h (by simp)
      · rename_i hvalues
        obtain ⟨rfl, rfl⟩ := Prod.mk.inj (Except.ok.inj h)
        exact .block hblock hvalues
    · cases hcut : splitFirst ':' (trim data) with
      | none =>
          have hcolon := splitFirst_eq_none_iff.mp hcut
          rw [split_of_no_colon hblock hcolon] at h
          obtain ⟨rfl, rfl⟩ := Prod.mk.inj (Except.ok.inj h)
          exact .alone hblock hcolon
      | some pieces =>
          obtain ⟨htext, hbefore⟩ := splitFirst_eq_some_iff.mp hcut
          rw [split_of_colon hblock htext hbefore] at h
          obtain ⟨rfl, rfl⟩ := Prod.mk.inj (Except.ok.inj h)
          exact .colon hblock htext hbefore
  · intro h
    cases h with
    | block hblock hvalues => rw [split_of_block hblock, hvalues]
    | alone hplain hcolon => exact split_of_no_colon hplain hcolon
    | colon hplain htext hbefore => exact split_of_colon hplain htext hbefore

/-! ## The time -/

theorem readTime_eq_ok_iff {max ms : Nat} {time : List Char} :
    readTime max time = .ok ms ↔
      Decimal.int64? (trim time) = some (ms : Int) ∧ ms ≤ min max cap := by
  unfold readTime
  cases Decimal.int64? (trim time) with
  | none => simp
  | some n =>
      dsimp only
      rw [Option.some.injEq]
      split
      · rename_i hnegative
        exact ⟨fun h => absurd h (by simp), fun h => by omega⟩
      split
      · rename_i hlimit
        exact ⟨fun h => absurd h (by simp), fun h => by omega⟩
      · rw [Except.ok.injEq]
        omega

theorem read_of_split {max : Nat} {data time : List Char} {actions : List (List Char)}
    (h : split data = .ok (time, actions)) :
    read max data = (readTime max time).map fun ms => ⟨ms, actions.map String.ofList⟩ := by
  rw [read, h]
  cases hms : readTime max time with
  | error error => simp [bind, Except.bind, hms, Except.map]
  | ok ms => simp [bind, Except.bind, hms, Except.map, pure, Except.pure]

/-- A delay is read from its parts when its time is a number within the limits. -/
theorem read_eq_ok_iff {max : Nat} {data : List Char} {delay : Delay} :
    read max data = .ok delay ↔
      delay.ms ≤ min max cap ∧ ∃ time actions, Parts data time actions ∧
        Decimal.int64? (trim time) = some (delay.ms : Int) ∧
          delay.chained = actions.map String.ofList := by
  constructor
  · intro h
    cases hsplit : split data with
    | error error =>
        rw [read, hsplit] at h
        exact absurd h (by simp [bind, Except.bind])
    | ok parts =>
        -- The limits concern the time alone; the actions are passed on as they are.
        obtain ⟨time, actions⟩ := parts
        rw [read_of_split hsplit] at h
        cases htime : readTime max time with
        | error error =>
            rw [htime] at h
            exact absurd h (by simp [Except.map])
        | ok ms =>
            rw [htime] at h
            obtain rfl := Except.ok.inj h
            obtain ⟨hnumber, hlimit⟩ := readTime_eq_ok_iff.mp htime
            exact ⟨hlimit, time, actions, split_eq_ok_iff.mp hsplit, hnumber, rfl⟩
  · rintro ⟨hlimit, time, actions, hparts, hnumber, hchained⟩
    rw [read_of_split (split_eq_ok_iff.mpr hparts), readTime_eq_ok_iff.mpr ⟨hnumber, hlimit⟩]
    show Except.ok (Delay.mk delay.ms (actions.map String.ofList)) = .ok delay
    rw [← hchained]

/-! ## The three notations -/

theorem split_writeInline (time : List Char) (actions : List (List Char)) :
    split (Block.writeInline typeName.toList (time :: actions)) = .ok (time, actions) := by
  have hname : Block.IsName typeName.toList := by decide
  have htrim := Block.trim_writeInline (time :: actions) hname
  refine split_eq_ok_iff.mpr (.block (Or.inl ?_) ?_)
  · rw [htrim, Block.hasType, Block.typeName?_writeInline _ hname]
    decide
  · rw [htrim, Block.values_writeInline _ hname]

theorem split_writeNameless (time : List Char) (actions : List (List Char)) :
    split (Block.writeNameless (time :: actions)) = .ok (time, actions) := by
  refine split_eq_ok_iff.mpr (.block (Or.inr ?_) ?_)
  · rw [Block.trim_writeNameless]
    rfl
  · rw [Block.trim_writeNameless, Block.values_writeNameless]

/-- A time without a brace in it and a colon behind it is no block, whatever follows. -/
theorem not_isBlock_of_colon {time : List Char} (rest : List Char) (hbrace : '{' ∉ time) :
    ¬IsBlock (time ++ ':' :: rest) := by
  rw [IsBlock, Block.hasType, Block.typeName?_eq_none_of_colon rest hbrace]
  rintro (hnamed | hopened)
  · exact absurd hnamed (by decide)
  · cases time with
    | nil => exact absurd hopened (by simp)
    | cons c time =>
        rw [List.cons_append, List.head?_cons, Option.some.injEq] at hopened
        exact hbrace (hopened ▸ List.mem_cons_self)

/-- A time and an action with a colon between them. -/
theorem split_colon {time action : List Char} (hcolon : ':' ∉ time) (hbrace : '{' ∉ time)
    (htime : trim time = time) (hne : action ≠ []) (haction : trim action = action) :
    split (time ++ ':' :: action) = .ok (time, [action]) := by
  have htrim : trim (time ++ ':' :: action) = time ++ ':' :: action := by
    rw [trim_append_cons (by decide), trimStart_eq_self_of_head (head_of_trim_eq_self htime),
      trimEnd_eq_self_of_trim haction]
  have hplain : ¬IsBlock (trim (time ++ ':' :: action)) := by
    rw [htrim]
    exact not_isBlock_of_colon action hbrace
  rw [split_of_colon hplain htrim hcolon, htime, haction, if_neg hne]

/-- The notations of a delay agree, and a delay stays within its limits.  A time without colon and brace and
an action, neither with blanks around it, give the same delay or the same error with a colon between them
and as the values of a block with its name or without.  And the delays that are read from any data are those
whose time is written in the data as a number up to the limit, and the cap, and whose actions are those in
the data: the values of a block behind the first, or the trimmed text behind the first colon unless it is
empty. -/
theorem notations_agree (max : Nat) :
    (∀ time action : List Char, ':' ∉ time → '{' ∉ time → trim time = time → action ≠ [] →
      trim action = action →
        read max (Block.writeInline typeName.toList [time, action]) = read max (time ++ ':' :: action) ∧
          read max (Block.writeNameless [time, action]) = read max (time ++ ':' :: action)) ∧
    ∀ (data : List Char) (delay : Delay), read max data = .ok delay ↔
      delay.ms ≤ min max cap ∧ ∃ time actions, Parts data time actions ∧
        Decimal.int64? (trim time) = some (delay.ms : Int) ∧
          delay.chained = actions.map String.ofList := by
  refine ⟨fun time action hcolon hbrace htime hne haction => ?_, fun _ _ => read_eq_ok_iff⟩
  have hwritten := split_colon hcolon hbrace htime hne haction
  rw [read_of_split hwritten, read_of_split (split_writeInline time [action]),
    read_of_split (split_writeNameless time [action])]
  exact ⟨rfl, rfl⟩

/-- A time with a sign and a leading zero, and an action with quotes, braces and a colon: within the limit as
a block, and over the limit as a block without a name. -/
theorem notations_agree_quoted :
    let time := "+0250".toList
    let action := "message:say \"\x7ba\x7d\": b".toList
    read 1000 (Block.writeInline typeName.toList [time, action]) = .ok ⟨250, [String.ofList action]⟩ ∧
      read 200 (Block.writeNameless [time, action]) =
        .error (.validation typeName "delay of 250 ms exceeds the maximum of 200 ms") := by
  intro time action
  obtain ⟨hinline, -⟩ := (notations_agree 1000).1 time action (by decide) (by decide) (by decide)
    (by decide) (by decide)
  obtain ⟨-, hnameless⟩ := (notations_agree 200).1 time action (by decide) (by decide) (by decide)
    (by decide) (by decide)
  exact ⟨hinline.trans rfl, hnameless.trans rfl⟩

end MenuActions.Delay
