import MenuActions.Executor
import MenuActions.Proofs.Grammar.ConditionalData
import MenuActions.Proofs.Template.TokenFree

/-!
# Script trees

The structure behind the text of a nested action: values for one of the value actions, a delay of zero,
a choice between two branches by a condition, and a draw among a single entry.  A tree has a text, in
which the texts of its subtrees stand in quotes, and a meaning: what it does to the backend when it is
interpreted directly, and with which status.

The meaning knows nothing of the text, and the text nothing of the meaning.
-/

namespace MenuActions

open Text Grammar

/-- The structure of a nested action. -/
inductive ScriptTree
  | leaf (action : ValueAction) (values : List String)
  | delay (trees : List ScriptTree)
  | check (condition : String) (whenTrue whenFalse : List ScriptTree)
  | pick (tree : ScriptTree)

namespace ScriptTree

/-! ## Texts -/

/-- A block of the values of a value action. -/
def leafText (action : ValueAction) (values : List String) : List Char :=
  Block.writeInline action.typeName.toList (values.map String.toList)

/-- A block of a delay of zero and the actions to run after it. -/
def delayText (chained : List (List Char)) : List Char :=
  Block.writeInline Delay.typeName.toList (['0'] :: chained)

/-- A condition and the actions of its two branches. -/
def checkText (condition : String) (whenTrue whenFalse : List (List Char)) : List Char :=
  "check".toList ++ ':' :: Conditional.writeData condition.toList whenTrue whenFalse

/-- A draw among one entry. -/
def pickText (entry : List Char) : List Char :=
  "random".toList ++ ':' :: BracketList.write [entry]

mutual

/-- The text of a tree. -/
def render : ScriptTree → List Char
  | .leaf action values => leafText action values
  | .delay trees => delayText (renderAll trees)
  | .check condition whenTrue whenFalse =>
      checkText condition (renderAll whenTrue) (renderAll whenFalse)
  | .pick tree => pickText (render tree)

/-- The texts of some trees. -/
def renderAll : List ScriptTree → List (List Char)
  | [] => []
  | tree :: trees => render tree :: renderAll trees

end

theorem renderAll_eq_map (trees : List ScriptTree) : renderAll trees = trees.map render := by
  induction trees with
  | nil => rfl
  | cons tree trees ih => rw [renderAll, ih, List.map_cons]

mutual

/-- How many combinators stand around the innermost part of a tree. -/
def nesting : ScriptTree → Nat
  | .leaf _ _ => 0
  | .delay trees => nestingAll trees + 1
  | .check _ whenTrue whenFalse => max (nestingAll whenTrue) (nestingAll whenFalse) + 1
  | .pick tree => nesting tree + 1

/-- The greatest nesting of some trees. -/
def nestingAll : List ScriptTree → Nat
  | [] => 0
  | tree :: trees => max (nesting tree) (nestingAll trees)

end

theorem nesting_le_nestingAll {tree : ScriptTree} {trees : List ScriptTree} (h : tree ∈ trees) :
    tree.nesting ≤ nestingAll trees := by
  induction trees with
  | nil => exact absurd h List.not_mem_nil
  | cons first trees ih =>
      rw [nestingAll]
      rcases List.mem_cons.mp h with rfl | h
      · exact Nat.le_max_left _ _
      · exact Nat.le_trans (ih h) (Nat.le_max_right _ _)

/-- The trees that have a text: values and a delay have at least one part, conditions can be read, and
no token for a placeholder occurs in any text. -/
inductive WellFormed : ScriptTree → Prop
  | leaf (action : ValueAction) {values : List String} (hne : values ≠ [])
      (hfree : ∀ value ∈ values, Template.TokenFree value.toList) :
      WellFormed (.leaf action values)
  | delay {trees : List ScriptTree} (hne : trees ≠ []) (htrees : ∀ tree ∈ trees, WellFormed tree) :
      WellFormed (.delay trees)
  | check {condition : String} {whenTrue whenFalse : List ScriptTree} {expression : Expression}
      (hread : Expression.read condition.toList = .ok expression)
      (hfree : Template.TokenFree condition.toList)
      (htrue : ∀ tree ∈ whenTrue, WellFormed tree) (hfalse : ∀ tree ∈ whenFalse, WellFormed tree) :
      WellFormed (.check condition whenTrue whenFalse)
  | pick {tree : ScriptTree} (htree : WellFormed tree) : WellFormed (.pick tree)

/-! ## Meaning -/

/-- The status of one value, and the backend after it. A value in the wrong form is not run. -/
def runValue (action : ValueAction) (actor : Actor) (value : String) (b : Backend) :
    Status × Backend :=
  if action.isValid value then
    let (outcome, after) := action.attempt actor value b
    (outcome.result.status, after)
  else (.failure, b)

/-- The statuses of some values, and the backend after the last one. -/
def runValues (action : ValueAction) (actor : Actor) :
    List String → Backend → List Status × Backend
  | [], b => ([], b)
  | value :: values, b =>
      let (status, middle) := runValue action actor value b
      let (statuses, after) := runValues action actor values middle
      (status :: statuses, after)

/-- The status of some parts: a single one keeps its own, several count how many did not fail. -/
def combine : List Status → Status
  | [status] => status
  | statuses => Status.ofCounts (statuses.countP (· != .failure)) statuses.length

/-- Whether a condition holds; one that cannot be read does not. -/
def holds (condition : String) (actor : Actor) (ctx : Context) (b : Backend) : Bool :=
  match Expression.read condition.toList with
  | .ok expression => expression.evaluate (Executor.holds b actor ctx)
  | .error _ => false

/-- The status of a branch: it succeeds when there is nothing in it. -/
def branch (isEmpty : Bool) (outcome : List Status × Backend) : Status × Backend :=
  (if isEmpty then .success else combine outcome.1, outcome.2)

mutual

/-- The status of a tree, and the backend after it. -/
def meaning (actor : Actor) (ctx : Context) : ScriptTree → Backend → Status × Backend
  | .leaf action values, b =>
      let (statuses, after) := runValues action actor values b
      (combine statuses, after)
  | .delay trees, b =>
      let (statuses, after) := meaningAll actor ctx trees b
      (combine statuses, after)
  | .check condition whenTrue whenFalse, b =>
      if holds condition actor ctx b then branch whenTrue.isEmpty (meaningAll actor ctx whenTrue b)
      else branch whenFalse.isEmpty (meaningAll actor ctx whenFalse b)
  | .pick tree, b => meaning actor ctx tree b

/-- The statuses of some trees, run in order, and the backend after the last one. -/
def meaningAll (actor : Actor) (ctx : Context) : List ScriptTree → Backend → List Status × Backend
  | [], b => ([], b)
  | tree :: trees, b =>
      let (status, middle) := meaning actor ctx tree b
      let (statuses, after) := meaningAll actor ctx trees middle
      (status :: statuses, after)

end

end ScriptTree

end MenuActions
