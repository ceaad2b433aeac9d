import MenuActions.Proofs.Action.TypedText
import MenuActions.Proofs.Delay.Notations
import MenuActions.Proofs.Grammar.WeightedEntry
import MenuActions.Proofs.Registry.Builtin
import MenuActions.Proofs.ScriptTree.Basic

/-!
# Reading the text of a script tree

The text of a tree is read as an action of the right type whose data gives the texts of the subtrees
back.  Since every subtree stands in quotes, none of these theorems looks into it; what they need of a
subtree is only that its text is trimmed and ends with a closing brace or bracket.
-/

namespace MenuActions

open Text Grammar

namespace ScriptTree

/-! ## Names -/

theorem isName_typeName (action : ValueAction) : Block.IsName action.typeName.toList := by
  cases action <;> decide

theorem isName_delay : Block.IsName Delay.typeName.toList := by
  decide

theorem normalizeName_check : Action.normalizeName "check" = "check" := by
  decide +kernel

theorem normalizeName_random : Action.normalizeName "random" = "random" := by
  decide +kernel

theorem normalizeName_delay : Action.normalizeName Delay.typeName = Delay.typeName := by
  decide +kernel

/-! ## The ends of a text -/

/-- Texts that are trimmed and end with a closing brace or bracket. -/
def IsClosed (text : List Char) : Prop :=
  trim text = text ∧ ∃ c, text.getLast? = some c ∧ Decimal.IsClosing c

theorem isClosed_writeInline {name : List Char} (values : List (List Char))
    (hname : Block.IsName name) : IsClosed (Block.writeInline name values) :=
  ⟨Block.trim_writeInline values hname, '}', Block.getLast?_written _ _ _, Or.inl rfl⟩

/-- Data that is closed stays so behind a name and a colon. -/
theorem isClosed_colon {type data : List Char} (hname : Block.IsName type) (hdata : IsClosed data) :
    IsClosed (type ++ ':' :: data) := by
  obtain ⟨htrim, c, hlast, hc⟩ := hdata
  refine ⟨?_, c, ?_, hc⟩
  · rw [Action.trim_colon data hname, trimEnd_eq_self_of_trim htrim]
  · rw [List.getLast?_append, List.getLast?_cons, hlast]
    rfl

theorem isClosed_writeData (condition : List Char) (whenTrue whenFalse : List (List Char)) :
    IsClosed (Conditional.writeData condition whenTrue whenFalse) := by
  obtain ⟨inside, htext⟩ := Conditional.exists_writeData_eq condition whenTrue whenFalse
  refine ⟨Conditional.trim_writeData _ _ _, ']', ?_, Or.inr rfl⟩
  rw [htext, ← List.cons_append, List.getLast?_concat]

theorem isClosed_write (values : List (List Char)) : IsClosed (BracketList.write values) :=
  ⟨BracketList.trim_write values, ']', BracketList.getLast?_write values, Or.inr rfl⟩

theorem isClosed_render (tree : ScriptTree) : IsClosed tree.render := by
  cases tree with
  | leaf action values =>
      rw [render]
      exact isClosed_writeInline _ (isName_typeName action)
  | delay trees =>
      rw [render]
      exact isClosed_writeInline _ isName_delay
  | check condition whenTrue whenFalse =>
      rw [render]
      exact isClosed_colon (by decide) (isClosed_writeData _ _ _)
  | pick tree =>
      rw [render]
      exact isClosed_colon (by decide) (isClosed_write _)

/-! ## The action of a text -/

section Actions

variable (default : String)

theorem read_leafText (action : ValueAction) (values : List String) :
    Action.read default (String.ofList (leafText action values)) =
      ⟨action.typeName, String.ofList (leafText action values)⟩ := by
  have hname := isName_typeName action
  rw [leafText, Action.read_of_typeName? default (Block.trim_writeInline _ hname)
    (Block.typeName?_writeInline _ hname), Action.ofParts, String.ofList_toList,
    normalizeName_typeName]

theorem read_delayText (chained : List (List Char)) :
    Action.read default (String.ofList (delayText chained)) =
      ⟨Delay.typeName, String.ofList (delayText chained)⟩ := by
  rw [delayText, Action.read_of_typeName? default (Block.trim_writeInline _ isName_delay)
    (Block.typeName?_writeInline _ isName_delay), Action.ofParts, String.ofList_toList,
    normalizeName_delay]

theorem read_checkText (condition : String) (whenTrue whenFalse : List (List Char)) :
    Action.read default (String.ofList (checkText condition whenTrue whenFalse)) =
      ⟨"check", String.ofList (Conditional.writeData condition.toList whenTrue whenFalse)⟩ := by
  unfold checkText
  rw [Action.read_normal _ default (by decide) normalizeName_check,
    (isClosed_writeData _ _ _).1]

theorem read_pickText (entry : List Char) :
    Action.read default (String.ofList (pickText entry)) =
      ⟨"random", String.ofList (BracketList.write [entry])⟩ := by
  unfold pickText
  rw [Action.read_normal _ default (by decide) normalizeName_random,
    BracketList.trim_write]

end Actions

/-- No tree is a random choice written as a block, which combinators pass over. -/
theorem isRandom_render (tree : ScriptTree) : Block.isRandom tree.render = false := by
  rw [Block.isRandom, Block.hasType]
  cases tree with
  | leaf action values =>
      rw [render, leafText, Block.typeName?_writeInline _ (isName_typeName action)]
      cases action <;> decide
  | delay trees =>
      rw [render, delayText, Block.typeName?_writeInline _ isName_delay]
      decide
  | check condition whenTrue whenFalse =>
      rw [render]
      unfold checkText
      rw [Action.typeName?_colon _ (by decide)]
  | pick tree =>
      rw [render]
      unfold pickText
      rw [Action.typeName?_colon _ (by decide)]

/-! ## The data of a text -/

/-- The values of a leaf come back. -/
theorem readTexts_leafText (action : ValueAction) (values : List String) :
    Handler.readTexts action.typeName (String.ofList (leafText action values)) = .ok values := by
  rw [Handler.readTexts, String.toList_ofList, leafText,
    Block.readValues_writeInline _ (isName_typeName action)]
  show Except.ok ((values.map String.toList).map String.ofList) = _
  rw [List.map_map]
  simp [Function.comp_def]

/-- No limit is below a delay of zero. -/
theorem readTime_zero (max : Nat) : Delay.readTime max ['0'] = .ok 0 :=
  Delay.readTime_eq_ok_iff.mpr ⟨by decide, Nat.zero_le _⟩

/-- The chained actions come back behind a delay of zero. -/
theorem read_delayText_data (max : Nat) (chained : List (List Char)) :
    Delay.read max (delayText chained) = .ok ⟨0, chained.map String.ofList⟩ := by
  rw [delayText, Delay.read_of_split (Delay.split_writeInline ['0'] chained), readTime_zero]
  rfl

/-- A tree is drawn as it is, without a weight. -/
theorem entries_write (config : Config) (registry : Registry) (tree : ScriptTree) :
    Executor.entries config registry (String.ofList (BracketList.write [tree.render])) =
      .ok [⟨String.ofList tree.render, 1.0⟩] := by
  have htexts : Handler.readTexts "random" (String.ofList (BracketList.write [tree.render])) =
      .ok [String.ofList tree.render] := by
    rw [Handler.readTexts, @String.toList_ofList (BracketList.write [tree.render]),
      BracketList.readValues_write]
    rfl
  obtain ⟨htrim, c, hlast, hc⟩ := isClosed_render tree
  rw [Executor.entries, htexts]
  simp [isRandom_render tree, Weighted.read?_of_closing htrim hlast hc]

/-! ## Tokens -/

theorem tokenFree_renderAll {trees : List ScriptTree}
    (h : ∀ tree ∈ trees, Template.TokenFree tree.render) :
    ∀ text ∈ renderAll trees, Template.TokenFree text := by
  intro text htext
  rw [renderAll_eq_map] at htext
  obtain ⟨tree, htree, rfl⟩ := List.mem_map.mp htext
  exact h tree htree

theorem tokenFree_leafText {action : ValueAction} {values : List String}
    (h : ∀ value ∈ values, Template.TokenFree value.toList) :
    Template.TokenFree (leafText action values) := by
  refine Template.tokenFree_writeInline (isName_typeName action) fun text htext => ?_
  obtain ⟨value, hvalue, rfl⟩ := List.mem_map.mp htext
  exact h value hvalue

theorem tokenFree_delayText {chained : List (List Char)}
    (h : ∀ text ∈ chained, Template.TokenFree text) : Template.TokenFree (delayText chained) := by
  refine Template.tokenFree_writeInline isName_delay fun text htext => ?_
  rcases List.mem_cons.mp htext with rfl | htext
  · decide
  · exact h text htext

/-- No token occurs in the text of a tree whose strings have none. -/
theorem tokenFree_render {tree : ScriptTree} (h : tree.WellFormed) :
    Template.TokenFree tree.render := by
  induction h with
  | leaf action _ hfree =>
      rw [render]
      exact tokenFree_leafText hfree
  | delay _ _ ih =>
      rw [render]
      exact tokenFree_delayText (tokenFree_renderAll ih)
  | check _ hfree _ _ ihtrue ihfalse =>
      rw [render]
      unfold checkText
      rw [Template.tokenFree_append_of_no_brace (by decide),
        Template.tokenFree_cons (by decide)]
      exact Template.tokenFree_writeData hfree (tokenFree_renderAll ihtrue)
        (tokenFree_renderAll ihfalse)
  | pick _ ih =>
      rw [render]
      unfold pickText
      rw [Template.tokenFree_append_of_no_brace (by decide),
        Template.tokenFree_cons (by decide)]
      refine Template.tokenFree_write fun text htext => ?_
      rw [List.mem_singleton.mp htext]
      exact ih

end ScriptTree

end MenuActions
