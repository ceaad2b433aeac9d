import MenuActions.Proofs.Engine.ZeroDelay
import MenuActions.Proofs.Grammar.BareTerms

/-!
# Braces around the name of a condition

A condition can name its placeholder plainly or in braces.  A plain name is looked up when the condition
is evaluated.  A name in braces is a token: its value comes in when the data are filled, is read as the
name of the condition and looked up once more; without a value it stands for itself.

`executeRaw_braced` says which branch each of the two takes.  They take the same one when looking the
value up once more makes no difference to the comparison; `braces_look_up_twice` is a value that is the
name of another placeholder.
-/

namespace MenuActions

open Schedule Text Grammar

namespace Executor

/-- Runs the actions of one branch of two. Random blocks in it are passed over. -/
def runBranch (nest : String → ActionProcess) (whenTrue whenFalse : List String) (outcome : Bool) :
    ActionProcess :=
  let branch := if outcome then whenTrue else whenFalse
  let entries := branch.filter fun entry => !Block.isRandom entry.toList
  if entries.isEmpty then
    answer ((ActionResult.success MessageKey.conditionalNoBranch).put "outcome" (.bool outcome))
  else
    Process.sequence (entries.map nest) fun outcomes =>
      answer ((combine "conditional" outcomes).put "outcome" (.bool outcome))

section Condition

variable {nest nest' : String → ActionProcess} {literal tail : List Char} {whenTrue whenFalse : List String}

/-- A conditional action runs the branch that its condition selects. -/
theorem runConditional_encode {condition : List Char} {expression : Expression} (world : World)
    (actor : Actor) (ctx : Context) (hcondition : Expression.read condition = .ok expression)
    (htail : trimEnd tail = tail) (hbranches : Conditional.ReadsBranches tail whenTrue whenFalse) :
    runConditional nest world actor ctx (String.ofList (Quoted.encode condition ++ tail)) =
      runBranch nest whenTrue whenFalse (expression.evaluate (holds world.backend actor ctx)) := by
  unfold runConditional runBranch
  rw [String.toList_ofList, Conditional.readData_encode hcondition htail hbranches]

theorem alike_runBranch (hnest : ∀ raw, (nest raw).Alike SameWorld (nest' raw))
    (whenTrue whenFalse : List String) (outcome : Bool) :
    (runBranch nest whenTrue whenFalse outcome).Alike SameWorld
      (runBranch nest' whenTrue whenFalse outcome) := by
  unfold runBranch
  extract_lets branch entries
  split
  · exact .done _
  · exact alike_nested hnest _ _

/-- Filling a comparison fills its name. -/
theorem fill_writeBare (value : String → Option String) (name : List Char) (op : Comparison)
    (hliteral : IsLiteral literal) :
    Template.fill Template.isPlaceholderChar value (writeBare name op literal) =
      writeBare (Template.fill Template.isPlaceholderChar value name) op literal := by
  have hkeyword : '{' ∉ Term.placeholderKeyword := by decide
  have hright : '{' ∉ op.symbol.toList ++ ' ' :: literal := by
    have hsymbol : '{' ∉ op.symbol.toList := by cases op <;> decide
    have hbrace : '{' ∉ literal := fun hmem =>
      absurd rfl (Term.ne_of_isNameChar (hliteral.char _ hmem).1 (by decide))
    simp [hsymbol, hbrace]
  have hrest := @Template.fill_append_of_no_brace value _ [] hright
  rw [List.append_nil, Template.fill_nil, List.append_nil] at hrest
  rw [writeBare, Template.fill_append_of_no_brace hkeyword, Template.fill_append_cons (by decide), hrest,
    writeBare]

/-- A comparison is free of quotes and backslashes if its name is. -/
theorem writeBare_plain {name : List Char} (op : Comparison) (hname : '"' ∉ name ∧ '\\' ∉ name)
    (hliteral : IsLiteral literal) :
    '"' ∉ writeBare name op literal ∧ '\\' ∉ writeBare name op literal := by
  have hquote : '"' ∉ literal := fun hmem =>
    absurd rfl (Term.ne_of_isNameChar (hliteral.char _ hmem).1 (by decide))
  have hslash : '\\' ∉ literal := fun hmem => absurd rfl (hliteral.char _ hmem).2
  have hkeyword : '"' ∉ Term.placeholderKeyword ∧ '\\' ∉ Term.placeholderKeyword := by decide
  have hsymbol : '"' ∉ op.symbol.toList ∧ '\\' ∉ op.symbol.toList := by cases op <;> decide
  simp [writeBare, hkeyword, hname, hsymbol, hquote, hslash]

/-- The data of a conditional action, filled. -/
theorem resolve_writeBare {provider : String → Option String} {actor : Actor} {ctx : Context}
    {name filled : List Char} (op : Comparison) (hname : '"' ∉ name ∧ '\\' ∉ name)
    (hliteral : IsLiteral literal) (hfree : Template.TokenFree tail)
    (hfill : Template.fill Template.isPlaceholderChar (Placeholder.lookup provider actor ctx) name = filled)
    (hfilled : ReadsAsName filled) :
    Placeholder.resolve provider actor ctx
        (String.ofList (Quoted.encode (writeBare name op literal) ++ tail)) =
      String.ofList (Quoted.encode (writeBare filled op literal) ++ tail) := by
  have hbefore := writeBare_plain op hname hliteral
  have hafter := writeBare_plain op ⟨hfilled.no_quote, hfilled.no_backslash⟩ hliteral
  have hencode : ∀ s : List Char, '"' ∉ s ∧ '\\' ∉ s →
      Quoted.encode s ++ tail = '"' :: (s ++ '"' :: tail) := by
    intro s hs
    simp [Quoted.encode, Template.escape_eq_self hs.1 hs.2]
  rw [hencode _ hbefore, hencode _ hafter, Placeholder.resolve, String.toList_ofList,
    Template.fill_cons (by decide), Template.fill_append_cons (by decide), fill_writeBare _ _ op hliteral,
    Template.fill_eq_self hfree, hfill]

theorem alike_nestBelow (config : Config) (actor : Actor) (ctx : Context) (number : Nat)
    (onRandom : Bool) (raw : String) :
    (nestBelow config actor ctx number onRandom raw).Alike SameWorld
      (nestBelow config actor ctx number onRandom raw) := by
  unfold nestBelow
  split
  · exact .done _
  · exact alike_dispatch config _ _ _ onRandom actor _ ctx.nested

/-- A conditional action with a quoted condition. -/
def checkText (condition tail : List Char) : String :=
  String.ofList (Conditional.checkKeyword ++ (Quoted.encode condition ++ tail))

/-- The text of a conditional action is read as its type and its data. -/
theorem read_checkText (default : String) (condition : List Char) (htail : trimEnd tail = tail) :
    Action.read default (checkText condition tail) =
      ⟨"check", String.ofList (Quoted.encode condition ++ tail)⟩ := by
  have hkeyword : Conditional.checkKeyword = "check".toList ++ [':'] := by decide
  have htype : Action.isTypeName "check".toList = true := by decide
  rw [checkText, hkeyword, List.append_assoc, List.singleton_append,
    Action.read_normal _ default htype ScriptTree.normalizeName_check, Conditional.trim_encode _ htail]

/-- A conditional action has the result of its handler on its data with the tokens filled. -/
theorem resultOf_conditional {config : Config} {machine : ActionMachine} {actor : Actor} {ctx : Context}
    {type : String} (hlookup : machine.world.registry.lookup type = some .conditional) (data : String) :
    resultOf (dispatch config (levelsBelow config ctx) none false actor ⟨type, data⟩ ctx) machine =
      resultOf
        (runConditional (nestBelow config actor ctx machine.world.dispatches.length false)
          machine.world.toWorld actor ctx
          (Placeholder.resolve machine.world.backend.placeholders.get? actor ctx data))
        (noted actor ⟨type, data⟩ ctx none machine) := by
  have hfilled : (fill machine.world.toWorld actor ctx ⟨type, data⟩).data =
      Placeholder.resolve machine.world.backend.placeholders.get? actor ctx data := rfl
  rw [resultOf_dispatch (by exact hlookup), hfilled, runHandler]

/-- A conditional action with a comparison of a name, written in any way: what comes in for the tokens
of the name is read as a name and looked up. -/
theorem sameRun_check (config : Config) {machine : ActionMachine} {actor : Actor} {ctx : Context}
    (h : machine.Alike SameWorld machine)
    (hcheck : machine.world.registry.lookup "check" = some .conditional) {name filled : List Char}
    (op : Comparison) (hname : '"' ∉ name ∧ '\\' ∉ name) (hliteral : IsLiteral literal)
    (htail : trimEnd tail = tail) (hbranches : Conditional.ReadsBranches tail whenTrue whenFalse)
    (hfree : Template.TokenFree tail)
    (hfill : Template.fill Template.isPlaceholderChar
      (Placeholder.lookup machine.world.backend.placeholders.get? actor ctx) name = filled)
    (hfilled : ReadsAsName filled) :
    SameRun (executeRaw config actor (checkText (writeBare name op literal) tail) ctx) machine
      (runBranch (nestBelow config actor ctx machine.world.dispatches.length false) whenTrue whenFalse
        (holds machine.world.backend actor ctx
          (.placeholder (String.ofList (bareName filled)) op (String.ofList literal)))) machine := by
  have hread := Expression.read_writeBare op hfilled hliteral
  have hnest := alike_nestBelow config actor ctx machine.world.dispatches.length false
  have hsingle : ∀ term, Expression.evaluate (holds machine.world.backend actor ctx) ⟨term, []⟩ =
      holds machine.world.backend actor ctx term := fun _ => rfl
  unfold executeRaw execute SameRun
  rw [read_checkText _ _ htail, resultOf_conditional hcheck,
    resolve_writeBare op hname hliteral hfree hfill hfilled,
    runConditional_encode _ actor ctx hread htail hbranches, hsingle]
  exact sameRun_of_alike (alike_runBranch hnest _ _ _) (noted_alike h _ ctx none)

end Condition

end Executor

namespace Engine

open Executor

/-- Braces around the name of a condition. The plain name takes the branch of its value. The name in
braces takes the branch of what its value stands for when it is read as a name: the value of the
placeholder of that name, or that name itself. So both take the same branch, with the same result and
the same calls, when this makes no difference to the comparison. -/
theorem executeRaw_braced {engine : Engine} (h : Used engine)
    (hcheck : engine.registry.lookup "check" = some .conditional) (actor : Actor) (ctx : Context)
    {name literal value : String} (op : Comparison) {tail : List Char} {whenTrue whenFalse : List String}
    (hne : name.toList ≠ []) (hname : ∀ c ∈ name.toList, Template.isPlaceholderChar c = true)
    (hliteral : IsLiteral literal.toList) (htail : trimEnd tail = tail)
    (hbranches : Conditional.ReadsBranches tail whenTrue whenFalse) (hfree : Template.TokenFree tail)
    (hknown : Placeholder.lookup engine.backend.placeholders.get? actor ctx name = some value)
    (hvalue : ReadsAsName value.toList) :
    let run := fun shown => engine.executeRaw actor (checkText (writeBare shown op literal.toList) tail) ctx
    let take := fun outcome => engine.runProcess (runBranch
      (nestBelow engine.config actor ctx engine.dispatches.length false) whenTrue whenFalse outcome)
    let shown := String.ofList (bareName value.toList)
    let again := (Placeholder.lookup engine.backend.placeholders.get? actor ctx shown).getD shown
    let plain := run name.toList
    let braced := run ('{' :: (name.toList ++ ['}']))
    (plain.1 = (take (op.holds value literal)).1 ∧
        plain.2.backend = (take (op.holds value literal)).2.backend) ∧
      (braced.1 = (take (op.holds again literal)).1 ∧
        braced.2.backend = (take (op.holds again literal)).2.backend) ∧
      (op.holds again literal = op.holds value literal →
        braced.1 = plain.1 ∧ braced.2.backend = plain.2.backend) := by
  intro run take shown again plain braced
  let lookup := Placeholder.lookup engine.backend.placeholders.get? actor ctx
  have hreads := readsAsName_of_isPlaceholderChar hne hname
  have hbrace : '{' ∉ name.toList := fun hmem => absurd (hname _ hmem) (by decide)
  have hplainFill : Template.fill Template.isPlaceholderChar lookup name.toList = name.toList := by
    have hfill := @Template.fill_append_of_no_brace lookup _ [] hbrace
    rwa [List.append_nil, Template.fill_nil, List.append_nil] at hfill
  have hbracedFill : Template.fill Template.isPlaceholderChar lookup ('{' :: (name.toList ++ ['}'])) =
      value.toList := by
    have htoken : Template.token? Template.isPlaceholderChar (name.toList ++ ['}']) =
        some (name.toList, []) := Template.token?_eq_some_iff.mpr ⟨rfl, hne, hname⟩
    rw [Template.fill_token htoken, Template.fill_nil, Template.shown, String.ofList_toList]
    simp [lookup, hknown]
  have hslash : '\\' ∉ name.toList ∧ '"' ∉ name.toList := ⟨hreads.no_backslash, hreads.no_quote⟩
  have hbracedPlain : '"' ∉ '{' :: (name.toList ++ ['}']) ∧ '\\' ∉ '{' :: (name.toList ++ ['}']) := by
    simp [hslash]
  have hbare : bareName name.toList = name.toList :=
    bareName_eq_self fun c hc => (Term.isNameChar_of_isPlaceholderChar (hname c hc)).1
  have hplainHolds : holds engine.backend actor ctx
      (.placeholder (String.ofList (bareName name.toList)) op (String.ofList literal.toList)) =
        op.holds value literal := by
    rw [hbare, String.ofList_toList, String.ofList_toList, holds, hknown, Option.getD_some]
  have hbracedHolds : holds engine.backend actor ctx
      (.placeholder (String.ofList (bareName value.toList)) op (String.ofList literal.toList)) =
        op.holds again literal := by
    rw [String.ofList_toList, holds]
  have hplain : plain.1 = (take (op.holds value literal)).1 ∧
      plain.2.backend = (take (op.holds value literal)).2.backend := by
    have hrun := sameRun_check engine.config h.alike hcheck op
      ⟨hreads.no_quote, hreads.no_backslash⟩ hliteral htail hbranches hfree hplainFill hreads
    rw [← hplainHolds]
    exact runProcess_of_sameRun hrun
  have hbraced : braced.1 = (take (op.holds again literal)).1 ∧
      braced.2.backend = (take (op.holds again literal)).2.backend := by
    have hrun := sameRun_check engine.config h.alike hcheck op hbracedPlain hliteral htail hbranches hfree
      hbracedFill hvalue
    rw [← hbracedHolds]
    exact runProcess_of_sameRun hrun
  refine ⟨hplain, hbraced, fun hsame => ?_⟩
  rw [hsame] at hbraced
  exact ⟨hbraced.1.trans hplain.1.symm, hbraced.2.trans hplain.2.symm⟩

/-- A value that is no placeholder's name. -/
theorem executeRaw_braced_rank :
    let engine := start Config.standard ⟨Backend.empty, Registry.builtin Config.standard, []⟩
    let actor : Actor := ⟨"1", "Alex", none⟩
    let ctx : Context := { Context.empty with placeholders := [("rank", "vip")] }
    let tail := " true: message:A false: message:B".toList
    let run := fun shown => engine.executeRaw actor (checkText (writeBare shown .equal "vip".toList) tail) ctx
    let plain := run "rank".toList
    let braced := run ('{' :: ("rank".toList ++ ['}']))
    Used engine ∧ engine.registry.lookup "check" = some .conditional ∧ "rank".toList ≠ [] ∧
      (∀ c ∈ "rank".toList, Template.isPlaceholderChar c = true) ∧ IsLiteral "vip".toList ∧
      trimEnd tail = tail ∧ Conditional.ReadsBranches tail ["message:A"] ["message:B"] ∧
      Template.TokenFree tail ∧
      Placeholder.lookup engine.backend.placeholders.get? actor ctx "rank" = some "vip" ∧
      ReadsAsName "vip".toList ∧ braced.1 = plain.1 ∧ braced.2.backend = plain.2.backend := by
  intro engine actor ctx tail run plain braced
  have hused : Used engine := .start _ _
  have hcheck := Registry.lookup_builtin_check Config.standard
  have hliteral : IsLiteral "vip".toList := ⟨by decide, List.all_iff_forall_prop.mp (by decide)⟩
  have hname : ∀ {s : List Char}, s.all Template.isPlaceholderChar = true →
      ∀ c ∈ s, Template.isPlaceholderChar c = true := List.all_eq_true.mp
  have hrank : ∀ c ∈ "rank".toList, Template.isPlaceholderChar c = true := hname (by decide)
  have htail : trimEnd tail = tail := by decide
  have hbranches : Conditional.ReadsBranches tail ["message:A"] ["message:B"] := by
    refine ⟨[' '], Conditional.trueKeyword, " message:A false: message:B".toList, ?_, ?_, ?_⟩
    · exact isBlank_of_mem_singleton (by decide)
    · decide +kernel
    · rfl
  have hfree : Template.TokenFree tail := by decide
  have hknown : Placeholder.lookup engine.backend.placeholders.get? actor ctx "rank" = some "vip" := rfl
  have hvalue : ReadsAsName "vip".toList :=
    readsAsName_of_isPlaceholderChar (by decide) (hname (by decide))
  have htake := executeRaw_braced hused hcheck actor ctx .equal (by decide) hrank hliteral htail hbranches
    hfree hknown hvalue
  have hagain : Placeholder.lookup engine.backend.placeholders.get? actor ctx
      (String.ofList (bareName "vip".toList)) = none := by decide +kernel
  refine ⟨hused, hcheck, by decide, hrank, hliteral, htail, hbranches, hfree, hknown, hvalue,
    htake.2.2 ?_⟩
  rw [hagain]
  decide +kernel

/-- A value that is the name of another placeholder: the plain name is compared by its own value, the
name in braces by that of the other. -/
theorem braces_look_up_twice :
    let engine := start Config.standard ⟨Backend.empty, Registry.builtin Config.standard, []⟩
    let actor : Actor := ⟨"1", "Alex", none⟩
    let ctx : Context := { Context.empty with placeholders := [("rank", "vip"), ("vip", "no")] }
    let run := fun name => engine.executeRaw actor
      ("check:\"placeholder:" ++ name ++ " == vip\" true: message:A false: message:B") ctx
    Placeholder.lookup engine.backend.placeholders.get? actor ctx "rank" = some "vip" ∧
      (run "rank").2.backend.messages = ["A"] ∧ (run "\x7brank\x7d").2.backend.messages = ["B"] := by
  decide +kernel

end Engine

end MenuActions
