import MenuActions.Proofs.ActionResult.Aggregate
import MenuActions.ValueAction

/-!
# The ledger of service calls

The calls that a backend has recorded are the ledger of its balances: what was deposited, withdrawn and
set, replayed in order over the balances at the beginning, gives the balances now.  `Backend.Books` says
that some calls lead from one backend to another, with the replay as a part of it, and composes along a
run; `Backend.Accepts` adds that nothing but these calls has made a difference.

`attempted_attempt` is the main result: whatever a value action does with a value, on whatever backend,
it succeeds and one call is accepted, or it succeeds with the balance that was asked for, or it fails and
calls and balances are what they were, also when another form of a command was tried.
-/

namespace MenuActions

/-- The balance of a name after a call, given the balance before it. -/
def Call.settle (name : String) (held : Float) : Call → Float
  | .deposit actor amount _ => if actor = name then held + amount else held
  | .withdraw actor amount _ => if actor = name then held - amount else held
  | .setBalance actor amount => if actor = name then amount else held
  | _ => held

/-- The balance of a name after some calls, in order. -/
def Call.replay (name : String) (calls : List Call) (held : Float) : Float :=
  calls.foldl (Call.settle name) held

theorem Call.replay_append (name : String) (calls more : List Call) (held : Float) :
    replay name (calls ++ more) held = replay name more (replay name calls held) :=
  List.foldl_append

namespace Backend

/-- Some calls are booked between two backends: they are recorded behind the others, and the balances are
those that they lead to. -/
structure Books (b : Backend) (calls : List Call) (after : Backend) : Prop where
  recorded : after.calls = b.calls ++ calls
  balance : ∀ name, after.balance name = Call.replay name calls (b.balance name)

namespace Books

variable {b after last : Backend} {calls more : List Call}

theorem refl (b : Backend) : b.Books [] b :=
  ⟨(List.append_nil _).symm, fun _ => rfl⟩

theorem trans (h : b.Books calls after) (h' : after.Books more last) : b.Books (calls ++ more) last := by
  refine ⟨?_, fun name => ?_⟩
  · rw [h'.recorded, h.recorded, List.append_assoc]
  · rw [Call.replay_append, ← h.balance, h'.balance]

end Books

/-- A backend comes of another one by accepting some calls: they are booked, and nothing else changes. -/
structure Accepts (b : Backend) (calls : List Call) (after : Backend) : Prop
    extends Books b calls after where
  settings : after = { b with calls := after.calls, balances := after.balances }

namespace Accepts

variable {b after last : Backend} {calls more : List Call}

theorem refl (b : Backend) : b.Accepts [] b :=
  ⟨.refl b, rfl⟩

theorem trans (h : b.Accepts calls after) (h' : after.Accepts more last) :
    b.Accepts (calls ++ more) last := by
  refine ⟨h.toBooks.trans h'.toBooks, ?_⟩
  rw [h'.settings, h.settings]

/-- Neither permissions nor placeholders nor the kind of economy depend on the calls. -/
theorem placeholders (h : b.Accepts calls after) : after.placeholders = b.placeholders := by
  rw [h.settings]

end Accepts

/-! ## Service calls -/

/-- A call that is no payment changes no balance. -/
theorem accepts_record (b : Backend) {call : Call} (h : ∀ name held, call.settle name held = held) :
    b.Accepts [call] (b.record call) :=
  ⟨⟨rfl, fun name => (h name (b.balance name)).symm⟩, rfl⟩

/-- An account that is opened makes no difference to any balance. -/
theorem accepts_openAccount (b : Backend) (name : String) : b.Accepts [] (b.openAccount name) := by
  refine ⟨⟨(List.append_nil _).symm, fun other => ?_⟩, rfl⟩
  show ((b.balances.put name (b.balance name)).get? other).getD 0.0 = b.balance other
  by_cases hsame : other = name
  · rw [hsame, Table.get?_put_self]
    rfl
  · rw [Table.get?_put_of_ne hsame]
    rfl

/-- A payment is recorded with the balance that it leads to. -/
theorem accepts_pay (b : Backend) {name : String} {total : Float} {call : Call}
    (hname : call.settle name (b.balance name) = total)
    (hothers : ∀ other, other ≠ name → ∀ held, call.settle other held = held) :
    b.Accepts [call] (({ b with balances := b.balances.put name total } : Backend).record call) := by
  refine ⟨⟨rfl, fun other => ?_⟩, rfl⟩
  show ((b.balances.put name total).get? other).getD 0.0 = call.settle other (b.balance other)
  by_cases hsame : other = name
  · rw [hsame, Table.get?_put_self, hname]
    rfl
  · rw [Table.get?_put_of_ne hsame, hothers other hsame]
    rfl

/-- What a service call gives is fair: a value comes with one accepted call, and with a refusal no call is
accepted. -/
def Answer.Fair {α : Type} (b : Backend) : Answer α → Prop
  | (.ok _, after) => ∃ call, b.Accepts [call] after
  | (.error _, after) => b.Accepts [] after

/-- What is fair after a refusal is fair. -/
theorem Answer.Fair.of_refused {α : Type} {b after : Backend} {answer : Answer α} (h : answer.Fair after)
    (hrefused : b.Accepts [] after) : answer.Fair b := by
  obtain ⟨outcome, last⟩ := answer
  cases outcome with
  | ok _ =>
      obtain ⟨call, hcall⟩ := h
      exact ⟨call, hrefused.trans hcall⟩
  | error _ => exact hrefused.trans h

section Services

variable (b : Backend) (actor : Actor)

theorem fair_accept (command : String) {call : Call} (h : ∀ name held, call.settle name held = held) :
    (b.accept command call).Fair b := by
  unfold accept
  split
  · exact .refl b
  · exact ⟨call, b.accepts_record h⟩

theorem fair_deliver (text : String) {call : Call} (h : ∀ name held, call.settle name held = held) :
    (b.deliver text call).Fair b := by
  unfold deliver
  split
  · exact .refl b
  · exact ⟨call, b.accepts_record h⟩

theorem fair_runConsole (command : String) : (b.runConsole command).Fair b :=
  b.fair_accept command fun _ _ => rfl

theorem fair_playSound (sound : Sound) : (b.playSound actor sound).Fair b :=
  ⟨_, b.accepts_record fun _ _ => rfl⟩

theorem fair_deposit (amount : Float) : (b.deposit actor amount).Fair b :=
  ⟨_, b.accepts_pay (if_pos rfl) fun _ hother _ => if_neg (Ne.symm hother)⟩

theorem fair_withdraw (amount : Float) : (b.withdraw actor amount).Fair b := by
  have hopened := b.accepts_openAccount actor.name
  unfold withdraw
  dsimp only
  split
  · exact hopened
  · refine ⟨_, hopened.trans (accepts_pay _ (if_pos rfl) ?_)⟩
    exact fun _ hother _ => if_neg (Ne.symm hother)

theorem fair_setBalance (amount : Float) : (b.setBalance actor amount).Fair b :=
  ⟨_, b.accepts_pay (if_pos rfl) fun _ hother _ => if_neg (Ne.symm hother)⟩

end Services

end Backend

/-! ## Attempts -/

namespace ValueAction

/-- Whether a value only asks for a balance. -/
def asksBalance (action : ValueAction) (value : String) : Bool :=
  match action with
  | economy =>
      match EconomyOp.read? value.toList with
      | some .check => true
      | _ => false
  | _ => false

/-- What may come of an attempt at an action on a value: it succeeds with one accepted call, or with no
call when a balance was asked for, or it fails and no call is accepted, by way of a service or because the
value cannot be read. -/
inductive Attempted (action : ValueAction) (value : String) (b : Backend) : Effect → Prop
  | accepted {result : ActionResult} {call : Call} {after : Backend} :
      result.status = .success → action.asksBalance value = false → b.Accepts [call] after →
      Attempted action value b (.ok result, after)
  | answered {result : ActionResult} :
      result.status = .success → action.asksBalance value = true →
      Attempted action value b (.ok result, b)
  | refused (message : String) {after : Backend} : b.Accepts [] after →
      Attempted action value b (.error (.execution action.typeName message), after)
  | unread (reason : String) : action.isValid value = false →
      Attempted action value b (.error (.validation action.typeName reason), b)

section Attempts

variable {action : ValueAction} {value : String} {b : Backend}

/-- A fair service call makes an attempt. -/
theorem attempted_perform {α : Type} {answer : Backend.Answer α} {result : α → ActionResult}
    (hanswer : answer.Fair b) (hresult : ∀ a, (result a).status = .success)
    (hasks : action.asksBalance value = false) :
    Attempted action value b (perform action.typeName answer result) := by
  obtain ⟨outcome, after⟩ := answer
  cases outcome with
  | ok a =>
      obtain ⟨call, hcall⟩ := hanswer
      exact .accepted (hresult a) hasks hcall
  | error error => exact .refused error.message hanswer

/-- A console command makes an attempt, also when it is refused and another form of it is tried. -/
theorem attempted_performConsole (command : String) (retry : Option String) {result : ActionResult}
    (hresult : result.status = .success) (hasks : action.asksBalance value = false) :
    Attempted action value b (performConsole action.typeName command retry result b) := by
  have hfair := b.fair_runConsole command
  unfold performConsole
  generalize b.runConsole command = answer at hfair
  obtain ⟨outcome, after⟩ := answer
  cases outcome with
  | ok a => exact attempted_perform hfair (fun _ => hresult) hasks
  | error error =>
      cases retry with
      | none => exact .refused error.message hfair
      | some fallback =>
          have hretried := (after.fair_runConsole fallback).of_refused hfair
          exact attempted_perform hretried (fun _ => hresult) hasks

/-- A value that can be read makes an attempt when running what was read does. -/
theorem attempted_reading {α : Type} {read? : List Char → Option α} {run : α → Effect}
    (hvalid : action.isValid value = (read? value.toList).isSome)
    (hrun : ∀ parsed, read? value.toList = some parsed → Attempted action value b (run parsed)) :
    Attempted action value b (action.reading value read? b run) := by
  unfold reading
  cases hread : read? value.toList with
  | some parsed => exact hrun parsed hread
  | none =>
      refine .unread _ ?_
      rw [hvalid, hread]
      rfl

theorem attempted_economy (actor : Actor) {op : EconomyOp}
    (hread : EconomyOp.read? value.toList = some op) :
    Attempted economy value b
      (if b.hasEconomy then runEconomyService actor b op else runEconomyCommand actor b op) := by
  have hasks : ∀ {op}, EconomyOp.read? value.toList = some op → op ≠ .check →
      economy.asksBalance value = false := by
    intro op hread hop
    unfold asksBalance
    rw [hread]
    cases op with
    | check => exact absurd rfl hop
    | _ => rfl
  split
  · cases op with
    | add amount =>
        rw [runEconomyService]
        exact attempted_perform (b.fair_deposit actor amount) (fun _ => rfl) (hasks hread (by simp))
    | remove amount =>
        rw [runEconomyService]
        exact attempted_perform (b.fair_withdraw actor amount) (fun _ => rfl) (hasks hread (by simp))
    | set amount =>
        rw [runEconomyService]
        exact attempted_perform (b.fair_setBalance actor amount) (fun _ => rfl) (hasks hread (by simp))
    | check =>
        refine .answered rfl ?_
        unfold asksBalance
        rw [hread]
  · cases op with
    | add amount => exact attempted_performConsole _ none rfl (hasks hread (by simp))
    | remove amount => exact attempted_performConsole _ none rfl (hasks hread (by simp))
    | set amount => exact attempted_performConsole _ none rfl (hasks hread (by simp))
    | check => exact .refused _ (.refl b)

theorem attempted_inventory (actor : Actor) (op : InventoryOp) :
    Attempted inventory value b
      (match op with
      | .give item amount => runGive actor item amount b
      | .clear item amount => runClear actor item amount b) := by
  cases op with
  | give item amount => exact attempted_performConsole _ _ rfl rfl
  | clear item amount =>
      unfold runClear
      cases item with
      | none => exact attempted_performConsole _ none rfl rfl
      | some item => exact attempted_performConsole _ none rfl rfl

end Attempts

/-- Every value action, with or without a service for balances: on any backend an attempt at it succeeds
with the call that it makes, or fails and changes neither calls nor balances. -/
theorem attempted_attempt (action : ValueAction) (actor : Actor) (value : String) (b : Backend) :
    Attempted action value b (action.attempt actor value b) := by
  cases action with
  | message => exact attempted_perform (b.fair_deliver value fun _ _ => rfl) (fun _ => rfl) rfl
  | broadcast => exact attempted_perform (b.fair_deliver value fun _ _ => rfl) (fun _ => rfl) rfl
  | actionbar => exact attempted_perform (b.fair_deliver value fun _ _ => rfl) (fun _ => rfl) rfl
  | title =>
      refine attempted_reading rfl fun title _ => ?_
      exact attempted_perform (b.fair_deliver title.title fun _ _ => rfl) (fun _ => rfl) rfl
  | sound =>
      refine attempted_reading rfl fun sound _ => ?_
      exact attempted_perform (b.fair_playSound actor sound) (fun _ => rfl) rfl
  | command =>
      refine attempted_perform (b.fair_accept _ fun _ _ => rfl) ?_ rfl
      exact fun _ => rfl
  | console =>
      refine attempted_perform (b.fair_runConsole _) ?_ rfl
      exact fun _ => rfl
  | economy => exact attempted_reading rfl fun op hread => attempted_economy actor hread
  | gamemode => exact attempted_reading rfl fun mode _ => attempted_performConsole _ _ rfl rfl
  | inventory => exact attempted_reading rfl fun op _ => attempted_inventory actor op

/-- An attempt accepts one call when it succeeds, unless a balance was asked for, and none when it
fails. -/
theorem Attempted.accepts {action : ValueAction} {value : String} {b : Backend} {effect : Effect}
    (h : Attempted action value b effect) :
    ∃ calls, b.Accepts calls effect.2 ∧ calls.length =
      if effect.1.result.succeeded && !action.asksBalance value then 1 else 0 := by
  cases h with
  | @accepted result call after hsuccess hasks hcall =>
      refine ⟨[call], hcall, ?_⟩
      rw [Outcome.result, result.succeeded_eq, hsuccess, hasks]
      rfl
  | answered hsuccess hasks =>
      refine ⟨[], .refl b, ?_⟩
      rw [hasks, Bool.not_true, Bool.and_false]
      rfl
  | refused message hafter => exact ⟨[], hafter, rfl⟩
  | unread reason hinvalid => exact ⟨[], .refl b, rfl⟩

end ValueAction

end MenuActions
