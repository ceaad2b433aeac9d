import Mathlib.Logic.Basic
import MenuActions.ActionResult
import MenuActions.Proofs.Json.Table

/-!
# What an aggregate says

The aggregate of some results holds how many of them succeeded, out of how many parts, and a line of
details for each of them.  `ActionResult.Reports` collects these facts, so that what is done to an
aggregate afterwards need only keep them.  `Status.Covers` says that a status speaks for each of some parts:
a counted status does, and `covers_flatten_iff` says when one counted over rows speaks for what is in them.
-/

namespace MenuActions

/-- No aggregate of fewer successes than parts is a success. -/
theorem Status.ofCounts_ne_success {succeeded total : Nat} (h : succeeded < total) :
    Status.ofCounts succeeded total ≠ .success := by
  unfold Status.ofCounts
  rw [if_neg (fun hall => absurd hall.2 (Nat.ne_of_lt h))]
  split
  · exact fun heq => Status.noConfusion heq
  · exact fun heq => Status.noConfusion heq

/-- Parts of which one succeeded are no failure. -/
theorem Status.ofCounts_ne_failure_iff {succeeded total : Nat} :
    Status.ofCounts succeeded total ≠ .failure ↔ 0 < succeeded := by
  unfold Status.ofCounts
  split
  · rename_i hall
    exact ⟨fun _ => by omega, fun _ h => Status.noConfusion h⟩
  · split
    · rename_i hsome
      exact ⟨fun _ => hsome, fun _ h => Status.noConfusion h⟩
    · rename_i hnone
      exact ⟨fun h => absurd rfl h, fun h => absurd h hnone⟩

/-- A status says of some parts, each with whether it succeeded, that none of them failed, that some
succeeded and others failed, or that none succeeded. -/
structure Status.Covers (status : Status) (parts : List Bool) : Prop where
  success : status = .success ↔ false ∉ parts
  partialSuccess : status = .partialSuccess ↔ true ∈ parts ∧ false ∈ parts
  failure : status = .failure ↔ true ∉ parts

/-- The status by counts covers the parts that were counted. -/
theorem Status.covers_ofCounts {parts : List Bool} (hparts : parts ≠ []) :
    (ofCounts (parts.countP id) parts.length).Covers parts := by
  have hpositive : 0 < parts.length := List.length_pos_iff.mpr hparts
  have htrue : 0 < parts.countP id ↔ true ∈ parts := by
    rw [List.countP_pos_iff]
    exact ⟨fun ⟨part, hmem, hpart⟩ => (show part = true from hpart) ▸ hmem, fun h => ⟨true, h, rfl⟩⟩
  have hall : parts.countP id = parts.length ↔ false ∉ parts := by
    rw [List.countP_eq_length]
    refine ⟨fun h hmem => absurd (h false hmem) (by decide), fun h part hmem => ?_⟩
    cases part with
    | true => rfl
    | false => exact absurd hmem h
  unfold ofCounts
  by_cases hfailed : false ∈ parts
  · rw [if_neg fun h => hall.mp h.2 hfailed]
    by_cases hsucceeded : true ∈ parts
    · rw [if_pos (htrue.mpr hsucceeded)]
      exact ⟨by simp [hfailed], by simp [hfailed, hsucceeded], by simp [hsucceeded]⟩
    · rw [if_neg fun h => hsucceeded (htrue.mp h)]
      exact ⟨by simp [hfailed], by simp [hsucceeded], by simp [hsucceeded]⟩
  · -- Without a failure all of them succeeded, and there is one.
    have hcount := hall.mpr hfailed
    have hsucceeded : true ∈ parts := htrue.mp (hcount ▸ hpositive)
    rw [if_pos ⟨hpositive, hcount⟩]
    exact ⟨by simp [hfailed], by simp [hfailed], by simp [hsucceeded]⟩

/-- A status that covers some parts covers others when successes and failures occur in both. -/
theorem Status.Covers.covers_iff {status : Status} {parts others : List Bool}
    (h : status.Covers parts) :
    status.Covers others ↔ (true ∈ parts ↔ true ∈ others) ∧ (false ∈ parts ↔ false ∈ others) := by
  constructor
  · intro h'
    exact ⟨not_iff_not.mp (h.failure.symm.trans h'.failure),
      not_iff_not.mp (h.success.symm.trans h'.success)⟩
  · rintro ⟨htrue, hfalse⟩
    exact ⟨h.success.trans (not_congr hfalse), h.partialSuccess.trans (and_congr htrue hfalse),
      h.failure.trans (not_congr htrue)⟩

/-- Parts in rows, of which each counts as succeeded when something in it did: the status that covers the
rows covers the parts exactly when some row failed as a whole, or nothing failed. -/
theorem Status.Covers.covers_flatten_iff {status : Status} {rows : List (List Bool)}
    (h : status.Covers (rows.map fun row => row.any id)) (hrows : ∀ row ∈ rows, row ≠ []) :
    status.Covers rows.flatten ↔ (∃ row ∈ rows, true ∉ row) ∨ false ∉ rows.flatten := by
  have hany : ∀ row : List Bool, row.any id = true ↔ true ∈ row := by
    intro row
    rw [List.any_eq_true]
    exact ⟨fun ⟨part, hmem, hpart⟩ => (show part = true from hpart) ▸ hmem, fun h => ⟨true, h, rfl⟩⟩
  have htrue : (true ∈ rows.map fun row => row.any id) ↔ true ∈ rows.flatten := by
    rw [List.mem_map, List.mem_flatten]
    exact exists_congr fun row => and_congr_right fun _ => hany row
  have hfalse : (false ∈ rows.map fun row => row.any id) ↔ ∃ row ∈ rows, true ∉ row := by
    rw [List.mem_map]
    exact exists_congr fun row => and_congr_right fun _ =>
      (Bool.not_eq_true _).symm.to_iff.trans (not_congr (hany row))
  -- A row that failed as a whole holds a failure, since it is not empty.
  have hholds : (∃ row ∈ rows, true ∉ row) → false ∈ rows.flatten := by
    rintro ⟨row, hrow, hnone⟩
    obtain ⟨part, hpart⟩ := List.exists_mem_of_ne_nil row (hrows row hrow)
    cases part with
    | true => exact absurd hpart hnone
    | false => exact List.mem_flatten.mpr ⟨row, hrow, hpart⟩
  rw [h.covers_iff, and_iff_right htrue, hfalse]
  constructor
  · intro hboth
    by_cases hfailed : false ∈ rows.flatten
    · exact Or.inl (hboth.mpr hfailed)
    · exact Or.inr hfailed
  · rintro (hrow | hnone)
    · exact ⟨hholds, fun _ => hrow⟩
    · exact ⟨hholds, fun hfailed => absurd hfailed hnone⟩

namespace ActionResult

/-- An error is a failure. -/
@[simp] theorem status_ofError (error : ActionError) : (ofError error).status = .failure := by
  cases error <;> rfl

/-- The status of an aggregate counts the parts that did not fail. -/
theorem status_aggregate (type : String) (results : List ActionResult) (total : Nat) :
    (aggregate type results total).status =
      Status.ofCounts ((results.map status).countP (· != .failure)) total := by
  have hcount : results.countP succeeded = (results.map status).countP (· != .failure) := by
    rw [List.countP_map]
    exact List.countP_congr fun result _ => by rw [result.succeeded_eq, Function.comp_apply]
  exact congrArg (Status.ofCounts · total) hcount

/-- An aggregate counts as succeeded when one of its parts does. -/
theorem succeeded_aggregate (type : String) (results : List ActionResult) (total : Nat) :
    (aggregate type results total).succeeded = results.any succeeded := by
  rw [Bool.eq_iff_iff, succeeded_iff, List.any_eq_true]
  show Status.ofCounts (results.countP succeeded) total ≠ .failure ↔ _
  rw [Status.ofCounts_ne_failure_iff, List.countP_pos_iff]

/-- A result says of some parts, out of `total`, how many of them succeeded and, for each of them in
its place, whether it did. -/
structure Reports (result : ActionResult) (parts : List ActionResult) (total : Nat) : Prop where
  status : result.status = Status.ofCounts (parts.countP succeeded) total
  successCount : result.replacements.get? "success_count" = some (.int (parts.countP succeeded))
  totalCount : result.replacements.get? "total_count" = some (.int total)
  details : ∃ details : List Json, result.replacements.get? "details" = some (.arr details) ∧
    details.length = parts.length ∧
    ∀ (i : Nat) (part : ActionResult), parts[i]? = some part →
      ∃ detail : Json, details[i]? = some detail ∧ detail.field? "index" = some (.int i) ∧
        detail.field? "success" = some (.bool part.succeeded)

theorem detailsFrom_eq (index : Nat) (parts : List ActionResult) :
    detailsFrom index parts = (parts.zipIdx index).map fun part => detail part.2 part.1 := by
  induction parts generalizing index with
  | nil => rfl
  | cons part parts ih => rw [detailsFrom, List.zipIdx_cons, List.map_cons, ih]

/-- A line of details has its index and says whether the part succeeded, also when it holds an
error. -/
theorem field?_detail (index : Nat) (part : ActionResult) :
    (detail index part).field? "index" = some (.int index) ∧
      (detail index part).field? "success" = some (.bool part.succeeded) := by
  unfold detail
  cases part.replacements.get? "error" with
  | none => exact ⟨rfl, rfl⟩
  | some error =>
      exact ⟨Table.get?_put_of_ne (by decide) _ _, Table.get?_put_of_ne (by decide) _ _⟩

theorem reports_aggregate (type : String) (parts : List ActionResult) (total : Nat) :
    (aggregate type parts total).Reports parts total := by
  refine ⟨rfl, ?_, ?_, detailsFrom 0 parts, ?_, ?_, ?_⟩
  · show ((((Table.put _ _ _).put _ _).put _ _).put _ _ : Table Json).get? _ = _
    rw [Table.get?_put_of_ne (by decide), Table.get?_put_of_ne (by decide), Table.get?_put_self]
  · show ((((Table.put _ _ _).put _ _).put _ _).put _ _ : Table Json).get? _ = _
    rw [Table.get?_put_of_ne (by decide), Table.get?_put_self]
  · exact Table.get?_put_self _ _ _
  · rw [detailsFrom_eq, List.length_map, List.length_zipIdx]
  · intro i part hpart
    refine ⟨detail i part, ?_, field?_detail i part⟩
    rw [detailsFrom_eq, List.getElem?_map, List.getElem?_zipIdx, hpart, Option.map_some,
      Option.map_some, Nat.zero_add]

/-- A replacement under another name takes nothing from what a result says. -/
theorem Reports.put {result : ActionResult} {parts : List ActionResult} {total : Nat}
    (h : result.Reports parts total) (name : String) (value : Json)
    (hname : name ∉ ["success_count", "total_count", "details"]) :
    (result.put name value).Reports parts total := by
  simp only [List.mem_cons, List.not_mem_nil, or_false, not_or] at hname
  obtain ⟨hsuccess, htotal, hdetails⟩ := hname
  obtain ⟨details, hfound, hlines⟩ := h.details
  exact ⟨h.status, (Table.get?_put_of_ne (Ne.symm hsuccess) _ _).trans h.successCount,
    (Table.get?_put_of_ne (Ne.symm htotal) _ _).trans h.totalCount,
    details, (Table.get?_put_of_ne (Ne.symm hdetails) _ _).trans hfound, hlines⟩

/-- Nor does an error behind it. -/
theorem Reports.withCause {result : ActionResult} {parts : List ActionResult} {total : Nat}
    (h : result.Reports parts total) (error : ActionError) :
    (result.withCause error).Reports parts total :=
  ⟨h.status, h.successCount, h.totalCount, h.details⟩

end ActionResult

end MenuActions
