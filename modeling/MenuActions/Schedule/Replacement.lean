/-!
# Replacing list members by smaller ones

A list in which one member after another gives way to any number of smaller ones comes to an end.

`wellFounded_replaces` says so: when the order of the members is well founded, so is replacement.
-/

namespace MenuActions.Schedule

variable {α : Type} {r : α → α → Prop}

/-- `after` comes from `before` by taking one member out and putting smaller ones in. -/
def Replaces (r : α → α → Prop) (after before : List α) : Prop :=
  ∃ x rest new, before.Perm (x :: rest) ∧ after.Perm (new ++ rest) ∧ ∀ y ∈ new, r y x

private theorem acc_of_perm {l k : List α} (h : Acc (Replaces r) l) (p : l.Perm k) :
    Acc (Replaces r) k :=
  ⟨_, fun _ ⟨x, rest, new, hk, ha, hn⟩ => h.inv ⟨x, rest, new, p.trans hk, ha, hn⟩⟩

private theorem perm_cons_cases {x z : α} {l rest : List α} (h : (x :: l).Perm (z :: rest)) :
    (x = z ∧ l.Perm rest) ∨ ∃ mid, l.Perm (z :: mid) ∧ rest.Perm (x :: mid) := by
  have hx : x ∈ z :: rest := h.subset List.mem_cons_self
  rcases List.mem_cons.mp hx with rfl | hx
  · exact Or.inl ⟨rfl, h.cons_inv⟩
  · obtain ⟨s, t, rfl⟩ := List.append_of_mem hx
    have hm : (s ++ x :: t).Perm (x :: (s ++ t)) := List.perm_middle
    refine Or.inr ⟨s ++ t, ?_, hm⟩
    have : (x :: l).Perm (x :: z :: (s ++ t)) :=
      h.trans ((hm.cons z).trans (List.Perm.swap x z (s ++ t)))
    exact this.cons_inv

private theorem acc_append {l : List α} (hl : Acc (Replaces r) l) :
    ∀ new : List α, (∀ y ∈ new, ∀ k, Acc (Replaces r) k → Acc (Replaces r) (y :: k)) →
      Acc (Replaces r) (new ++ l)
  | [], _ => hl
  | y :: new, h =>
      h y List.mem_cons_self _ (acc_append hl new fun z hz => h z (List.mem_cons_of_mem y hz))

private theorem acc_cons {x : α} (hx : Acc r x) :
    ∀ l : List α, Acc (Replaces r) l → Acc (Replaces r) (x :: l) := by
  induction hx with
  | intro x _ ihx =>
      intro l hl
      induction hl with
      | intro l hl ihl =>
          refine ⟨_, fun after ⟨z, rest, new, hb, ha, hn⟩ => ?_⟩
          rcases perm_cons_cases hb with ⟨rfl, hr⟩ | ⟨mid, hlz, hr⟩
          · have h := acc_append ⟨l, hl⟩ new fun y hy => ihx y (hn y hy)
            exact acc_of_perm h (((hr.append_left new)).trans ha.symm)
          · have h := ihl (new ++ mid) ⟨z, mid, new, hlz, List.Perm.refl _, hn⟩
            have hp : (x :: (new ++ mid)).Perm (new ++ rest) :=
              List.perm_middle.symm.trans (hr.symm.append_left new)
            exact acc_of_perm h (hp.trans ha.symm)

theorem wellFounded_replaces (h : WellFounded r) : WellFounded (Replaces r) := by
  refine ⟨fun l => ?_⟩
  induction l with
  | nil =>
      refine ⟨_, fun after ⟨x, rest, new, hb, _, _⟩ => ?_⟩
      exact absurd hb.length_eq (by simp)
  | cons x l ih => exact acc_cons (h.apply x) l ih

end MenuActions.Schedule
