import Mathlib.Data.List.Induction
import MenuActions.Grammar.Condition

/-!
# What a condition means

A condition without parentheses is folded from the left, and neither connective binds closer than the
other.  `evaluate_iff_and_asked_eq` says without the fold when such a condition holds and which of its
terms are asked.

A condition holds when one of its terms carries it: a term that stands first or behind an "or", that
holds, and behind which every term joined by an "and" holds (`CarriedFrom`).  A term is asked when the
terms in front of it leave the value open (`IsAsked`).  Both are inductions over the condition from its
last term on, since the fold ends with that term; `concat_induction` is the principle, and one lemma for
each notion says what the last term adds to it.
-/

namespace MenuActions.Grammar.Expression

variable {holds : Term → Bool}

/-! ## Terms by their position -/

/-- The connective in front of a term. The first term has none. -/
def connective? (e : Expression) : Nat → Option Connective
  | 0 => none
  | j + 1 => e.rest[j]?.map Prod.fst

/-- The condition up to a term: the first term and so many after it. -/
def upTo (e : Expression) (more : Nat) : Expression :=
  ⟨e.first, e.rest.take more⟩

/-- The condition with one more term at its end. -/
def concat (e : Expression) (connective : Connective) (term : Term) : Expression :=
  ⟨e.first, e.rest ++ [(connective, term)]⟩

/-- Induction over the terms of a condition, the last one split off. -/
theorem concat_induction {P : Expression → Prop} (single : ∀ first, P ⟨first, []⟩)
    (concat : ∀ e connective term, P e → P (concat e connective term)) (e : Expression) : P e := by
  obtain ⟨first, rest⟩ := e
  induction rest using List.reverseRecOn with
  | nil => exact single first
  | append_singleton rest link ih => exact concat ⟨first, rest⟩ link.1 link.2 ih

theorem length_terms (e : Expression) : e.terms.length = e.rest.length + 1 := by
  simp [terms]

section Concat

variable (e : Expression) (connective : Connective) (term : Term)

theorem terms_concat : (e.concat connective term).terms = e.terms ++ [term] := by
  simp [terms, concat]

/-- A further term changes nothing in front of it. -/
theorem term_concat_of_lt {j : Nat} (hj : j < e.terms.length) :
    (e.concat connective term).terms[j]? = e.terms[j]? := by
  rw [terms_concat, List.getElem?_append_left hj]

theorem term_concat_self : (e.concat connective term).terms[e.terms.length]? = some term := by
  rw [terms_concat, List.getElem?_concat_length]

theorem connective_concat_of_lt {j : Nat} (hj : j < e.terms.length) :
    (e.concat connective term).connective? j = e.connective? j := by
  cases j with
  | zero => rfl
  | succ j =>
      rw [length_terms] at hj
      rw [connective?, connective?, concat, List.getElem?_append_left (by omega)]

theorem connective_concat_self :
    (e.concat connective term).connective? e.terms.length = some connective := by
  rw [length_terms, connective?, concat, List.getElem?_concat_length]
  rfl

theorem upTo_concat_of_le {more : Nat} (hmore : more ≤ e.rest.length) :
    (e.concat connective term).upTo more = e.upTo more := by
  rw [upTo, upTo, concat, List.take_append_of_le_length hmore]

theorem upTo_concat_self : (e.concat connective term).upTo e.rest.length = e := by
  rw [upTo_concat_of_le e connective term (Nat.le_refl _), upTo, List.take_length]

/-! ## The last term of the fold -/

theorem trace_concat :
    (e.concat connective term).trace holds = step holds (e.trace holds) (connective, term) := by
  rw [trace, trace, concat, List.foldl_append, List.foldl_cons, List.foldl_nil]

/-- An "and" needs the condition in front of it and its own term. -/
theorem evaluate_concat_and :
    (e.concat .and term).evaluate holds = (e.evaluate holds && holds term) := by
  rw [evaluate, evaluate, trace_concat, step]
  cases (e.trace holds).1 <;> simp

/-- An "or" needs one of the two. -/
theorem evaluate_concat_or :
    (e.concat .or term).evaluate holds = (e.evaluate holds || holds term) := by
  rw [evaluate, evaluate, trace_concat, step]
  cases (e.trace holds).1 <;> simp

end Concat

/-! ## When a condition holds -/

/-- The condition is carried from a position on: the term there begins an alternative and holds, and no
term behind it that is joined by an "and" fails. -/
structure CarriedFrom (holds : Term → Bool) (e : Expression) (i : Nat) : Prop where
  opens : i = 0 ∨ e.connective? i = some .or
  here : ∃ term, e.terms[i]? = some term ∧ holds term = true
  later : ∀ j term, i < j → e.connective? j = some .and → e.terms[j]? = some term →
    holds term = true

theorem CarriedFrom.lt_length {e : Expression} {i : Nat} (h : e.CarriedFrom holds i) :
    i < e.terms.length := by
  obtain ⟨term, hterm, -⟩ := h.here
  exact (List.getElem?_eq_some_iff.mp hterm).1

/-- A term in front of the last one carries the condition when it carries what stands in front of the
last term, and the last term does not break it off. -/
theorem carriedFrom_concat_of_lt {e : Expression} {connective : Connective} {term : Term} {i : Nat}
    (hi : i < e.terms.length) :
    (e.concat connective term).CarriedFrom holds i ↔
      e.CarriedFrom holds i ∧ (connective = .and → holds term = true) := by
  have hterm := fun {j} (hj : j < e.terms.length) => term_concat_of_lt e connective term hj
  have hconnective := fun {j} (hj : j < e.terms.length) =>
    connective_concat_of_lt e connective term hj
  constructor
  · rintro ⟨hopens, hhere, hlater⟩
    rw [hterm hi] at hhere
    rw [hconnective hi] at hopens
    refine ⟨⟨hopens, hhere, fun j other hij hand hother => ?_⟩, fun hand => ?_⟩
    · have hj : j < e.terms.length := (List.getElem?_eq_some_iff.mp hother).1
      exact hlater j other hij (by rw [hconnective hj, hand]) (by rw [hterm hj, hother])
    · refine hlater e.terms.length term hi ?_ (term_concat_self e connective term)
      rw [connective_concat_self, hand]
  · rintro ⟨⟨hopens, hhere, hlater⟩, hlast⟩
    refine ⟨by rwa [hconnective hi], by rwa [hterm hi], fun j other hij hand hother => ?_⟩
    have hle : j < e.terms.length + 1 := by
      have hlt := (List.getElem?_eq_some_iff.mp hother).1
      rwa [terms_concat, List.length_append, List.length_singleton] at hlt
    rcases Nat.lt_succ_iff_lt_or_eq.mp hle with hj | rfl
    · rw [hconnective hj] at hand
      rw [hterm hj] at hother
      exact hlater j other hij hand hother
    · rw [connective_concat_self, Option.some.injEq] at hand
      rw [term_concat_self, Option.some.injEq] at hother
      exact hother ▸ hlast hand

/-- The last term carries the condition when it is an alternative and holds. -/
theorem carriedFrom_concat_self {e : Expression} {connective : Connective} {term : Term} :
    (e.concat connective term).CarriedFrom holds e.terms.length ↔
      connective = .or ∧ holds term = true := by
  constructor
  · rintro ⟨hopens, ⟨other, hother, hholds⟩, -⟩
    rw [connective_concat_self, Option.some.injEq] at hopens
    rw [term_concat_self, Option.some.injEq] at hother
    have hpos : e.terms.length ≠ 0 := by
      rw [length_terms]
      omega
    exact ⟨hopens.resolve_left hpos, hother ▸ hholds⟩
  · rintro ⟨rfl, hholds⟩
    refine ⟨Or.inr (connective_concat_self e .or term), ⟨term, term_concat_self e .or term, hholds⟩,
      fun j other hj _ hother => ?_⟩
    have hlt := (List.getElem?_eq_some_iff.mp hother).1
    rw [terms_concat, List.length_append, List.length_singleton] at hlt
    omega

theorem exists_carriedFrom_concat {e : Expression} {connective : Connective} {term : Term} :
    (∃ i, (e.concat connective term).CarriedFrom holds i) ↔
      (∃ i, e.CarriedFrom holds i) ∧ (connective = .and → holds term = true) ∨
        connective = .or ∧ holds term = true := by
  constructor
  · rintro ⟨i, hi⟩
    have hle := hi.lt_length
    rw [terms_concat, List.length_append, List.length_singleton] at hle
    rcases Nat.lt_succ_iff_lt_or_eq.mp hle with hlt | rfl
    · obtain ⟨hcarried, hlast⟩ := (carriedFrom_concat_of_lt hlt).mp hi
      exact Or.inl ⟨⟨i, hcarried⟩, hlast⟩
    · exact Or.inr (carriedFrom_concat_self.mp hi)
  · rintro (⟨⟨i, hi⟩, hlast⟩ | hor)
    · exact ⟨i, (carriedFrom_concat_of_lt hi.lt_length).mpr ⟨hi, hlast⟩⟩
    · exact ⟨_, carriedFrom_concat_self.mpr hor⟩

theorem evaluate_iff_carried (e : Expression) :
    e.evaluate holds = true ↔ ∃ i, e.CarriedFrom holds i := by
  induction e using concat_induction with
  | single first =>
      constructor
      · intro hfirst
        exact ⟨0, Or.inl rfl, ⟨first, rfl, hfirst⟩, fun j term hj _ hterm => by
          have hlt := (List.getElem?_eq_some_iff.mp hterm).1
          rw [length_terms, List.length_nil] at hlt
          omega⟩
      · rintro ⟨i, hi⟩
        have hzero : i = 0 := by
          have hlt := hi.lt_length
          rw [length_terms, List.length_nil] at hlt
          omega
        obtain ⟨term, hterm, hholds⟩ := hi.here
        subst hzero
        obtain rfl : first = term := Option.some.inj hterm
        exact hholds
  | concat e connective term ih =>
      rw [exists_carriedFrom_concat, ← ih]
      cases connective with
      | and => simp [evaluate_concat_and]
      | or => simp [evaluate_concat_or]

/-! ## Which terms are asked -/

/-- Whether the term at a position is asked: the first one, and each later one whose connective lets it
change the value of the terms in front of it. -/
def IsAsked (holds : Term → Bool) (e : Expression) : Nat → Prop
  | 0 => True
  | j + 1 =>
      (e.connective? (j + 1) = some .and ∧ (e.upTo j).evaluate holds = true) ∨
        (e.connective? (j + 1) = some .or ∧ (e.upTo j).evaluate holds = false)

instance (holds : Term → Bool) (e : Expression) : (j : Nat) → Decidable (e.IsAsked holds j)
  | 0 => isTrue trivial
  | _ + 1 => inferInstanceAs (Decidable (_ ∧ _ ∨ _ ∧ _))

/-- The terms that are asked, as they stand in the condition. -/
def askedTerms (holds : Term → Bool) (e : Expression) : List Term :=
  (e.terms.zipIdx.filter fun entry => decide (e.IsAsked holds entry.2)).map Prod.fst

theorem isAsked_concat_of_lt {e : Expression} {connective : Connective} {term : Term} {j : Nat}
    (hj : j < e.terms.length) :
    (e.concat connective term).IsAsked holds j ↔ e.IsAsked holds j := by
  cases j with
  | zero => exact Iff.rfl
  | succ j =>
      have hrest : j ≤ e.rest.length := by
        rw [length_terms] at hj
        omega
      rw [IsAsked, IsAsked, connective_concat_of_lt e connective term hj,
        upTo_concat_of_le e connective term hrest]

theorem isAsked_concat_self {e : Expression} {connective : Connective} {term : Term} :
    (e.concat connective term).IsAsked holds e.terms.length ↔
      (connective = .and ∧ e.evaluate holds = true) ∨
        (connective = .or ∧ e.evaluate holds = false) := by
  have hself := connective_concat_self e connective term
  rw [length_terms] at hself ⊢
  rw [IsAsked, hself, upTo_concat_self, Option.some.injEq, Option.some.injEq]

theorem askedTerms_concat (e : Expression) (connective : Connective) (term : Term) :
    (e.concat connective term).askedTerms holds = e.askedTerms holds ++
      if (connective = .and ∧ e.evaluate holds = true) ∨
        (connective = .or ∧ e.evaluate holds = false) then [term] else [] := by
  have hfront : (e.terms.zipIdx.filter fun entry =>
      decide ((e.concat connective term).IsAsked holds entry.2)) =
        e.terms.zipIdx.filter fun entry => decide (e.IsAsked holds entry.2) := by
    refine List.filter_congr fun entry hentry => ?_
    have hlt : entry.2 < e.terms.length := by
      have hindex := List.snd_lt_of_mem_zipIdx hentry
      omega
    exact decide_eq_decide.mpr (isAsked_concat_of_lt hlt)
  have hlast : [term].zipIdx e.terms.length = [(term, e.terms.length)] := rfl
  rw [askedTerms, terms_concat, List.zipIdx_append, Nat.zero_add, hlast, List.filter_append,
    List.map_append, hfront, ← askedTerms]
  congr 1
  by_cases hasked : (e.concat connective term).IsAsked holds e.terms.length
  · rw [if_pos (isAsked_concat_self.mp hasked)]
    simp [hasked]
  · rw [if_neg fun h => hasked (isAsked_concat_self.mpr h)]
    simp [hasked]

theorem asked_concat (e : Expression) (connective : Connective) (term : Term) :
    (e.concat connective term).asked holds = e.asked holds ++
      if (connective = .and ∧ e.evaluate holds = true) ∨
        (connective = .or ∧ e.evaluate holds = false) then [term] else [] := by
  rw [asked, trace_concat, asked, evaluate, step]
  cases connective <;> cases (e.trace holds).1 <;> simp

theorem asked_eq_askedTerms (e : Expression) : e.asked holds = e.askedTerms holds := by
  induction e using concat_induction with
  | single first => rfl
  | concat e connective term ih => rw [asked_concat, askedTerms_concat, ih]

/-- A condition holds when one of its terms carries it to the end: a term that is the first or stands
behind an "or" holds, and so does every later term behind an "and". The terms that are asked for this,
each of them once and in their order, are the first and those that can change the value of what stands in
front of them: behind an "and" when it is true, behind an "or" when it is false. -/
theorem evaluate_iff_and_asked_eq (holds : Term → Bool) (e : Expression) :
    (e.evaluate holds = true ↔ ∃ i, e.CarriedFrom holds i) ∧
      e.asked holds = e.askedTerms holds :=
  ⟨evaluate_iff_carried e, asked_eq_askedTerms e⟩

/-- `a || b && c` with `a` alone: the "and" is folded last, and `b` is not asked. -/
example :
    let e : Expression := ⟨.permission "a", [(.or, .permission "b"), (.and, .permission "c")]⟩
    let holds : Term → Bool := (· == .permission "a")
    e.evaluate holds = false ∧ e.asked holds = [.permission "a", .permission "c"] := by
  decide

end MenuActions.Grammar.Expression
