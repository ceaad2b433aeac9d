import MenuActions.Placeholder
import MenuActions.Proofs.Template.Filling

/-!
# Filling is one simultaneous substitution

The tokens of a text are told by the text alone: a token stands wherever a name stands between braces
(`Occurs`).  No two of them overlap, because a name has no brace in it, so a text falls into tokens and
other characters in exactly one way (`Splits`).  Filling puts a value in the place of every token and
leaves the other characters as they are; what is put in is not looked at again.

`resolve_simultaneous` says so of the placeholders of an action, with two consequences: a text in which
no token has a value stays, and two texts may be filled one by one when no token reaches from one into
the other.
-/

namespace MenuActions.Template

variable {value : String → Option String} {s t text before name after : List Char}

/-! ## Occurrences -/

/-- A token stands in a text, with what is in front of it and behind it. -/
structure Occurs (text before name after : List Char) : Prop where
  text_eq : text = before ++ '{' :: (name ++ '}' :: after)
  name_ne_nil : name ≠ []
  name_chars : ∀ c ∈ name, isPlaceholderChar c = true

/-- A token of a text begins with its first character or stands in the rest. -/
theorem occurs_cons_iff {c : Char} :
    Occurs (c :: s) before name after ↔
      (before = [] ∧ c = '{' ∧ token? isPlaceholderChar s = some (name, after)) ∨
        ∃ front, before = c :: front ∧ Occurs s front name after := by
  rw [token?_eq_some_iff]
  constructor
  · rintro ⟨htext, hne, hchars⟩
    cases before with
    | nil =>
        obtain ⟨rfl, rfl⟩ := List.cons.inj htext
        exact Or.inl ⟨rfl, rfl, rfl, hne, hchars⟩
    | cons d front =>
        obtain ⟨rfl, rfl⟩ := List.cons.inj htext
        exact Or.inr ⟨front, rfl, rfl, hne, hchars⟩
  · rintro (⟨rfl, rfl, rfl, hne, hchars⟩ | ⟨front, rfl, rfl, hne, hchars⟩)
    · exact ⟨rfl, hne, hchars⟩
    · exact ⟨rfl, hne, hchars⟩

/-- The same token stands in a text with more in front of it. -/
theorem occurs_append_left_iff :
    Occurs (s ++ t) (s ++ before) name after ↔ Occurs t before name after := by
  constructor
  · rintro ⟨htext, hne, hchars⟩
    rw [List.append_assoc] at htext
    exact ⟨List.append_cancel_left htext, hne, hchars⟩
  · rintro ⟨rfl, hne, hchars⟩
    exact ⟨(List.append_assoc _ _ _).symm, hne, hchars⟩

/-- The same token stands in a text with more behind it. -/
theorem occurs_append_right_iff :
    Occurs (s ++ t) before name (after ++ t) ↔ Occurs s before name after := by
  have hassoc : before ++ '{' :: (name ++ '}' :: (after ++ t)) =
      (before ++ '{' :: (name ++ '}' :: after)) ++ t := by simp
  constructor
  · rintro ⟨htext, hne, hchars⟩
    rw [hassoc] at htext
    exact ⟨List.append_cancel_right htext, hne, hchars⟩
  · rintro ⟨rfl, hne, hchars⟩
    exact ⟨hassoc.symm, hne, hchars⟩

/-- No token begins where there is no opening brace. -/
theorem occurs_append_of_no_brace (h : '{' ∉ s) :
    Occurs (s ++ t) before name after ↔ ∃ front, before = s ++ front ∧ Occurs t front name after := by
  induction s generalizing before with
  | nil => simp
  | cons c s ih =>
      rw [List.mem_cons, not_or] at h
      rw [List.cons_append, occurs_cons_iff]
      constructor
      · rintro (⟨-, hc, -⟩ | ⟨front, rfl, hfront⟩)
        · exact absurd hc.symm h.1
        · obtain ⟨rest, rfl, hrest⟩ := (ih h.2).mp hfront
          exact ⟨rest, rfl, hrest⟩
      · rintro ⟨front, rfl, hfront⟩
        exact Or.inr ⟨s ++ front, rfl, (ih h.2).mpr ⟨front, rfl, hfront⟩⟩

/-- The tokens of a text that begins with a token: this one, and those behind it. None begins inside. -/
theorem occurs_token_iff {first rest : List Char}
    (h : token? isPlaceholderChar s = some (first, rest)) :
    Occurs ('{' :: s) before name after ↔
      (before = [] ∧ name = first ∧ after = rest) ∨
        ∃ front, before = ('{' :: (first ++ ['}'])) ++ front ∧ Occurs rest front name after := by
  obtain ⟨rfl, -, hchars⟩ := token?_eq_some_iff.mp h
  have hinside : '{' ∉ first ++ ['}'] := by
    intro hmem
    rcases List.mem_append.mp hmem with hmem | hmem
    · exact absurd (hchars _ hmem) (by decide)
    · exact absurd hmem (by decide)
  have hbehind := @occurs_append_of_no_brace (first ++ ['}']) rest
  rw [List.append_assoc, List.singleton_append] at hbehind
  rw [occurs_cons_iff, h]
  constructor
  · rintro (⟨rfl, -, hfound⟩ | ⟨front, rfl, hfront⟩)
    · obtain ⟨rfl, rfl⟩ := Prod.mk.inj (Option.some.inj hfound)
      exact Or.inl ⟨rfl, rfl, rfl⟩
    · obtain ⟨more, rfl, hmore⟩ := (hbehind hinside).mp hfront
      exact Or.inr ⟨more, rfl, hmore⟩
  · rintro (⟨rfl, rfl, rfl⟩ | ⟨front, rfl, hfront⟩)
    · exact Or.inl ⟨rfl, rfl, rfl⟩
    · exact Or.inr ⟨_, rfl, (hbehind hinside).mpr ⟨front, rfl, hfront⟩⟩

/-- Of two tokens of a text, the one that does not begin later is the other one or ends in front of
it. -/
theorem Occurs.same_or_behind {before' name' after' : List Char} (h : Occurs text before name after)
    (h' : Occurs text before' name' after') (hle : before.length ≤ before'.length) :
    (before = before' ∧ name = name') ∨ before.length + name.length + 2 ≤ before'.length := by
  have hprefix : before <+: before' :=
    List.prefix_of_prefix_length_le ⟨_, h.text_eq.symm⟩ ⟨_, h'.text_eq.symm⟩ hle
  obtain ⟨front, rfl⟩ := hprefix
  have htoken : token? isPlaceholderChar (name ++ '}' :: after) = some (name, after) :=
    token?_eq_some_iff.mpr ⟨rfl, h.name_ne_nil, h.name_chars⟩
  rw [h.text_eq, occurs_append_left_iff, occurs_token_iff htoken] at h'
  rcases h' with ⟨rfl, rfl, -⟩ | ⟨more, rfl, -⟩
  · exact Or.inl ⟨(List.append_nil _).symm, rfl⟩
  · refine Or.inr ?_
    simp only [List.length_append, List.length_cons, List.length_nil]
    omega

/-- The tokens of a text are pairwise disjoint. -/
theorem Occurs.disjoint {before' name' after' : List Char} (h : Occurs text before name after)
    (h' : Occurs text before' name' after') :
    (before = before' ∧ name = name') ∨ before.length + name.length + 2 ≤ before'.length ∨
      before'.length + name'.length + 2 ≤ before.length := by
  rcases Nat.le_total before.length before'.length with hle | hle
  · exact (h.same_or_behind h' hle).imp_right Or.inl
  · rcases h'.same_or_behind h hle with ⟨rfl, rfl⟩ | hbehind
    · exact Or.inl ⟨rfl, rfl⟩
    · exact Or.inr (Or.inr hbehind)

/-- A token begins in one text and ends in the text behind it. -/
def Straddled (s t : List Char) : Prop :=
  ∃ before name after, Occurs (s ++ t) before name after ∧ before.length < s.length ∧
    s.length < before.length + name.length + 2

/-- When no token straddles their border, two texts together have the tokens of each. -/
theorem occurs_append_iff (h : ¬Straddled s t) :
    Occurs (s ++ t) before name after ↔
      (∃ back, after = back ++ t ∧ Occurs s before name back) ∨
        ∃ front, before = s ++ front ∧ Occurs t front name after := by
  constructor
  · intro hoccurs
    by_cases hin : before.length + name.length + 2 ≤ s.length
    · have hends : before ++ '{' :: (name ++ ['}']) <+: s ++ t := ⟨after, by
        rw [hoccurs.text_eq]
        simp⟩
      have hlength : (before ++ '{' :: (name ++ ['}'])).length ≤ s.length := by
        simp only [List.length_append, List.length_cons, List.length_nil]
        omega
      obtain ⟨back, rfl⟩ := List.prefix_of_prefix_length_le hends (List.prefix_append s t) hlength
      have hafter : after = back ++ t := by
        have htext := hoccurs.text_eq
        simpa using htext.symm
      subst hafter
      exact Or.inl ⟨back, rfl, occurs_append_right_iff.mp hoccurs⟩
    · have hle : s.length ≤ before.length := by
        by_contra hlt
        exact h ⟨before, name, after, hoccurs, by omega, by omega⟩
      obtain ⟨front, rfl⟩ : s <+: before :=
        List.prefix_of_prefix_length_le (List.prefix_append s t) ⟨_, hoccurs.text_eq.symm⟩ hle
      exact Or.inr ⟨front, rfl, occurs_append_left_iff.mp hoccurs⟩
  · rintro (⟨back, rfl, hback⟩ | ⟨front, rfl, hfront⟩)
    · exact occurs_append_right_iff.mpr hback
    · exact occurs_append_left_iff.mpr hfront

/-! ## Texts in pieces -/

/-- A piece of a text: a token, or a character that belongs to none. -/
inductive Piece
  | char (c : Char)
  | token (name : List Char)
  deriving DecidableEq, Repr

namespace Piece

/-- The text of a piece. -/
def write : Piece → List Char
  | char c => [c]
  | token name => '{' :: (name ++ ['}'])

/-- What stands in the place of a piece: of a token that has a value, the value. -/
def filled (value : String → Option String) : Piece → List Char
  | char c => [c]
  | token name => shown value name

theorem write_ne_nil (piece : Piece) : piece.write ≠ [] := by
  cases piece <;> exact List.cons_ne_nil _ _

end Piece

/-- A token is one of the pieces, with what they are in front of it and behind it. -/
def StandsIn (pieces : List Piece) (before name after : List Char) : Prop :=
  ∃ front back, pieces = front ++ .token name :: back ∧ front.flatMap Piece.write = before ∧
    back.flatMap Piece.write = after

/-- A text in pieces: they make up the text, and its tokens are the tokens among them. -/
structure Splits (pieces : List Piece) (text : List Char) : Prop where
  text_eq : pieces.flatMap Piece.write = text
  occurs_iff : ∀ before name after, Occurs text before name after ↔ StandsIn pieces before name after

theorem standsIn_append_iff {pieces others : List Piece} :
    StandsIn (pieces ++ others) before name after ↔
      (∃ back, after = back ++ others.flatMap Piece.write ∧ StandsIn pieces before name back) ∨
        ∃ front, before = pieces.flatMap Piece.write ++ front ∧ StandsIn others front name after := by
  constructor
  · rintro ⟨front, back, hpieces, rfl, rfl⟩
    rcases List.append_eq_append_iff.mp hpieces with ⟨middle, rfl, rfl⟩ | ⟨middle, rfl, hmiddle⟩
    · exact Or.inr ⟨_, List.flatMap_append, middle, back, rfl, rfl, rfl⟩
    · cases middle with
      | nil =>
          refine Or.inr ⟨[], by simp, [], back, ?_, rfl, rfl⟩
          simpa using hmiddle.symm
      | cons piece middle =>
          obtain ⟨rfl, rfl⟩ := List.cons.inj hmiddle
          exact Or.inl ⟨_, List.flatMap_append, front, middle, rfl, rfl, rfl⟩
  · rintro (⟨back, rfl, first, second, rfl, rfl, rfl⟩ | ⟨front, rfl, first, second, rfl, rfl, rfl⟩)
    · exact ⟨first, second ++ others, by simp, rfl, List.flatMap_append⟩
    · exact ⟨pieces ++ first, second, by simp, List.flatMap_append, rfl⟩

theorem Splits.append {pieces others : List Piece} (hs : Splits pieces s) (ht : Splits others t)
    (h : ¬Straddled s t) : Splits (pieces ++ others) (s ++ t) := by
  refine ⟨by rw [List.flatMap_append, hs.text_eq, ht.text_eq], fun before name after => ?_⟩
  rw [occurs_append_iff h, standsIn_append_iff, hs.text_eq, ht.text_eq]
  simp only [hs.occurs_iff, ht.occurs_iff]

theorem splits_nil : Splits [] [] := by
  refine ⟨rfl, fun before name after => iff_of_false ?_ ?_⟩
  · rintro ⟨htext, -, -⟩
    exact absurd htext (by simp)
  · rintro ⟨front, back, hpieces, -, -⟩
    exact absurd hpieces (by simp)

theorem splits_char (c : Char) : Splits [.char c] [c] := by
  refine ⟨rfl, fun before name after => iff_of_false ?_ ?_⟩
  · -- A text of one character has no room for a token.
    intro h
    have hlength := congrArg List.length h.text_eq
    simp only [List.length_append, List.length_cons, List.length_nil] at hlength
    omega
  · rintro ⟨front, back, hpieces, -, -⟩
    have hmem : Piece.token name ∈ [Piece.char c] := by
      rw [hpieces]
      simp
    exact absurd hmem (by simp)

theorem splits_token {name rest : List Char} (h : token? isPlaceholderChar s = some (name, rest)) :
    Splits [.token name] ('{' :: (name ++ ['}'])) := by
  obtain ⟨rfl, hne, hchars⟩ := token?_eq_some_iff.mp h
  have htoken : token? isPlaceholderChar (name ++ ['}']) = some (name, []) :=
    token?_eq_some_iff.mpr ⟨rfl, hne, hchars⟩
  refine ⟨by simp [Piece.write], fun before other after => ?_⟩
  rw [occurs_token_iff htoken]
  constructor
  · rintro (⟨rfl, rfl, rfl⟩ | ⟨front, -, hfront⟩)
    · exact ⟨[], [], rfl, rfl, rfl⟩
    · exact absurd ((splits_nil.occurs_iff _ _ _).mp hfront) fun ⟨_, _, hpieces, _⟩ => by
        simp at hpieces
  · rintro ⟨front, back, hpieces, rfl, rfl⟩
    refine Or.inl ?_
    cases front with
    | nil =>
        obtain ⟨hname, rfl⟩ := List.cons.inj hpieces
        exact ⟨rfl, (Piece.token.inj hname).symm, rfl⟩
    | cons piece front => simp at hpieces

/-- A character that begins no token does not reach into the text behind it. -/
theorem not_straddled_char {c : Char} (h : c = '{' → token? isPlaceholderChar s = none) :
    ¬Straddled [c] s := by
  rintro ⟨before, name, after, hoccurs, hbefore, -⟩
  obtain rfl : before = [] := List.eq_nil_of_length_eq_zero (Nat.lt_one_iff.mp hbefore)
  rw [List.singleton_append, occurs_cons_iff] at hoccurs
  rcases hoccurs with ⟨-, hc, hsome⟩ | ⟨front, hfront, -⟩
  · rw [h hc] at hsome
    exact absurd hsome (by simp)
  · exact absurd hfront (by simp)

/-- A token does not reach into the text behind it. -/
theorem not_straddled_token {name rest : List Char}
    (h : token? isPlaceholderChar s = some (name, rest)) :
    ¬Straddled ('{' :: (name ++ ['}'])) rest := by
  rintro ⟨before, other, after, hoccurs, hbefore, hbehind⟩
  obtain ⟨rfl, -, -⟩ := token?_eq_some_iff.mp h
  have htext : ('{' :: (name ++ ['}'])) ++ rest = '{' :: (name ++ '}' :: rest) := by simp
  rw [htext, occurs_token_iff h] at hoccurs
  simp only [List.length_append, List.length_cons, List.length_nil] at hbefore hbehind
  rcases hoccurs with ⟨rfl, rfl, -⟩ | ⟨front, rfl, -⟩
  · rw [List.length_nil] at hbehind
    omega
  · simp only [List.length_append, List.length_cons, List.length_nil] at hbefore
    omega

/-- Every text falls into pieces. -/
theorem exists_splits (text : List Char) : ∃ pieces, Splits pieces text := by
  induction text using fill_induction isPlaceholderChar with
  | nil => exact ⟨[], splits_nil⟩
  | char c s hc ih =>
      obtain ⟨pieces, hpieces⟩ := ih
      exact ⟨_, (splits_char c).append hpieces (not_straddled_char fun h => absurd h hc)⟩
  | brace s hnone ih =>
      obtain ⟨pieces, hpieces⟩ := ih
      exact ⟨_, (splits_char '{').append hpieces (not_straddled_char fun _ => hnone)⟩
  | token s name rest hsome ih =>
      obtain ⟨pieces, hpieces⟩ := ih
      have hall := (splits_token hsome).append hpieces (not_straddled_token hsome)
      have htext : ('{' :: (name ++ ['}'])) ++ rest = '{' :: s := by
        rw [(token?_eq_some_iff.mp hsome).1]
        simp
      exact ⟨_, htext ▸ hall⟩

/-- What is behind the first piece of a text is in pieces itself. -/
theorem Splits.tail {piece : Piece} {pieces : List Piece}
    (h : Splits (piece :: pieces) (piece.write ++ s)) :
    Splits pieces s := by
  have htext := h.text_eq
  rw [List.flatMap_cons] at htext
  refine ⟨List.append_cancel_left htext, fun before name after => ?_⟩
  rw [← @occurs_append_left_iff piece.write, h.occurs_iff, ← List.singleton_append,
    standsIn_append_iff]
  have hwrite : [piece].flatMap Piece.write = piece.write := List.flatMap_singleton _ _
  rw [hwrite]
  constructor
  · rintro (⟨back, -, front, rest, hpieces, hfront, -⟩ | ⟨front, hfront, hstands⟩)
    · -- The only piece in front has been passed, so the token is not among them.
      have hnil : front = [] := by
        have hlength := congrArg List.length hpieces
        simp only [List.length_append, List.length_cons, List.length_nil] at hlength
        exact List.eq_nil_of_length_eq_zero (by omega)
      rw [hnil, List.flatMap_nil] at hfront
      exact absurd (List.append_eq_nil_iff.mp hfront.symm).1 piece.write_ne_nil
    · rwa [List.append_cancel_left hfront]
  · exact fun hstands => Or.inr ⟨before, rfl, hstands⟩

/-- Filling puts a value in the place of every token that has one, all at once, and leaves the other
pieces of the text as they are. -/
theorem fill_eq_of_splits {pieces : List Piece} (h : Splits pieces text) :
    fill isPlaceholderChar value text = pieces.flatMap (Piece.filled value) := by
  induction pieces generalizing text with
  | nil =>
      obtain rfl : [] = text := h.text_eq
      exact fill_nil
  | cons piece pieces ih =>
      obtain rfl := h.text_eq
      rw [List.flatMap_cons] at h ⊢
      rw [List.flatMap_cons, ← ih h.tail]
      cases piece with
      | token name =>
          obtain ⟨-, hne, hchars⟩ := (h.occurs_iff [] name _).mpr ⟨[], pieces, rfl, rfl, rfl⟩
          have hwrite : (Piece.token name).write ++ pieces.flatMap Piece.write =
              '{' :: (name ++ '}' :: pieces.flatMap Piece.write) := by simp [Piece.write]
          rw [hwrite, fill_token (token?_eq_some_iff.mpr ⟨rfl, hne, hchars⟩)]
          rfl
      | char c =>
          by_cases hc : c = '{'
          · subst hc
            refine fill_brace ?_
            show token? isPlaceholderChar (pieces.flatMap Piece.write) = none
            cases hfound : token? isPlaceholderChar (pieces.flatMap Piece.write) with
            | none => rfl
            | some found =>
                -- A token here would be one of the pieces, but the first piece is a character.
                obtain ⟨name, rest⟩ := found
                have hoccurs : Occurs ('{' :: pieces.flatMap Piece.write) [] name rest :=
                  occurs_cons_iff.mpr (Or.inl ⟨rfl, rfl, hfound⟩)
                obtain ⟨front, back, hpieces, hfront, -⟩ := (h.occurs_iff [] name rest).mp hoccurs
                cases front with
                | nil => exact absurd (List.cons.inj hpieces).1 (by simp)
                | cons piece front =>
                    rw [List.flatMap_cons] at hfront
                    exact absurd (List.append_eq_nil_iff.mp hfront).1 piece.write_ne_nil
          · exact fill_cons hc

/-- A text in which no token has a value stays as it is. -/
theorem fill_eq_self_of_unknown
    (h : ∀ before name after, Occurs text before name after → value (String.ofList name) = none) :
    fill isPlaceholderChar value text = text := by
  obtain ⟨pieces, hpieces⟩ := exists_splits text
  rw [fill_eq_of_splits hpieces]
  conv_rhs => rw [← hpieces.text_eq]
  have hstays : ∀ piece ∈ pieces, piece.filled value = piece.write := by
    intro piece hpiece
    cases piece with
    | char c => rfl
    | token name =>
        obtain ⟨front, back, hfront⟩ := List.append_of_mem hpiece
        have hnone := h _ name _ ((hpieces.occurs_iff _ name _).mpr ⟨front, back, hfront, rfl, rfl⟩)
        rw [Piece.filled, shown, hnone]
        rfl
  exact List.flatMap_congr hstays

/-- Two texts may be filled one by one when no token straddles their border. -/
theorem fill_append (h : ¬Straddled s t) :
    fill isPlaceholderChar value (s ++ t) =
      fill isPlaceholderChar value s ++ fill isPlaceholderChar value t := by
  obtain ⟨pieces, hpieces⟩ := exists_splits s
  obtain ⟨others, hothers⟩ := exists_splits t
  rw [fill_eq_of_splits (hpieces.append hothers h), fill_eq_of_splits hpieces,
    fill_eq_of_splits hothers, List.flatMap_append]

end MenuActions.Template

namespace MenuActions.Placeholder

open Template

/-- Those who may know the value of a placeholder, in the order in which they are asked. -/
def sources (provider : String → Option String) (actor : Actor) (ctx : Context) :
    List (String → Option String) :=
  [ctx.placeholders.get?, fun name => (ctx.formResults.get? name).map formText, ofActor actor,
    provider]

/-- The value of a placeholder from the first who knows it. -/
def firstKnown (sources : List (String → Option String)) (name : String) : Option String :=
  sources.findSome? fun source => source name

theorem lookup_eq_firstKnown (provider : String → Option String) (actor : Actor) (ctx : Context) :
    lookup provider actor ctx = firstKnown (sources provider actor ctx) := by
  funext name
  simp only [lookup, firstKnown, sources, List.findSome?_cons, List.findSome?_nil]
  cases ctx.placeholders.get? name <;> cases (ctx.formResults.get? name).map formText <;>
    cases ofActor actor name <;> cases provider name <;> rfl

/-- The tokens of a text are disjoint, and resolving its placeholders puts the values of those that are
known in their places, all at once: the context's placeholders come first, then the form's results, then
what is known about the actor, then what the host provides. The other tokens and all other characters
stay. So a text stays in which no token is known, and two texts may be resolved one by one when no token
straddles their border. -/
theorem resolve_simultaneous (provider : String → Option String) (actor : Actor) (ctx : Context) :
    (∀ text before name after before' name' after', Occurs text before name after →
      Occurs text before' name' after' →
        (before = before' ∧ name = name') ∨ before.length + name.length + 2 ≤ before'.length ∨
          before'.length + name'.length + 2 ≤ before.length) ∧
    (∀ text, ∃ pieces, Splits pieces text) ∧
    (∀ (text : String) pieces, Splits pieces text.toList →
      (resolve provider actor ctx text).toList =
        pieces.flatMap (Piece.filled (firstKnown (sources provider actor ctx)))) ∧
    (∀ text : String, (∀ before name after, Occurs text.toList before name after →
        firstKnown (sources provider actor ctx) (String.ofList name) = none) →
      resolve provider actor ctx text = text) ∧
    ∀ text more : String, ¬Straddled text.toList more.toList →
      resolve provider actor ctx (text ++ more) =
        resolve provider actor ctx text ++ resolve provider actor ctx more := by
  simp only [resolve, lookup_eq_firstKnown, String.toList_append, String.toList_ofList]
  refine ⟨fun _ _ _ _ _ _ _ h h' => h.disjoint h', exists_splits, fun text pieces h => ?_,
    fun text h => ?_, fun text more h => ?_⟩
  · rw [fill_eq_of_splits h]
  · rw [fill_eq_self_of_unknown h, String.ofList_toList]
  · rw [fill_append h, String.ofList_append]

/-- Two tokens next to each other inside of braces that belong to neither, with values that are braces
and tokens themselves, and a token that nobody knows. -/
theorem resolve_simultaneous_braces :
    let ctx : Context := ⟨[("a", "\x7bb\x7d"), ("b", "\x7d")], [], [], none, 0⟩
    let filled := resolve (fun _ => none) ⟨"1", "Ann", none⟩ ctx
    let pieces : List Piece := [.char '{', .token ['a'], .token ['b'], .char '}']
    Occurs "\x7b\x7ba\x7d\x7bb\x7d\x7d".toList ['{'] ['a'] "\x7bb\x7d\x7d".toList ∧
      Occurs "\x7b\x7ba\x7d\x7bb\x7d\x7d".toList "\x7b\x7ba\x7d".toList ['b'] ['}'] ∧
      ['{'].length + ['a'].length + 2 ≤ "\x7b\x7ba\x7d".toList.length ∧
      Splits pieces "\x7b\x7ba\x7d\x7bb\x7d\x7d".toList ∧
      filled "\x7b\x7ba\x7d\x7bb\x7d\x7d" = "\x7b\x7bb\x7d\x7d\x7d" ∧
      filled "\x7bc\x7d" = "\x7bc\x7d" ∧
      filled ("\x7ba\x7d" ++ "\x7bb\x7d") = filled "\x7ba\x7d" ++ filled "\x7bb\x7d" := by
  intro ctx filled pieces
  obtain ⟨hdisjoint, -, hfilled, hunknown, happend⟩ :=
    resolve_simultaneous (fun _ => none) ⟨"1", "Ann", none⟩ ctx
  have hname : ∀ c : Char, isPlaceholderChar c = true → ∀ d ∈ [c], isPlaceholderChar d = true :=
    fun c hc d hd => List.mem_singleton.mp hd ▸ hc
  have hfirst : Occurs "\x7b\x7ba\x7d\x7bb\x7d\x7d".toList ['{'] ['a'] "\x7bb\x7d\x7d".toList :=
    ⟨by decide, by decide, hname _ (by decide)⟩
  have hsecond : Occurs "\x7b\x7ba\x7d\x7bb\x7d\x7d".toList "\x7b\x7ba\x7d".toList ['b'] ['}'] :=
    ⟨by decide, by decide, hname _ (by decide)⟩
  have ha : token? isPlaceholderChar "a\x7d\x7bb\x7d\x7d".toList =
      some (['a'], "\x7bb\x7d\x7d".toList) := by decide
  have hb : token? isPlaceholderChar "b\x7d\x7d".toList = some (['b'], ['}']) := by decide
  have hsplits : Splits pieces "\x7b\x7ba\x7d\x7bb\x7d\x7d".toList :=
    (splits_char '{').append ((splits_token ha).append ((splits_token hb).append (splits_char '}')
      (not_straddled_token hb)) (not_straddled_token ha)) (not_straddled_char fun _ => by decide)
  have hc : token? isPlaceholderChar "c\x7d".toList = some (['c'], []) := by decide
  have hborder : ¬Straddled "\x7ba\x7d".toList "\x7bb\x7d".toList := by
    have htoken : token? isPlaceholderChar "a\x7d\x7bb\x7d".toList =
        some (['a'], "\x7bb\x7d".toList) := by decide
    exact not_straddled_token htoken
  refine ⟨hfirst, hsecond, ?_, hsplits, ?_, hunknown _ ?_, happend _ _ hborder⟩
  · rcases hdisjoint _ _ _ _ _ _ _ hfirst hsecond with ⟨hsame, -⟩ | hbehind | hbefore
    · exact absurd hsame (by decide)
    · exact hbehind
    · exact absurd hbefore (by decide)
  · rw [← String.toList_inj]
    exact (hfilled _ pieces hsplits).trans (by decide)
  · intro before name after hoccurs
    rcases (occurs_token_iff hc).mp hoccurs with ⟨-, rfl, -⟩ | ⟨front, -, hfront⟩
    · decide
    · exact absurd hfront.text_eq (by simp)

end MenuActions.Placeholder
