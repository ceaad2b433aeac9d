import MenuActions.Proofs.Grammar.BareTerms
import MenuActions.Proofs.Grammar.ConditionRoundTrip
import MenuActions.Proofs.Grammar.Cursor
import MenuActions.Proofs.Grammar.DisplacedError
import MenuActions.Proofs.Grammar.KeywordBytes

/-!
# Conditions by cuts

The readers of terms and conditions on byte offsets.  A connective is looked for once for each of its two
kinds, and the text is cut at the one that stands first; `earlier_symbolAt` says that this is where
`Expression.splitTerms` cuts.  `term_eq` and `expression_eq` say that the readers give what the readers of
characters give.
-/

namespace MenuActions.Grammar.Cursor

open Text

/-! ## Terms -/

/-- What follows a keyword at the start of a text. -/
def afterPrefix (keyword text : List Char) : Option (Option (List Char)) := do
  match cutTo (byteLength keyword) text with
  | none => return none
  | some written =>
      if sameIgnoringCase written keyword then return some (← cutFrom (byteLength keyword) text)
      else return none

/-- The offset of the first operator outside quotes.  The part of the text that is still to come, at offset
`pos`, is given along. -/
def operatorAt (text : List Char) (pos : Nat) (quoted : Bool) :
    List Char → Option (Option (Nat × Comparison))
  | [] => return none
  | c :: rest => do
      let quoted := if c = '"' then !quoted else quoted
      if quoted then operatorAt text (pos + c.utf8Size) quoted rest
      else
        let here ← cutFrom pos text
        match Comparison.all.find? fun op => op.symbol.toList.isPrefixOf here with
        | some op => return some (pos, op)
        | none => operatorAt text (pos + c.utf8Size) quoted rest

/-- The text inside one pair of quotes. -/
def unquoted (text : List Char) : Cutting ParseError (List Char) := do
  let trimmed := trim text
  if trimmed.head? ≠ some '"' then return trimmed
  else
    let (value, stop) ← readQuoted trimmed 0 0
    let next ← skipWhile trimmed isBlank stop
    match ← peek trimmed next with
    | none => return value
    | some found => throw (.unexpected found next .endOfValue)

/-- One term of a condition. -/
def term (source : List Char) : Cutting TermError Term := do
  let text := trim source
  let shown := String.ofList text
  if text.isEmpty then throw .empty
  else
    match ← afterPrefix "placeholder:".toList text with
    | some rest =>
        match ← operatorAt rest 0 false rest with
        | none => throw (.missingOperator shown)
        | some (pos, op) =>
            let name := bareName (← cutTo pos rest)
            if name.isEmpty then throw (.missingName shown)
            else
              let written ← cutFrom (pos + byteLength op.symbol.toList) rest
              match ← (unquoted written).run with
              | .error error => throw (.badValue error)
              | .ok value => return .placeholder (String.ofList name) op (String.ofList value)
    | none =>
        match ← afterPrefix "permission:".toList text with
        | some rest =>
            let node := trim rest
            if node.isEmpty || node.any isBlank then throw (.badNode shown)
            else return .permission (String.ofList node)
        | none => throw (.unknown shown)

/-! ## Connectives -/

/-- The offset of the first `symbol` outside quotes. -/
def symbolAt (symbol text : List Char) (pos : Nat) (quoted : Bool) : List Char → Option (Option Nat)
  | [] => return none
  | c :: rest =>
      if c = '"' then symbolAt symbol text (pos + c.utf8Size) (!quoted) rest
      else if quoted then symbolAt symbol text (pos + c.utf8Size) quoted rest
      else do
        let here ← cutFrom pos text
        if symbol.isPrefixOf here then return some pos
        else symbolAt symbol text (pos + c.utf8Size) quoted rest

/-- The one of two connectives that stands first. -/
def earlier : Option Nat → Option Nat → Option (Nat × Connective)
  | none, none => none
  | some i, none => some (i, .or)
  | none, some j => some (j, .and)
  | some i, some j => if i ≤ j then some (i, .or) else some (j, .and)

/-- The first connective outside quotes and its offset. -/
def connectiveAt (text : List Char) : Option (Option (Nat × Connective)) := do
  return earlier (← symbolAt Connective.or.symbol text 0 false text)
    (← symbolAt Connective.and.symbol text 0 false text)

/-- The terms of a condition. -/
def terms (remaining : List Char) : Cutting TermError Expression := do
  match ← connectiveAt remaining with
  | none => return ⟨← term remaining, []⟩
  | some (pos, connective) =>
      let first ← term (← cutTo pos remaining)
      let after ← (cutFrom (pos + 2) remaining).attach
      let more ← terms after
      return ⟨first, (connective, more.first) :: more.rest⟩
termination_by remaining.length
decreasing_by
  exact length_lt_of_cutFrom after.property

/-- A condition. -/
def expression (source : List Char) : Cutting ParseError Expression := do
  match ← (terms source).run with
  | .ok found => return found
  | .error error => throw (.invalidCondition (String.ofList source) error.message)

/-! ## What they give -/

theorem afterPrefix_eq {keyword : List Char} (text : List Char) (h : IsAscii keyword) :
    afterPrefix keyword text = some (afterKeyword keyword text) := by
  cases hafter : afterKeyword keyword text with
  | some after =>
      obtain ⟨written, rfl, hsame⟩ := afterKeyword_eq_some hafter
      rw [afterPrefix, ← TopLevel.byteLength_of_same h hsame, cutTo_append, cutFrom_append]
      simp [hsame]
  | none =>
      rw [afterPrefix]
      cases hcut : cutTo (byteLength keyword) text with
      | none => rfl
      | some written =>
          obtain ⟨rest, rfl, -⟩ := exists_of_cutTo hcut
          cases hsame : sameIgnoringCase written keyword with
          | false => simp [hsame]
          | true =>
              rw [Conditional.afterKeyword_same rest hsame] at hafter
              exact absurd hafter (by simp)

/-- An operator is looked for as it is written. -/
theorem read?_eq_find? (s : List Char) :
    Comparison.read? s = (Comparison.all.find? fun op => op.symbol.toList.isPrefixOf s).map fun op =>
      (op, s.drop op.symbol.toList.length) := by
  have hplain : ∀ op : Comparison, ∀ k ∈ op.symbol.toList,
      k.toLower = k ∧ ¬('a' ≤ k ∧ k ≤ 'z') :=
    fun op k hk => ⟨(op.symbol_plain k hk).1, (op.symbol_plain k hk).2.1⟩
  unfold Comparison.read?
  induction Comparison.all with
  | nil => rfl
  | cons op ops ih =>
      rw [List.findSome?_cons, List.find?_cons, afterKeyword_plain s (hplain op), ih]
      cases op.symbol.toList.isPrefixOf s <;> rfl

theorem operatorAt_eq {text before : List Char} (quoted : Bool) (rest : List Char)
    (htext : text = before ++ rest) :
    operatorAt text (byteLength before) quoted rest =
      some ((splitOperator quoted rest).map fun parts =>
        (byteLength before + byteLength parts.1, parts.2.1)) := by
  induction rest generalizing before quoted with
  | nil => rfl
  | cons c rest ih =>
      have hnext : text = (before ++ [c]) ++ rest := by rw [htext]; simp
      have hlength : byteLength (before ++ [c]) = byteLength before + c.utf8Size := by simp
      have hlater : ∀ quoted, operatorAt text (byteLength before + c.utf8Size) quoted rest =
          some (((splitOperator quoted rest).map fun parts => (c :: parts.1, parts.2.1, parts.2.2)).map
            fun parts => (byteLength before + byteLength parts.1, parts.2.1)) := by
        intro quoted
        rw [← hlength, ih quoted hnext, hlength, Option.map_map]
        simp [Function.comp_def, Nat.add_assoc]
      have hhere : cutFrom (byteLength before) text = some (c :: rest) := htext ▸ cutFrom_append before _
      rw [operatorAt, splitOperator, hlater, read?_eq_find?, hhere]
      cases (if c = '"' then !quoted else quoted) with
      | true => rfl
      | false =>
          cases hfind : Comparison.all.find? fun op => op.symbol.toList.isPrefixOf (c :: rest) with
          | none => simp [hfind]
          | some op => simp [hfind]

theorem unquoted_eq (text : List Char) : unquoted text = .of (unquote text) := by
  unfold unquoted unquote
  cases htrim : trim text with
  | nil => rfl
  | cons c quoted =>
      by_cases hquote : c = '"'
      · subst hquote
        have hwhole := List.suffix_refl ('"' :: quoted)
        have hvalue := readQuoted_eq 0 hwhole
        rw [offsetIn, Nat.sub_self] at hvalue
        simp only [List.head?_cons, ne_eq, not_true, if_false, hvalue]
        cases hquoted : Quoted.decode quoted with
        | none => rfl
        | some parts =>
            obtain ⟨value, after⟩ := parts
            have hafter := (suffix_of_decode hquoted).trans (List.suffix_cons '"' quoted)
            dsimp only
            have hrest : trimStart after <:+ '"' :: quoted := (List.dropWhile_suffix _).trans hafter
            rw [Cutting.of_ok_bind, skipBlanks_eq hafter, Cutting.lift_bind, peek_eq hrest,
              Cutting.lift_bind]
            cases trimStart after <;> rfl
      · simp [hquote]
        rfl

/-- What stands around the operator that is found. -/
theorem splitOperator_eq_some {quoted : Bool} {s before after : List Char} {op : Comparison}
    (h : splitOperator quoted s = some (before, op, after)) : s = before ++ (op.symbol.toList ++ after) := by
  induction s generalizing quoted before with
  | nil => exact absurd h (by simp [splitOperator])
  | cons c s ih =>
      unfold splitOperator at h
      dsimp only at h
      generalize (if c = '"' then !quoted else quoted) = inside at h
      split at h
      · rename_i found rest hhere
        obtain ⟨rfl, rfl, rfl⟩ : [] = before ∧ found = op ∧ rest = after := by simpa using h
        cases inside with
        | true => exact absurd hhere (by simp)
        | false =>
            rw [if_neg (by simp), read?_eq_find?, Option.map_eq_some_iff] at hhere
            obtain ⟨op, hfind, hparts⟩ := hhere
            obtain ⟨rfl, rfl⟩ := Prod.mk.inj hparts
            have hfound := List.find?_some hfind
            exact (List.prefix_iff_eq_append.mp (List.isPrefixOf_iff_prefix.mp hfound)).symm
      · obtain ⟨⟨front, found, rest⟩, hrest, hparts⟩ := Option.map_eq_some_iff.mp h
        simp only [Prod.mk.injEq] at hparts
        obtain ⟨rfl, rfl, rfl⟩ := hparts
        rw [ih hrest, List.cons_append]

theorem term_eq (source : List Char) : term source = .of (Term.read source) := by
  have hplaceholder : IsAscii "placeholder:".toList := by decide
  have hpermission : IsAscii "permission:".toList := by decide
  unfold term Term.read
  simp only [afterPrefix_eq _ hplaceholder, afterPrefix_eq _ hpermission, Cutting.lift_bind]
  split
  · rfl
  · cases afterKeyword "placeholder:".toList (trim source) with
    | some rest =>
        simp only
        have hoperator := operatorAt_eq false rest (List.nil_append rest).symm
        rw [byteLength_nil] at hoperator
        rw [hoperator, Cutting.lift_bind]
        cases hsplit : splitOperator false rest with
        | none => rfl
        | some parts =>
            obtain ⟨before, op, after⟩ := parts
            have hrest := splitOperator_eq_some hsplit
            have hname : cutTo (byteLength before) rest = some before := by
              rw [hrest]
              exact cutTo_append before _
            have hvalue : cutFrom (byteLength before + byteLength op.symbol.toList) rest = some after := by
              rw [hrest, ← List.append_assoc, ← byteLength_append]
              exact cutFrom_append _ after
            simp only [Option.map_some, Nat.zero_add]
            rw [hname, Cutting.lift_bind, hvalue]
            cases (bareName before).isEmpty with
            | true => rfl
            | false =>
                simp only [Bool.false_eq_true, if_false]
                rw [Cutting.lift_bind, unquoted_eq]
                cases unquote after <;> rfl
    | none =>
        simp only
        cases afterKeyword "permission:".toList (trim source) with
        | some rest =>
            simp only
            split <;> rfl
        | none => rfl

section Connectives

open Expression

variable {text before rest : List Char} {c : Char} {quoted : Bool}

/-- The search goes on behind a character at which the connective does not stand. -/
theorem symbolAt_cons {connective : Connective} (htext : text = before ++ c :: rest)
    (h : quoted = true ∨ ¬connective.symbol <+: c :: rest) :
    symbolAt connective.symbol text (byteLength before) quoted (c :: rest) =
      symbolAt connective.symbol text (byteLength (before ++ [c])) (toggle quoted c) rest := by
  have hlength : byteLength (before ++ [c]) = byteLength before + c.utf8Size := by simp
  have hhere : cutFrom (byteLength before) text = some (c :: rest) := htext ▸ cutFrom_append before _
  rw [symbolAt, toggle, hlength]
  by_cases hc : c = '"'
  · rw [if_pos hc, if_pos hc]
  · rw [if_neg hc, if_neg hc]
    cases quoted with
    | true => rfl
    | false =>
        rw [hhere]
        simp [h.resolve_left Bool.false_ne_true]

/-- Outside quotes a connective is found where it stands. -/
theorem symbolAt_of_prefix {connective : Connective} (htext : text = before ++ c :: rest)
    (h : connective.symbol <+: c :: rest) :
    symbolAt connective.symbol text (byteLength before) false (c :: rest) =
      some (some (byteLength before)) := by
  have hhere : cutFrom (byteLength before) text = some (c :: rest) := htext ▸ cutFrom_append before _
  have hc : c ≠ '"' := by
    rintro rfl
    obtain ⟨more, hmore⟩ := h
    cases connective <;> exact absurd (List.cons.inj hmore).1 (by decide)
  rw [symbolAt, if_neg hc, hhere]
  simp [h]

/-- Both searches find something at or behind the place where they begin, and the first of it is where the
text is cut. -/
theorem earlier_symbolAt (quoted : Bool) (rest : List Char) (htext : text = before ++ rest) :
    ∃ i j, symbolAt Connective.or.symbol text (byteLength before) quoted rest = some i ∧
      symbolAt Connective.and.symbol text (byteLength before) quoted rest = some j ∧
      (∀ n ∈ i, byteLength before ≤ n) ∧ (∀ n ∈ j, byteLength before ≤ n) ∧
      earlier i j = (splitTerms quoted rest).2.head?.map fun next =>
        (byteLength before + byteLength (splitTerms quoted rest).1, next.1) := by
  induction rest generalizing before quoted with
  | nil => exact ⟨none, none, rfl, rfl, by simp, by simp, rfl⟩
  | cons c rest ih =>
      have hnext : text = (before ++ [c]) ++ rest := by rw [htext]; simp
      have hlength : byteLength (before ++ [c]) = byteLength before + c.utf8Size := by simp
      have hsize := c.utf8Size_pos
      obtain ⟨i, j, hi, hj, hlei, hlej, hfirst⟩ := ih (toggle quoted c) hnext
      have hle : ∀ (k : Option Nat), (∀ n ∈ k, byteLength (before ++ [c]) ≤ n) →
          ∀ n ∈ k, byteLength before ≤ n := fun k hk n hn =>
        Nat.le_trans (hlength ▸ Nat.le_add_right _ _) (hk n hn)
      by_cases h : quoted = true ∨ ¬BeginsConnective (c :: rest)
      · have hnot : ∀ connective : Connective, quoted = true ∨ ¬connective.symbol <+: c :: rest :=
          fun connective => h.imp_right fun hnot ⟨more, hmore⟩ => hnot ⟨connective, more, hmore.symm⟩
        refine ⟨i, j, (symbolAt_cons htext (hnot _)).trans hi, (symbolAt_cons htext (hnot _)).trans hj,
          hle i hlei, hle j hlej, ?_⟩
        rw [hfirst, splitTerms_cons h]
        simp [Nat.add_assoc]
      · rw [not_or, not_not, Bool.not_eq_true] at h
        obtain ⟨rfl, connective, more, hsymbol⟩ := h
        have hother : ∀ other : Connective, other ≠ connective → ¬other.symbol <+: c :: rest := by
          rintro other hne ⟨after, hafter⟩
          rw [hsymbol] at hafter
          cases other <;> cases connective <;> simp_all [Connective.symbol]
        -- What the search for the other connective finds is further on.
        have hhere := symbolAt_of_prefix htext ⟨more, hsymbol.symm⟩
        rw [hsymbol, splitTerms_symbol, ← hsymbol]
        cases connective with
        | or =>
            refine ⟨_, j, hhere, (symbolAt_cons htext (.inr (hother .and (by decide)))).trans hj,
              by simp, hle j hlej, ?_⟩
            cases j with
            | none => simp [earlier]
            | some n =>
                have hn := hle _ hlej n rfl
                simp [earlier, hn]
        | and =>
            refine ⟨i, _, (symbolAt_cons htext (.inr (hother .or (by decide)))).trans hi, hhere,
              hle i hlei, by simp, ?_⟩
            cases i with
            | none => simp [earlier]
            | some n =>
                have hn : ¬n ≤ byteLength before := by
                  have := hlei n rfl
                  omega
                simp [earlier, hn]

/-- The connective that is found stands where the text is cut to pieces. -/
theorem connectiveAt_eq (text : List Char) :
    connectiveAt text = some ((splitTerms false text).2.head?.map fun next =>
      (byteLength (splitTerms false text).1, next.1)) := by
  obtain ⟨i, j, hi, hj, -, -, hfirst⟩ := earlier_symbolAt false text (List.nil_append text).symm
  rw [byteLength_nil] at hi hj
  simp only [byteLength_nil, Nat.zero_add] at hfirst
  rw [connectiveAt, hi, hj, ← hfirst]
  rfl

/-- The first piece runs to a connective, and the text behind that is cut in the same way. -/
theorem splitTerms_spec (quoted : Bool) (s : List Char) :
    ((splitTerms quoted s).2 = [] ∧ (splitTerms quoted s).1 = s) ∨
      ∃ connective after, s = (splitTerms quoted s).1 ++ (connective.symbol ++ after) ∧
        (splitTerms quoted s).2 =
          (connective, (splitTerms false after).1) :: (splitTerms false after).2 := by
  induction s generalizing quoted with
  | nil => exact .inl ⟨rfl, rfl⟩
  | cons c s ih =>
      by_cases h : quoted = true ∨ ¬BeginsConnective (c :: s)
      · rw [splitTerms_cons h]
        rcases ih (toggle quoted c) with ⟨hnil, hpiece⟩ | ⟨connective, after, hs, hmore⟩
        · exact .inl ⟨hnil, congrArg _ hpiece⟩
        · exact .inr ⟨connective, after, congrArg _ hs, hmore⟩
      · rw [not_or, not_not, Bool.not_eq_true] at h
        obtain ⟨rfl, connective, more, hsymbol⟩ := h
        rw [hsymbol, splitTerms_symbol]
        exact .inr ⟨connective, more, rfl, rfl⟩

theorem terms_eq (remaining : List Char) :
    terms remaining = .of (readPieces (splitTerms false remaining)) := by
  -- The induction is on the length of the text behind the connectives that have been found.
  induction hlength : remaining.length using Nat.strong_induction_on generalizing remaining with
  | _ n ih =>
      rw [terms, connectiveAt_eq, Cutting.lift_bind]
      have hspec := splitTerms_spec false remaining
      generalize splitTerms false remaining = pieces at hspec ⊢
      obtain ⟨piece, more⟩ := pieces
      simp only at hspec
      rcases hspec with ⟨rfl, rfl⟩ | ⟨connective, after, rfl, rfl⟩
      · rw [term_eq, readPieces]
        cases Term.read piece <;> rfl
      · have hfront : cutTo (byteLength piece) (piece ++ (connective.symbol ++ after)) = some piece :=
          cutTo_append piece _
        have hback : cutFrom (byteLength piece + 2) (piece ++ (connective.symbol ++ after)) = some after := by
          have hsymbol : byteLength connective.symbol = 2 := by cases connective <;> rfl
          rw [← hsymbol, ← byteLength_append, ← List.append_assoc]
          exact cutFrom_append _ after
        have hshorter : after.length < n := hlength ▸ length_lt_of_cutFrom hback
        simp only [List.head?_cons, Option.map_some]
        rw [hfront, Cutting.lift_bind, term_eq, readPieces_cons, hback]
        have hlater := ih after.length hshorter after rfl
        cases Term.read piece with
        | error error => rfl
        | ok first =>
            rw [Cutting.of_ok_bind, Option.attach_some, Cutting.lift_bind, hlater]
            cases readPieces (splitTerms false after) <;> rfl

end Connectives

theorem expression_eq (source : List Char) : expression source = .of (Expression.read source) := by
  rw [expression, terms_eq, Expression.read_eq]
  cases Expression.readPieces (Expression.splitTerms false source) <;> rfl

end MenuActions.Grammar.Cursor
