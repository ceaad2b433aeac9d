import MenuActions.Proofs.Grammar.ConditionRoundTrip
import MenuActions.Proofs.Template.Substitution

/-!
# Comparisons without quotes

A condition of one comparison, with any text in place of the placeholder's name and a value that needs
no quotes.  `Expression.read_writeBare` says what is read of it when the text has nothing in it that the
grammar of conditions takes for something else: the name is the text without the blanks and braces
around it.
-/

namespace MenuActions.Grammar

open Text

/-- A comparison with a value that is not quoted. -/
def writeBare (name : List Char) (op : Comparison) (literal : List Char) : List Char :=
  Term.placeholderKeyword ++ (name ++ ' ' :: (op.symbol.toList ++ ' ' :: literal))

/-- A text that is read as a name where a name is expected. -/
structure ReadsAsName (s : List Char) : Prop where
  no_quote : '"' ∉ s
  no_backslash : '\\' ∉ s
  no_operator : ∀ op : Comparison, ¬op.symbol.toList <:+: s
  no_connective : ∀ connective : Connective, ¬connective.symbol <:+: s
  bareName_ne_nil : bareName s ≠ []

/-- A value that needs no quotes. -/
structure IsLiteral (s : List Char) : Prop where
  ne_nil : s ≠ []
  char : ∀ c ∈ s, Term.isNameChar c = true ∧ c ≠ '\\'

/-! ## The operator behind any text -/

/-- A keyword without letters is found as it is written. -/
theorem afterKeyword_plain {keyword : List Char} (s : List Char)
    (h : ∀ k ∈ keyword, k.toLower = k ∧ ¬('a' ≤ k ∧ k ≤ 'z')) :
    afterKeyword keyword s = if keyword.isPrefixOf s then some (s.drop keyword.length) else none := by
  induction keyword generalizing s with
  | nil => simp [afterKeyword]
  | cons k keyword ih =>
      obtain ⟨⟨hlower, hletter⟩, hkeyword⟩ := List.forall_mem_cons.mp h
      cases s with
      | nil => rfl
      | cons c s =>
          have hsame : k.toLower = c.toLower ↔ k = c := by
            rw [hlower]
            exact ⟨fun heq => (eq_of_toLower_eq hletter heq.symm).symm, fun heq => heq ▸ hlower.symm⟩
          rw [afterKeyword, ih s hkeyword]
          by_cases hk : k = c
          · rw [if_pos (hsame.mpr hk)]
            simp [hk]
          · rw [if_neg (mt hsame.mp hk)]
            simp [hk]

/-- A keyword that is found in front of a text and a blank is found in the text. -/
theorem prefix_of_afterKeyword {keyword s rest after : List Char}
    (hkeyword : ∀ k ∈ keyword, k.toLower = k ∧ ¬('a' ≤ k ∧ k ≤ 'z') ∧ k ≠ ' ')
    (h : afterKeyword keyword (s ++ ' ' :: rest) = some after) : keyword <+: s := by
  have hplain : ∀ k ∈ keyword, k.toLower = k ∧ ¬('a' ≤ k ∧ k ≤ 'z') := fun k hk =>
    ⟨(hkeyword k hk).1, (hkeyword k hk).2.1⟩
  rw [afterKeyword_plain _ hplain] at h
  split at h
  case isTrue hfound =>
    have hprefix : keyword <+: s ++ ' ' :: rest := List.isPrefixOf_iff_prefix.mp hfound
    rcases List.prefix_or_prefix_of_prefix hprefix (List.prefix_append s _) with hshort | ⟨more, rfl⟩
    · exact hshort
    · cases more with
      | nil => simp
      | cons c more =>
          obtain ⟨rfl, -⟩ := List.cons_prefix_cons.mp ((List.prefix_append_right_inj s).mp hprefix)
          exact absurd rfl (hkeyword ' ' (by simp)).2.2
  case isFalse => exact absurd h (by simp)

theorem Comparison.symbol_plain (op : Comparison) :
    ∀ k ∈ op.symbol.toList, k.toLower = k ∧ ¬('a' ≤ k ∧ k ≤ 'z') ∧ k ≠ ' ' := by
  cases op <;> exact List.all_iff_forall_prop.mp (by decide)

/-- The operator is looked for behind a text without one. -/
theorem splitOperator_past {s : List Char} (rest : List Char) (hquote : '"' ∉ s)
    (hop : ∀ op : Comparison, ¬op.symbol.toList <:+: s) :
    splitOperator false (s ++ ' ' :: rest) =
      (splitOperator false (' ' :: rest)).map fun (before, op, after) => (s ++ before, op, after) := by
  induction s with
  | nil => simp
  | cons c s ih =>
      rw [List.mem_cons, not_or] at hquote
      have hread : Comparison.read? (c :: (s ++ ' ' :: rest)) = none := by
        rw [Comparison.read?, List.findSome?_eq_none_iff]
        intro op _
        rw [Option.map_eq_none_iff, Option.eq_none_iff_forall_ne_some]
        intro after hafter
        rw [← List.cons_append] at hafter
        exact hop op (prefix_of_afterKeyword op.symbol_plain hafter).isInfix
      have hlater : ∀ op : Comparison, ¬op.symbol.toList <:+: s :=
        fun op hpart => hop op (hpart.trans (List.suffix_cons c s).isInfix)
      rw [List.cons_append, splitOperator, if_neg (Ne.symm hquote.1), if_neg Bool.false_ne_true, hread]
      simp only [ih hquote.2 hlater, Option.map_map]
      rfl

/-! ## Placeholder names -/

theorem Term.isNameChar_of_isPlaceholderChar {c : Char} (h : Template.isPlaceholderChar c = true) :
    isNameChar c = true ∧ c ≠ '\\' := by
  have hne : ∀ d, Template.isPlaceholderChar d = false → c ≠ d := by
    rintro d hd rfl
    rw [h] at hd
    exact Bool.noConfusion hd
  have hblank : isBlank c = false := by
    rw [← Bool.not_eq_true]
    intro hblank
    have hnot := (Template.isSeparator_of_isBlank hblank).1
    rw [h] at hnot
    exact Bool.noConfusion hnot
  refine ⟨?_, hne _ (by decide)⟩
  simp only [isNameChar, hblank, Bool.false_or, Bool.not_eq_true', List.contains_eq_mem,
    decide_eq_false_iff_not]
  intro hmem
  simp only [List.mem_cons, List.not_mem_nil, or_false] at hmem
  rcases hmem with h | h | h | h | h | h | h | h | h <;> exact hne _ (by decide) h

/-- A placeholder's name is read as itself. -/
theorem readsAsName_of_isPlaceholderChar {name : List Char} (hne : name ≠ [])
    (hname : ∀ c ∈ name, Template.isPlaceholderChar c = true) : ReadsAsName name := by
  have hnot : ∀ d, Template.isPlaceholderChar d = false → d ∉ name := by
    intro d hd hmem
    rw [hname d hmem] at hd
    exact Bool.noConfusion hd
  have hpart : ∀ (d : Char) (s : List Char), Template.isPlaceholderChar d = false →
      ¬d :: s <:+: name := fun d s hd h => hnot d hd (h.subset List.mem_cons_self)
  refine ⟨hnot _ (by decide), hnot _ (by decide), fun op => ?_, fun connective => ?_, ?_⟩
  · cases op
    · exact hpart '>' ['='] (by decide)
    · exact hpart '<' ['='] (by decide)
    · exact hpart '=' ['='] (by decide)
    · exact hpart '!' ['='] (by decide)
    · exact hpart '>' [] (by decide)
    · exact hpart '<' [] (by decide)
  · cases connective
    · exact hpart '&' ['&'] (by decide)
    · exact hpart '|' ['|'] (by decide)
  · rwa [bareName_eq_self fun c hc => (Term.isNameChar_of_isPlaceholderChar (hname c hc)).1]

/-! ## One comparison -/

section Bare

variable {name literal : List Char}

/-- A text without quotes and connectives is no place where a condition is cut. -/
theorem ReadsAsName.hidden (hname : ReadsAsName name) : Expression.Hidden false name := by
  intro before connective after h
  exact absurd ⟨before, after, by rw [h, List.append_assoc]⟩ (hname.no_connective connective)

theorem ReadsAsName.quotedBehind (hname : ReadsAsName name) :
    Expression.quotedBehind false name = false := by
  simp [Expression.quotedBehind, List.count_eq_zero.mpr hname.no_quote]

theorem IsLiteral.plain (hliteral : IsLiteral literal) : ∀ c ∈ literal, c ∉ ['"', '&', '|'] :=
  fun c hc => Expression.plain_of_isNodeChar
    (Expression.isNodeChar_of_isNameChar (hliteral.char c hc).1)

/-- The condition is one piece. -/
theorem Expression.splitTerms_writeBare (op : Comparison) (hname : ReadsAsName name)
    (hliteral : IsLiteral literal) :
    splitTerms false (writeBare name op literal) = (writeBare name op literal, []) := by
  have hkeyword : ∀ c ∈ Term.placeholderKeyword, c ∉ ['"', '&', '|'] :=
    List.all_iff_forall_prop.mp (by decide)
  have hright : ∀ c ∈ ' ' :: (op.symbol.toList ++ ' ' :: literal), c ∉ ['"', '&', '|'] := by
    have hsymbol : ∀ c ∈ op.symbol.toList, c ∉ ['"', '&', '|'] := by
      cases op <;> exact List.all_iff_forall_prop.mp (by decide)
    intro c hc
    rcases List.mem_cons.mp hc with rfl | hc
    · decide
    rcases List.mem_append.mp hc with hc | hc
    · exact hsymbol c hc
    rcases List.mem_cons.mp hc with rfl | hc
    · decide
    · exact hliteral.plain c hc
  have hescape := Template.escape_eq_self hname.no_quote hname.no_backslash
  have hspace : ' ' ≠ '|' ∧ ' ' ≠ '&' := by decide
  have hpast := splitTerms_escape (op.symbol.toList ++ ' ' :: literal) hspace hname.hidden
  have hend := splitTerms_append false [] hright
  rw [hescape, hname.quotedBehind] at hpast
  rw [List.append_nil, splitTerms, List.append_nil] at hend
  rw [writeBare, splitTerms_append _ _ hkeyword, hpast, hend]

/-- A comparison without quotes is read, and its name is the text in front of the operator without the
blanks and braces around it. -/
theorem Term.read_writeBare (op : Comparison) (hname : ReadsAsName name) (hliteral : IsLiteral literal) :
    read (writeBare name op literal) =
      .ok (.placeholder (String.ofList (bareName name)) op (String.ofList literal)) := by
  have hblank : ∀ c ∈ literal, isBlank c = false :=
    fun c hc => Term.isBlank_of_isNameChar (hliteral.char c hc).1
  have htrim : trim (writeBare name op literal) = writeBare name op literal := by
    have hhead : (writeBare name op literal).head? = some 'p' := rfl
    refine trim_eq_self_of_ends (fun c hc => ?_) fun c hc => ?_
    · rw [← Option.some.inj (hhead.symm.trans hc)]
      decide
    · have hends : writeBare name op literal =
          (Term.placeholderKeyword ++ (name ++ ' ' :: (op.symbol.toList ++ [' ']))) ++ literal := by
        simp [writeBare]
      rw [hends, List.getLast?_append_of_ne_nil _ hliteral.ne_nil] at hc
      exact hblank c (List.mem_of_getLast? hc)
  have hsplit : splitOperator false (name ++ ' ' :: (op.symbol.toList ++ ' ' :: literal)) =
      some (name ++ [' '], op, ' ' :: literal) := by
    have hplain : ∀ c ∈ [' '], c ∉ ['"', '>', '<', '=', '!'] :=
      List.all_iff_forall_prop.mp (by decide)
    have hspace := splitOperator_append (op.symbol.toList ++ ' ' :: literal) hplain
    rw [List.singleton_append, splitOperator_symbol] at hspace
    rw [splitOperator_past _ hname.no_quote hname.no_operator, hspace]
    rfl
  have hvalue : unquote (' ' :: literal) = .ok literal := by
    have hself : trim literal = literal :=
      trim_eq_self_of_ends (fun c hc => hblank c (List.mem_of_head? hc))
        fun c hc => hblank c (List.mem_of_getLast? hc)
    rw [unquote, trim, trimStart_cons_of_blank (by decide), ← trim, hself]
    split
    case h_1 quoted =>
      exact absurd rfl (Term.ne_of_isNameChar (d := '"') (hliteral.char _ List.mem_cons_self).1
        (by decide))
    case h_2 => rfl
  have hbare : bareName (name ++ [' ']) ≠ [] := by
    rw [bareName_concat]
    exact hname.bareName_ne_nil
  rw [read_comparison htrim hsplit hbare, hvalue, bareName_concat]

/-- The whole condition. -/
theorem Expression.read_writeBare (op : Comparison) (hname : ReadsAsName name)
    (hliteral : IsLiteral literal) :
    read (writeBare name op literal) =
      .ok ⟨.placeholder (String.ofList (bareName name)) op (String.ofList literal), []⟩ := by
  rw [read_eq, splitTerms_writeBare op hname hliteral, readPieces, Term.read_writeBare op hname hliteral]
  rfl

end Bare

end MenuActions.Grammar
