import MenuActions.Proofs.Grammar.ConditionTerms
import Mathlib.Algebra.Group.Nat.Even

/-!
# Conditions read back

A condition as it is written: terms with a connective between each two of them and blanks around both.
`Expression.read_joined` says which of these texts are read back: exactly those of legible conditions.

The connectives are looked for before the values are read, and this search takes every double quote for
the beginning or the end of a quoted value, also one that is escaped.  Inside a value it is therefore
outside quotes behind an odd number of double quotes, and it leaves a value with an odd number of them
as if the value went on.  `splitTerms_escape` follows the search through a value, `splitTerms_cut` says
where it cuts one.
-/

namespace MenuActions.Grammar

open Text

/-- The connective as it is written. -/
def Connective.symbol : Connective → List Char
  | .and => ['&', '&']
  | .or => ['|', '|']

/-- Whether a text begins with a connective. -/
def BeginsConnective (s : List Char) : Prop :=
  ∃ (connective : Connective) (rest : List Char), s = connective.symbol ++ rest

namespace Term

/-- Every connective inside the value stands behind an even number of double quotes. -/
def HidesConnectives (term : Term) : Prop :=
  ∀ (before : List Char) (connective : Connective) (after : List Char),
    term.quotedText = before ++ (connective.symbol ++ after) → Even (before.count '"')

/-- The value has an even number of double quotes. -/
def ClosesQuotes (term : Term) : Prop :=
  Even (term.quotedText.count '"')

end Term

/-- A term with the blanks around it. -/
structure SpacedTerm where
  front : List Char
  term : Term
  back : List Char

namespace SpacedTerm

/-- The text of a term with its blanks. -/
def write (spaced : SpacedTerm) : List Char :=
  spaced.front ++ (spaced.term.write ++ spaced.back)

structure WellFormed (spaced : SpacedTerm) : Prop where
  front_blank : ∀ c ∈ spaced.front, isBlank c = true
  term_wellFormed : spaced.term.WellFormed
  back_blank : ∀ c ∈ spaced.back, isBlank c = true

theorem WellFormed.read_term {spaced : SpacedTerm} (h : spaced.WellFormed) :
    Term.read spaced.write = .ok spaced.term :=
  Term.read_spaced h.term_wellFormed h.front_blank h.back_blank

end SpacedTerm

namespace Expression

/-- The text of a condition. -/
def write : SpacedTerm → List (Connective × SpacedTerm) → List Char
  | first, [] => first.write
  | first, (connective, next) :: rest => first.write ++ (connective.symbol ++ write next rest)

/-- The condition that was written. -/
def ofSpaced (first : SpacedTerm) (rest : List (Connective × SpacedTerm)) : Expression :=
  ⟨first.term, rest.map fun (connective, next) => (connective, next.term)⟩

/-- The search for connectives finds all of them and no other text for one. -/
def Legible (e : Expression) : Prop :=
  (∀ term ∈ e.terms, term.HidesConnectives) ∧ ∀ term ∈ e.terms.dropLast, term.ClosesQuotes

/-! ## Where a connective begins -/

theorem beginsConnective_cons {c : Char} {s : List Char} :
    BeginsConnective (c :: s) ↔ (c = '|' ∨ c = '&') ∧ s.head? = some c := by
  constructor
  · rintro ⟨connective, rest, h⟩
    cases connective <;> obtain ⟨rfl, rfl⟩ := List.cons.inj h <;> simp
  · rintro ⟨hc, hs⟩
    obtain ⟨rest, rfl⟩ : ∃ rest, s = c :: rest := ⟨s.tail, (List.cons_head?_tail hs).symm⟩
    rcases hc with rfl | rfl
    · exact ⟨.or, rest, rfl⟩
    · exact ⟨.and, rest, rfl⟩

/-- Quotes open and close at every double quote. -/
def toggle (quoted : Bool) (c : Char) : Bool :=
  if c = '"' then !quoted else quoted

theorem splitTerms_symbol (connective : Connective) (rest : List Char) :
    splitTerms false (connective.symbol ++ rest) =
      ([], (connective, (splitTerms false rest).1) :: (splitTerms false rest).2) := by
  cases connective <;> simp [Connective.symbol, splitTerms]

/-- A character that begins no connective belongs to the piece. -/
theorem splitTerms_plain {c : Char} {rest : List Char} (quoted : Bool)
    (h : ¬BeginsConnective (c :: rest)) :
    splitTerms quoted (c :: rest) =
      (c :: (splitTerms (toggle quoted c) rest).1, (splitTerms (toggle quoted c) rest).2) := by
  rw [splitTerms]
  · rfl
  · rintro more rfl rfl
    exact h ⟨.or, more, rfl⟩
  · rintro more rfl rfl
    exact h ⟨.and, more, rfl⟩

/-- Inside quotes every character belongs to the piece. -/
theorem splitTerms_quoted (c : Char) (rest : List Char) :
    splitTerms true (c :: rest) =
      (c :: (splitTerms (toggle true c) rest).1, (splitTerms (toggle true c) rest).2) := by
  -- Two characters of a connective are passed over at once, so the second is looked at again.
  induction rest generalizing c with
  | nil =>
      refine splitTerms_plain true ?_
      simp [beginsConnective_cons]
  | cons d rest ih =>
      by_cases h : BeginsConnective (c :: d :: rest)
      · obtain ⟨hc, hd⟩ := beginsConnective_cons.mp h
        obtain rfl : d = c := Option.some.inj hd
        rcases hc with rfl | rfl
        · rw [show toggle true '|' = true from rfl, ih]
          simp [splitTerms, toggle]
        · rw [show toggle true '&' = true from rfl, ih]
          simp [splitTerms, toggle]
      · exact splitTerms_plain true h

theorem splitTerms_cons {quoted : Bool} {c : Char} {rest : List Char}
    (h : quoted = true ∨ ¬BeginsConnective (c :: rest)) :
    splitTerms quoted (c :: rest) =
      (c :: (splitTerms (toggle quoted c) rest).1, (splitTerms (toggle quoted c) rest).2) := by
  rcases h with rfl | h
  · exact splitTerms_quoted c rest
  · exact splitTerms_plain quoted h

/-- A text without quotes and without the characters of connectives belongs to the piece. -/
theorem splitTerms_append {s : List Char} (quoted : Bool) (rest : List Char)
    (h : ∀ c ∈ s, c ∉ ['"', '&', '|']) :
    splitTerms quoted (s ++ rest) =
      (s ++ (splitTerms quoted rest).1, (splitTerms quoted rest).2) := by
  induction s with
  | nil => rfl
  | cons c s ih =>
      have hc := h c List.mem_cons_self
      simp only [List.mem_cons, List.not_mem_nil, or_false, not_or] at hc
      have hnot : ¬BeginsConnective (c :: (s ++ rest)) := by
        simp [beginsConnective_cons, hc]
      rw [List.cons_append, splitTerms_plain quoted hnot, toggle, if_neg hc.1,
        ih fun d hd => h d (List.mem_cons_of_mem c hd)]
      rfl

/-! ## The search inside a value -/

/-- Whether the search is inside quotes behind a text. -/
def quotedBehind (quoted : Bool) (s : List Char) : Bool :=
  if Even (s.count '"') then quoted else !quoted

theorem quotedBehind_cons (quoted : Bool) (c : Char) (s : List Char) :
    quotedBehind quoted (c :: s) = quotedBehind (toggle quoted c) s := by
  by_cases hc : c = '"'
  · subst hc
    by_cases hs : Even (s.count '"') <;>
      simp [quotedBehind, toggle, Nat.even_add_one, hs, List.count_cons_self]
  · simp [quotedBehind, toggle, hc, List.count_cons_of_ne]

/-- Behind a whole quoted value the search is where it would be if the value had no quotes around it. -/
theorem toggle_quotedBehind (s : List Char) :
    toggle (quotedBehind true s) '"' = quotedBehind false s := by
  by_cases hs : Even (s.count '"') <;> simp [quotedBehind, toggle, hs]

/-- Every connective of the text is inside quotes. -/
def Hidden (quoted : Bool) (s : List Char) : Prop :=
  ∀ (before : List Char) (connective : Connective) (after : List Char),
    s = before ++ (connective.symbol ++ after) → quotedBehind quoted before = true

theorem hidden_nil (quoted : Bool) : Hidden quoted [] := by
  intro before connective after h
  cases connective <;> simp [Connective.symbol] at h

theorem hidden_cons {quoted : Bool} {c : Char} {s : List Char} :
    Hidden quoted (c :: s) ↔
      (quoted = true ∨ ¬BeginsConnective (c :: s)) ∧ Hidden (toggle quoted c) s := by
  constructor
  · intro h
    refine ⟨?_, fun before connective after hs => ?_⟩
    · by_cases hbegins : BeginsConnective (c :: s)
      · obtain ⟨connective, after, hs⟩ := hbegins
        exact Or.inl (h [] connective after hs)
      · exact Or.inr hbegins
    · rw [← quotedBehind_cons]
      exact h (c :: before) connective after (by rw [hs, List.cons_append])
  · rintro ⟨hhere, hlater⟩ before connective after hs
    cases before with
    | nil => exact hhere.resolve_right fun hnot => hnot ⟨connective, after, hs⟩
    | cons d before =>
        obtain ⟨rfl, hrest⟩ := List.cons.inj hs
        rw [quotedBehind_cons]
        exact hlater before connective after hrest

instance decidableBegins (c : Char) (s : List Char) : Decidable (BeginsConnective (c :: s)) :=
  decidable_of_iff _ beginsConnective_cons.symm

instance decidableHidden : (quoted : Bool) → (s : List Char) → Decidable (Hidden quoted s)
  | quoted, [] => isTrue (hidden_nil quoted)
  | quoted, c :: s =>
      have := decidableHidden (toggle quoted c) s
      decidable_of_iff _ hidden_cons.symm

theorem escape_cons (c : Char) (s : List Char) :
    Quoted.escape (c :: s) = Quoted.escape [c] ++ Quoted.escape s := by
  simp only [Quoted.escape]
  split <;> rfl

section Value

variable {quoted : Bool} {c behind : Char} {value : List Char} (rest : List Char)

/-- Escaping puts no character into a connective, and what stands behind the value completes none. -/
theorem beginsConnective_escape (hbehind : behind ≠ '|' ∧ behind ≠ '&')
    (h : BeginsConnective (c :: (Quoted.escape value ++ behind :: rest))) :
    BeginsConnective (c :: value) := by
  obtain ⟨hc, hhead⟩ := beginsConnective_cons.mp h
  refine beginsConnective_cons.mpr ⟨hc, ?_⟩
  have hplain : c ≠ behind ∧ c ≠ '\\' := by
    rcases hc with rfl | rfl
    · exact ⟨hbehind.1.symm, by decide⟩
    · exact ⟨hbehind.2.symm, by decide⟩
  cases value with
  | nil => exact absurd (Option.some.inj hhead).symm hplain.1
  | cons d value =>
      rw [Quoted.escape] at hhead
      split at hhead
      · exact absurd (Option.some.inj hhead).symm hplain.2
      · exact hhead

/-- One character of a value, outside a connective or inside quotes. -/
theorem splitTerms_escape_cons (hbehind : behind ≠ '|' ∧ behind ≠ '&')
    (h : quoted = true ∨ ¬BeginsConnective (c :: value)) :
    splitTerms quoted (Quoted.escape (c :: value) ++ behind :: rest) =
      (Quoted.escape [c] ++
          (splitTerms (toggle quoted c) (Quoted.escape value ++ behind :: rest)).1,
        (splitTerms (toggle quoted c) (Quoted.escape value ++ behind :: rest)).2) := by
  have hplain : ∀ d : Char, d = '"' ∨ d = '\\' → ∀ s, ¬BeginsConnective (d :: s) := by
    rintro d (rfl | rfl) s <;> simp [beginsConnective_cons]
  by_cases hc : c = '"' ∨ c = '\\'
  · rw [Quoted.escape, if_pos hc, List.cons_append, List.cons_append,
      splitTerms_plain quoted (hplain '\\' (Or.inr rfl) _), splitTerms_plain _ (hplain c hc _)]
    simp [Quoted.escape, hc, toggle]
  · have hnext : quoted = true ∨ ¬BeginsConnective (c :: (Quoted.escape value ++ behind :: rest)) :=
      h.imp_right fun hnot hbegins => hnot (beginsConnective_escape rest hbehind hbegins)
    rw [Quoted.escape, if_neg hc, List.cons_append, splitTerms_cons hnext]
    simp [Quoted.escape, hc]

/-- A value whose connectives are hidden belongs to the piece as a whole. -/
theorem splitTerms_escape (hbehind : behind ≠ '|' ∧ behind ≠ '&') (h : Hidden quoted value) :
    splitTerms quoted (Quoted.escape value ++ behind :: rest) =
      (Quoted.escape value ++ (splitTerms (quotedBehind quoted value) (behind :: rest)).1,
        (splitTerms (quotedBehind quoted value) (behind :: rest)).2) := by
  induction value generalizing quoted with
  | nil => rfl
  | cons c value ih =>
      obtain ⟨hhere, hlater⟩ := hidden_cons.mp h
      rw [splitTerms_escape_cons rest hbehind hhere, ih hlater, ← quotedBehind_cons,
        ← List.append_assoc, ← escape_cons]

/-- Any other value is cut. -/
theorem splitTerms_cut (hbehind : behind ≠ '|' ∧ behind ≠ '&') (h : ¬Hidden quoted value) :
    (splitTerms quoted (Quoted.escape value ++ behind :: rest)).1 <+: Quoted.escape value := by
  induction value generalizing quoted with
  | nil => exact absurd (hidden_nil quoted) h
  | cons c value ih =>
      by_cases hhere : quoted = true ∨ ¬BeginsConnective (c :: value)
      · have hlater : ¬Hidden (toggle quoted c) value := fun hlater => h (hidden_cons.mpr ⟨hhere, hlater⟩)
        rw [splitTerms_escape_cons rest hbehind hhere, escape_cons c value]
        exact (List.prefix_append_right_inj _).mpr (ih hlater)
      · rw [not_or, not_not, Bool.not_eq_true] at hhere
        obtain ⟨rfl, connective, after, hvalue⟩ := hhere
        have hescape : Quoted.escape (c :: value) = connective.symbol ++ Quoted.escape after := by
          rw [hvalue]
          cases connective <;> simp [Connective.symbol, Quoted.escape]
        rw [hescape, List.append_assoc, splitTerms_symbol]
        exact List.nil_prefix

end Value

/-! ## The search and one written term -/

theorem hidden_quotedText (term : Term) : Hidden true term.quotedText ↔ term.HidesConnectives := by
  simp [Hidden, Term.HidesConnectives, quotedBehind]

instance decidableHides (term : Term) : Decidable term.HidesConnectives :=
  decidable_of_iff _ (hidden_quotedText term)

instance decidableCloses (term : Term) : Decidable term.ClosesQuotes :=
  inferInstanceAs (Decidable (Even _))

instance decidableLegible (e : Expression) : Decidable e.Legible :=
  inferInstanceAs (Decidable (_ ∧ _))

theorem quotedBehind_eq_false (term : Term) :
    quotedBehind false term.quotedText = false ↔ term.ClosesQuotes := by
  simp [quotedBehind, Term.ClosesQuotes]

theorem plain_of_isBlank {c : Char} (h : isBlank c = true) : c ∉ ['"', '&', '|'] := by
  intro hmem
  simp only [List.mem_cons, List.not_mem_nil, or_false] at hmem
  rcases hmem with rfl | rfl | rfl <;> exact absurd h (by decide)

theorem plain_of_isNodeChar {c : Char} (h : Term.isNodeChar c = true) : c ∉ ['"', '&', '|'] := by
  intro hmem
  simp only [List.mem_cons, List.not_mem_nil, or_false] at hmem
  rcases hmem with rfl | rfl | rfl <;> exact absurd h (by decide)

theorem isNodeChar_of_isNameChar {c : Char} (h : Term.isNameChar c = true) : Term.isNodeChar c = true := by
  simp only [Term.isNameChar, Term.isNodeChar, Bool.not_eq_true', Bool.or_eq_false_iff, List.contains_eq_mem,
    decide_eq_false_iff_not, List.mem_cons, List.not_mem_nil, or_false, not_or] at h ⊢
  exact ⟨h.1, h.2.1, h.2.2.2.2.1, h.2.2.2.2.2.1⟩

theorem plain_writeLeft {name : String} (op : Comparison)
    (hname : ∀ c ∈ name.toList, Term.isNameChar c = true) :
    ∀ c ∈ Term.writeLeft name op, c ∉ ['"', '&', '|'] := by
  have hkeyword : ∀ c ∈ Term.placeholderKeyword, c ∉ ['"', '&', '|'] :=
    List.all_iff_forall_prop.mp (by decide)
  have hsymbol : ∀ c ∈ op.symbol.toList, c ∉ ['"', '&', '|'] := by
    cases op <;> exact List.all_iff_forall_prop.mp (by decide)
  intro c hc
  simp only [Term.writeLeft, List.mem_append, List.mem_cons, List.not_mem_nil, or_false] at hc
  rcases hc with hc | hc | rfl | hc | rfl
  · exact hkeyword c hc
  · exact plain_of_isNodeChar (isNodeChar_of_isNameChar (hname c hc))
  · decide
  · exact hsymbol c hc
  · decide

theorem quote_behind : '"' ≠ '|' ∧ '"' ≠ '&' := by
  decide

/-- The search goes on inside quotes behind the left part of a comparison. -/
theorem splitTerms_writeLeft {front : List Char} {name : String} (op : Comparison) (rest : List Char)
    (hfront : ∀ c ∈ front, isBlank c = true) (hname : ∀ c ∈ name.toList, Term.isNameChar c = true) :
    splitTerms false (front ++ (Term.writeLeft name op ++ '"' :: rest)) =
      (front ++ (Term.writeLeft name op ++ '"' :: (splitTerms true rest).1),
        (splitTerms true rest).2) := by
  have hopen : ¬BeginsConnective ('"' :: rest) := by simp [beginsConnective_cons]
  rw [splitTerms_append _ _ fun c hc => plain_of_isBlank (hfront c hc),
    splitTerms_append _ _ (plain_writeLeft op hname), splitTerms_plain _ hopen]
  rfl

theorem write_placeholder_append (front back tail : List Char) (name : String) (op : Comparison)
    (value : String) :
    SpacedTerm.write ⟨front, .placeholder name op value, back⟩ ++ tail =
      front ++ (Term.writeLeft name op ++
        '"' :: (Quoted.escape value.toList ++ '"' :: (back ++ tail))) := by
  rw [SpacedTerm.write, List.append_assoc, List.append_assoc, Term.write_append]

section Piece

variable {spaced : SpacedTerm} (tail : List Char)

/-- The text of a term is one piece if the connectives in its value are hidden. Behind a value with an
odd number of quotes the search goes on inside quotes. -/
theorem splitTerms_write (hspaced : spaced.WellFormed) (hhides : spaced.term.HidesConnectives) :
    splitTerms false (spaced.write ++ tail) =
      (spaced.write ++ (splitTerms (quotedBehind false spaced.term.quotedText) tail).1,
        (splitTerms (quotedBehind false spaced.term.quotedText) tail).2) := by
  obtain ⟨front, term, back⟩ := spaced
  obtain ⟨hfront, hterm, hback⟩ := hspaced
  have hbehind := fun quoted => splitTerms_append quoted tail fun c hc => plain_of_isBlank (hback c hc)
  cases term with
  | placeholder name op value =>
      have hvalue := splitTerms_escape (back ++ tail) quote_behind
        ((hidden_quotedText _).mpr hhides)
      have hplain : ¬BeginsConnective ('"' :: (back ++ tail)) := by simp [beginsConnective_cons]
      rw [write_placeholder_append, splitTerms_writeLeft op _ hfront hterm.2]
      simp only [Term.quotedText] at hvalue ⊢
      rw [hvalue, splitTerms_plain _ hplain, toggle_quotedBehind, hbehind, write_placeholder_append]
  | permission node =>
      have hkeyword : ∀ c ∈ Term.permissionKeyword, c ∉ ['"', '&', '|'] :=
    List.all_iff_forall_prop.mp (by decide)
      have hquoted : quotedBehind false (Term.permission node).quotedText = false := rfl
      rw [hquoted]
      simp only [SpacedTerm.write, Term.write, List.append_assoc,
        splitTerms_append _ _ fun c hc => plain_of_isBlank (hfront c hc),
        splitTerms_append _ _ hkeyword,
        splitTerms_append _ _ fun c hc => plain_of_isNodeChar (hterm.2 c hc), hbehind]

/-- The text of a term with a connective that is not hidden is cut inside the value. -/
theorem exists_cut (hspaced : spaced.WellFormed) (hhides : ¬spaced.term.HidesConnectives) :
    ∃ name op value s, spaced.term = .placeholder name op value ∧ s <+: Quoted.escape value.toList ∧
      (splitTerms false (spaced.write ++ tail)).1 =
        spaced.front ++ (Term.writeLeft name op ++ '"' :: s) := by
  obtain ⟨front, term, back⟩ := spaced
  obtain ⟨hfront, hterm, hback⟩ := hspaced
  rw [← hidden_quotedText] at hhides
  cases term with
  | placeholder name op value =>
      refine ⟨name, op, value, _, rfl, splitTerms_cut (back ++ tail) quote_behind hhides, ?_⟩
      rw [write_placeholder_append, splitTerms_writeLeft op _ hfront hterm.2]
  | permission node => exact absurd (hidden_nil true) hhides

end Piece

/-! ## Whole conditions -/

/-- Reads the pieces of a condition. -/
def readPieces (pieces : List Char × List (Connective × List Char)) : Except TermError Expression := do
  let first ← Term.read pieces.1
  let rest ← readRest pieces.2
  return ⟨first, rest⟩

theorem read_eq (source : List Char) :
    read source = (readPieces (splitTerms false source)).mapError fun error =>
      .invalidCondition (String.ofList source) error.message := rfl

/-- The first piece is read before the others. -/
theorem readPieces_cons (piece : List Char) (connective : Connective)
    (pieces : List Char × List (Connective × List Char)) :
    readPieces (piece, (connective, pieces.1) :: pieces.2) = do
      let first ← Term.read piece
      let later ← readPieces pieces
      return ⟨first, (connective, later.first) :: later.rest⟩ := by
  simp only [readPieces, readRest, bind, Except.bind]
  cases Term.read piece with
  | error error => rfl
  | ok first =>
      cases Term.read pieces.1 with
      | error error => rfl
      | ok next =>
          cases hrest : readRest pieces.2 <;> rfl

theorem readPieces_error {pieces : List Char × List (Connective × List Char)} {error : TermError}
    (h : Term.read pieces.1 = .error error) : readPieces pieces = .error error := by
  rw [readPieces, h]
  rfl

theorem legible_single (term : Term) : Legible ⟨term, []⟩ ↔ term.HidesConnectives := by
  simp [Legible, terms]

theorem legible_cons (term next : Term) (connective : Connective) (rest : List (Connective × Term)) :
    Legible ⟨term, (connective, next) :: rest⟩ ↔
      (term.HidesConnectives ∧ term.ClosesQuotes) ∧ Legible ⟨next, rest⟩ := by
  simp only [Legible, terms, List.map_cons, List.dropLast_cons_cons, List.forall_mem_cons]
  tauto

/-- A condition with a term that is cut is refused. -/
theorem readPieces_cut {spaced : SpacedTerm} (tail : List Char) (hspaced : spaced.WellFormed)
    (hhides : ¬spaced.term.HidesConnectives) :
    ∃ error, readPieces (splitTerms false (spaced.write ++ tail)) = .error error := by
  obtain ⟨name, op, value, s, hterm, hcut, hpiece⟩ := exists_cut tail hspaced hhides
  have hread := Term.read_cut (hterm ▸ hspaced.term_wellFormed) hspaced.front_blank hcut
  rw [← hpiece] at hread
  exact ⟨_, readPieces_error hread⟩

/-- A condition with a connective behind a value that the search has not left is refused. -/
theorem readPieces_open {spaced : SpacedTerm} (connective : Connective) (tail : List Char)
    (hspaced : spaced.WellFormed) (hhides : spaced.term.HidesConnectives)
    (hcloses : ¬spaced.term.ClosesQuotes) :
    ∃ error, readPieces (splitTerms false (spaced.write ++ (connective.symbol ++ tail))) =
      .error error := by
  obtain ⟨front, term, back⟩ := spaced
  cases term with
  | permission node => exact absurd Even.zero hcloses
  | placeholder name op value =>
      have hquoted : quotedBehind false (Term.placeholder name op value).quotedText = true := by
        rwa [← Bool.not_eq_false, quotedBehind_eq_false]
      obtain ⟨c, more, hc, hpiece⟩ : ∃ c more, isBlank c = false ∧
          (splitTerms true (connective.symbol ++ tail)).1 = c :: more := by
        cases connective
        · exact ⟨'&', _, by decide, congrArg Prod.fst (splitTerms_quoted '&' ('&' :: tail))⟩
        · exact ⟨'|', _, by decide, congrArg Prod.fst (splitTerms_quoted '|' ('|' :: tail))⟩
      obtain ⟨error, hread⟩ := Term.read_past more hspaced.term_wellFormed hspaced.front_blank
        hspaced.back_blank hc
      rw [splitTerms_write _ hspaced hhides, hquoted, hpiece]
      refine ⟨error, readPieces_error ?_⟩
      rwa [SpacedTerm.write, List.append_assoc, List.append_assoc]

/-- The pieces of a written condition are read as its terms if it is legible, and refused otherwise. -/
theorem readPieces_write {first : SpacedTerm} {rest : List (Connective × SpacedTerm)}
    (hfirst : first.WellFormed) (hrest : ∀ link ∈ rest, link.2.WellFormed) :
    (Legible (ofSpaced first rest) →
        readPieces (splitTerms false (write first rest)) = .ok (ofSpaced first rest)) ∧
      (¬Legible (ofSpaced first rest) →
        ∃ error, readPieces (splitTerms false (write first rest)) = .error error) := by
  -- On the terms that are left: in front of each of them the search is outside quotes.
  induction rest generalizing first with
  | nil =>
      rw [write, ofSpaced, List.map_nil, legible_single]
      constructor
      · intro hhides
        have hsplit := splitTerms_write [] hfirst hhides
        rw [List.append_nil, splitTerms, List.append_nil] at hsplit
        rw [hsplit, readPieces, hfirst.read_term]
        rfl
      · intro hcut
        have herror := readPieces_cut [] hfirst hcut
        rwa [List.append_nil] at herror
  | cons link rest ih =>
      obtain ⟨connective, next⟩ := link
      obtain ⟨hnext, hrest⟩ := List.forall_mem_cons.mp hrest
      obtain ⟨ihlegible, ihillegible⟩ := ih hnext hrest
      rw [write, ofSpaced, List.map_cons, legible_cons]
      by_cases hhides : first.term.HidesConnectives
      case neg =>
        exact ⟨fun hlegible => absurd hlegible.1.1 hhides, fun _ => readPieces_cut _ hfirst hhides⟩
      by_cases hcloses : first.term.ClosesQuotes
      case neg =>
        exact ⟨fun hlegible => absurd hlegible.1.2 hcloses,
          fun _ => readPieces_open connective _ hfirst hhides hcloses⟩
      have hsplit := splitTerms_write (connective.symbol ++ write next rest) hfirst hhides
      rw [(quotedBehind_eq_false _).mpr hcloses, splitTerms_symbol, List.append_nil] at hsplit
      rw [hsplit, readPieces_cons, hfirst.read_term]
      constructor
      · rintro ⟨-, hlegible⟩
        rw [ihlegible hlegible]
        rfl
      · intro hnot
        obtain ⟨error, herror⟩ := ihillegible fun hlegible => hnot ⟨⟨hhides, hcloses⟩, hlegible⟩
        rw [herror]
        exact ⟨error, rfl⟩

/-- A written condition is read back, whatever the values of its terms, if it is legible: if every
connective inside a value stands behind an even number of double quotes, and every value but the last
has an even number of them. Any other condition is refused. -/
theorem read_joined {first : SpacedTerm} {rest : List (Connective × SpacedTerm)}
    (hfirst : first.WellFormed) (hrest : ∀ link ∈ rest, link.2.WellFormed) :
    (Legible (ofSpaced first rest) → read (write first rest) = .ok (ofSpaced first rest)) ∧
      (¬Legible (ofSpaced first rest) → ∃ reason, read (write first rest) =
        .error (.invalidCondition (String.ofList (write first rest)) reason)) := by
  obtain ⟨hlegible, hillegible⟩ := readPieces_write hfirst hrest
  rw [read_eq]
  constructor
  · intro h
    rw [hlegible h]
    rfl
  · intro h
    obtain ⟨error, herror⟩ := hillegible h
    rw [herror]
    exact ⟨error.message, rfl⟩

/-- A permission node, and two comparisons whose values hold quotes, a backslash, an operator and a
connective. -/
def mixedFirst : SpacedTerm :=
  ⟨[], .permission "menu.vip", [' ']⟩

def mixedRest : List (Connective × SpacedTerm) :=
  [(.or, ⟨[], .placeholder "a-b.c:d_1" .notEqual "<\"\\\"&&", ['\n']⟩),
    (.and, ⟨[' '], .placeholder "rank" .atLeast "\"", []⟩)]

theorem read_joined_mixed :
    mixedFirst.WellFormed ∧ (∀ link ∈ mixedRest, link.2.WellFormed) ∧
      Legible (ofSpaced mixedFirst mixedRest) ∧
      write mixedFirst mixedRest =
        "permission:menu.vip ||placeholder:a-b.c:d_1 != \"<\\\"\\\\\\\"&&\"".toList ++
          "\n&& placeholder:rank >= \"\\\"\"".toList ∧
      read (write mixedFirst mixedRest) = .ok ⟨.permission "menu.vip",
        [(.or, .placeholder "a-b.c:d_1" .notEqual "<\"\\\"&&"),
          (.and, .placeholder "rank" .atLeast "\"")]⟩ := by
  have hall : ∀ {s : List Char} {p : Char → Bool}, s.all p = true → ∀ c ∈ s, p c = true :=
    List.all_eq_true.mp
  have hfirst : mixedFirst.WellFormed :=
    ⟨hall (by decide), ⟨by decide, hall (by decide)⟩, hall (by decide)⟩
  have hrest : ∀ link ∈ mixedRest, link.2.WellFormed := by
    refine List.forall_mem_cons.mpr ⟨?_, List.forall_mem_singleton.mpr ?_⟩
    · exact ⟨hall (by decide), ⟨by decide, hall (by decide)⟩, hall (by decide)⟩
    · exact ⟨hall (by decide), ⟨by decide, hall (by decide)⟩, hall (by decide)⟩
  have hlegible : Legible (ofSpaced mixedFirst mixedRest) := by decide +kernel
  exact ⟨hfirst, hrest, hlegible, by decide +kernel, (read_joined hfirst hrest).1 hlegible⟩

/-- A value with one double quote in front of another term. -/
theorem read_oddQuote :
    SpacedTerm.WellFormed ⟨[], .placeholder "x" .equal "a\"", [' ']⟩ ∧
      SpacedTerm.WellFormed ⟨[' '], .permission "b", []⟩ ∧
      write ⟨[], .placeholder "x" .equal "a\"", [' ']⟩ [(.and, ⟨[' '], .permission "b", []⟩)] =
        "placeholder:x == \"a\\\"\" && permission:b".toList ∧
      read "placeholder:x == \"a\\\"\" && permission:b".toList =
        .error (.invalidCondition "placeholder:x == \"a\\\"\" && permission:b"
          "unexpected '&' at 6, expected end of value") := by
  have hall : ∀ {s : List Char} {p : Char → Bool}, s.all p = true → ∀ c ∈ s, p c = true :=
    List.all_eq_true.mp
  refine ⟨⟨hall (by decide), ⟨by decide, hall (by decide)⟩, hall (by decide)⟩,
    ⟨hall (by decide), ⟨by decide, hall (by decide)⟩, hall (by decide)⟩, by decide, ?_⟩
  rfl

end Expression

end MenuActions.Grammar
