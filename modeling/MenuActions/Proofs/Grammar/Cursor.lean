import MenuActions.Grammar.BracketList
import MenuActions.Proofs.Grammar.Cuts

/-!
# A cursor at a byte offset

The steps that the readers of the grammars are made of, on a text and a byte offset in it.  Every step cuts
the text at its offset, and has nothing to give if that is no boundary between characters.

A cursor stands in front of an end of its text, at `offsetIn (byteLength src) rest`.  Each step is described by
what it does to that end (`skipWhile_eq`, `takeLine_eq`, `skipLineBreak_eq`, `decodeFrom_eq`): there is
something to give, and the cursor comes to stand in front of what the reader of characters is left with.  The
loops go on only at an offset behind the one where they were (`goOn`), so that to give something they also
have to end.
-/

namespace MenuActions.Grammar

open Text

/-- What a reader gives that cuts its text at byte offsets: a result, an error of the text, or nothing if it
cuts where nothing begins. -/
abbrev Cutting (ε : Type) := ExceptT ε Option

namespace Cutting

variable {ε α β : Type}

/-- A reader that gives a result or an error of the text. -/
def of (result : Except ε α) : Cutting ε α :=
  ExceptT.mk (some result)

theorem of_ok_bind (a : α) (next : α → Cutting ε β) : (of (.ok a) >>= next) = next a := rfl

theorem lift_bind (a : α) (next : α → Cutting ε β) :
    ((liftM (some a) : Cutting ε α) >>= next) = next a := rfl

/-- Where every further reader gives something, so do the readers one after the other. -/
theorem of_bind {result : Except ε α} {next : α → Cutting ε β} {read : α → Except ε β}
    (h : ∀ a, next a = of (read a)) : (of result >>= next) = of (result >>= read) := by
  cases result with
  | error error => rfl
  | ok a => exact h a

end Cutting

namespace Cursor

variable (src : List Char)

/-- The character in front of which the cursor stands; none at the end. -/
def peek (pos : Nat) : Option (Option Char) :=
  (cutFrom pos src).map List.head?

/-- A loop goes on at an offset behind the one where it was and not beyond the end.  At any other one it
might not end, and there is nothing to give. -/
def goOn (pos next : Nat) : Option {n // pos < n ∧ n ≤ byteLength src} :=
  if h : pos < next ∧ next ≤ byteLength src then some ⟨next, h⟩ else none

/-- The offset behind the characters that have a property. -/
def skipWhile (p : Char → Bool) (pos : Nat) : Option Nat := do
  match ← peek src pos with
  | none => return pos
  | some c =>
      if p c then
        let next ← goOn src pos (pos + c.utf8Size)
        skipWhile p next
      else return pos
termination_by byteLength src - pos
decreasing_by
  have := next.property
  omega

/-- The line from an offset on, and the offset of its end. -/
def takeLine (pos : Nat) : Option (List Char × Nat) := do
  let stop ← skipWhile src (fun c => !isLineBreak c) pos
  let line ← cut pos stop src
  return (line, stop)

/-- The offset behind one character, if it is the one in front of which the cursor stands. -/
def skipChar (c : Char) (pos : Nat) : Option Nat := do
  return if (← peek src pos) = some c then pos + c.utf8Size else pos

/-- The offset behind a line break. -/
def skipLineBreak (pos : Nat) : Option Nat := do
  skipChar src '\n' (← skipChar src '\r' pos)

/-- The character in front of which the cursor stands, if `c` is a backslash that escapes it. -/
def escapedBy (c : Char) (pos : Nat) : Option (Option Char) :=
  if c = '\\' then (peek src pos).map (Option.filter fun d => d = '"' ∨ d = '\\') else some none

/-- A value that begins with one more character. -/
def push (c : Char) : Option (List Char × Nat) → Option (List Char × Nat) :=
  Option.map fun (value, stop) => (c :: value, stop)

/-- A quoted value, from behind its opening quote on, and the offset behind it.  There is none if no quote
closes it. -/
def decodeFrom (pos : Nat) : Option (Option (List Char × Nat)) := do
  match ← peek src pos with
  | none => return none
  | some c =>
      if c = '"' then return some ([], pos + c.utf8Size)
      else
        let escaped ← escapedBy src c (pos + c.utf8Size)
        let next ← goOn src pos (pos + c.utf8Size + (escaped.map Char.utf8Size).getD 0)
        return push (escaped.getD c) (← decodeFrom next)
termination_by byteLength src - pos
decreasing_by
  have := next.property
  omega

/-- A quoted value at whose opening quote the cursor stands, and the offset behind it; `base` is added to the
offset of an error. -/
def readQuoted (base pos : Nat) : Cutting ParseError (List Char × Nat) := do
  match ← decodeFrom src (pos + '"'.utf8Size) with
  | none => throw (.unterminatedQuote (base + pos))
  | some found => return found

/-! ## What the steps give -/

section Steps

variable {src rest : List Char}

/-- Behind a part of the text. -/
theorem offsetIn_append (front : List Char) (h : front ++ rest <:+ src) :
    offsetIn (byteLength src) (front ++ rest) + byteLength front = offsetIn (byteLength src) rest := by
  obtain ⟨before, rfl⟩ := h
  rw [offsetIn, offsetIn, byteLength_append, byteLength_append]
  omega

theorem offsetIn_cons {c : Char} (h : c :: rest <:+ src) :
    offsetIn (byteLength src) (c :: rest) + c.utf8Size = offsetIn (byteLength src) rest :=
  offsetIn_append [c] h

/-- Behind a character of what is left, a loop goes on. -/
theorem goOn_eq {after behind : List Char} {c : Char} (h : rest <:+ src) (hbehind : c :: behind <:+ rest)
    (hafter : after <:+ behind) :
    ∃ moved, goOn src (offsetIn (byteLength src) rest) (offsetIn (byteLength src) after) =
      some ⟨offsetIn (byteLength src) after, moved⟩ := by
  obtain ⟨before, rfl⟩ := h
  obtain ⟨front, rfl⟩ := hbehind
  obtain ⟨mid, rfl⟩ := hafter
  refine ⟨_, dif_pos ?_⟩
  have := c.utf8Size_pos
  simp only [offsetIn, byteLength_append, byteLength_cons]
  omega

/-- What a loop makes of what is read where it goes on. -/
theorem goOn_map {ε α β : Type} {after behind : List Char} {c : Char} {read : Nat → Cutting ε α}
    {result : Except ε α} (f : α → β) (h : rest <:+ src) (hbehind : c :: behind <:+ rest)
    (hafter : after <:+ behind) (hread : read (offsetIn (byteLength src) after) = .of result) :
    (do
      let next ← goOn src (offsetIn (byteLength src) rest) (offsetIn (byteLength src) after)
      return f (← read next)) = Cutting.of (do return f (← result)) := by
  obtain ⟨moved, hmoved⟩ := goOn_eq h hbehind hafter
  rw [hmoved, Cutting.lift_bind, hread]
  exact Cutting.of_bind fun _ => rfl

/-- What is shorter than a text at whose end it stands is behind its first character. -/
theorem suffix_of_length_lt {after : List Char} {c : Char} (h : after <:+ c :: rest)
    (hlt : after.length < (c :: rest).length) : after <:+ rest :=
  (List.suffix_cons_iff.mp h).resolve_left fun heq => absurd hlt (by rw [heq]; exact Nat.lt_irrefl _)

theorem cutFrom_offsetIn (h : rest <:+ src) :
    cutFrom (offsetIn (byteLength src) rest) src = some rest := by
  obtain ⟨before, rfl⟩ := h
  rw [offsetIn, byteLength_append, Nat.add_sub_cancel_right, cutFrom_append]

theorem cut_offsetIn {front : List Char} (h : front ++ rest <:+ src) :
    cut (offsetIn (byteLength src) (front ++ rest)) (offsetIn (byteLength src) rest) src = some front := by
  obtain ⟨before, rfl⟩ := h
  have hstop : offsetIn (byteLength (before ++ (front ++ rest))) rest =
      byteLength before + byteLength front := by
    rw [offsetIn, byteLength_append, byteLength_append]
    omega
  rw [hstop, offsetIn, byteLength_append before, Nat.add_sub_cancel_right, cut_append]

theorem peek_eq (h : rest <:+ src) :
    peek src (offsetIn (byteLength src) rest) = some rest.head? := by
  rw [peek, cutFrom_offsetIn h]
  rfl

theorem skipWhile_eq (p : Char → Bool) (h : rest <:+ src) :
    skipWhile src p (offsetIn (byteLength src) rest) =
      some (offsetIn (byteLength src) (rest.dropWhile p)) := by
  induction rest with
  | nil =>
      rw [skipWhile, peek_eq h]
      rfl
  | cons c rest ih =>
      rw [skipWhile, peek_eq h, List.dropWhile_cons]
      simp only [Option.bind_eq_bind, Option.bind_some, List.head?_cons, offsetIn_cons h]
      by_cases hc : p c = true
      · obtain ⟨moved, hmoved⟩ := goOn_eq h (List.suffix_refl _) (List.suffix_refl rest)
        rw [if_pos hc, if_pos hc, hmoved]
        exact ih ((List.suffix_cons c rest).trans h)
      · rw [if_neg hc, if_neg hc]
        rfl

theorem skipBlanks_eq (h : rest <:+ src) :
    skipWhile src isBlank (offsetIn (byteLength src) rest) =
      some (offsetIn (byteLength src) (trimStart rest)) :=
  skipWhile_eq isBlank h

theorem takeLine_eq (h : rest <:+ src) :
    takeLine src (offsetIn (byteLength src) rest) =
      some (Block.firstLine rest, offsetIn (byteLength src) (Block.afterFirstLine rest)) := by
  have hsplit : Block.firstLine rest ++ Block.afterFirstLine rest = rest :=
    List.takeWhile_append_dropWhile
  have hwhole : Block.firstLine rest ++ Block.afterFirstLine rest <:+ src := hsplit.symm ▸ h
  have hcut := cut_offsetIn hwhole
  rw [hsplit] at hcut
  rw [takeLine, skipWhile_eq _ h]
  exact congrArg (Option.bind · fun line => some (line, _)) hcut

theorem skipChar_of_head {c : Char} (h : c :: rest <:+ src) :
    skipChar src c (offsetIn (byteLength src) (c :: rest)) = some (offsetIn (byteLength src) rest) := by
  rw [skipChar, peek_eq h, ← offsetIn_cons h]
  simp

theorem skipChar_of_ne {c : Char} (h : rest <:+ src) (hne : rest.head? ≠ some c) :
    skipChar src c (offsetIn (byteLength src) rest) = some (offsetIn (byteLength src) rest) := by
  rw [skipChar, peek_eq h]
  simp [hne]

theorem skipLineBreak_eq (h : rest <:+ src) :
    skipLineBreak src (offsetIn (byteLength src) rest) =
      some (offsetIn (byteLength src) (Block.dropLineBreak rest)) := by
  rw [skipLineBreak]
  fun_cases Block.dropLineBreak rest with
  | case1 rest =>
      rw [skipChar_of_head h]
      exact skipChar_of_head ((List.suffix_cons _ _).trans h)
  | case2 rest hfeed =>
      rw [skipChar_of_head h]
      refine skipChar_of_ne ((List.suffix_cons _ _).trans h) fun hhead => ?_
      obtain ⟨more, rfl⟩ := List.head?_eq_some_iff.mp hhead
      exact hfeed more rfl
  | case3 rest =>
      rw [skipChar_of_ne h (by simp)]
      exact skipChar_of_head h
  | case4 _ _ hreturn hfeed =>
      have hne : ∀ c, (∀ more, rest = c :: more → False) → rest.head? ≠ some c := fun c hc hhead => by
        obtain ⟨more, rfl⟩ := List.head?_eq_some_iff.mp hhead
        exact hc more rfl
      rw [skipChar_of_ne h (hne _ hreturn), Option.bind_eq_bind, Option.bind_some]
      exact skipChar_of_ne h (hne _ hfeed)

/-- A character that is neither a quote nor an escape is a part of the value. -/
theorem decodeFrom_cons {c : Char} (h : c :: rest <:+ src) (hquote : c ≠ '"')
    (hescape : c = '\\' → rest.head? ≠ some '"' ∧ rest.head? ≠ some '\\') :
    decodeFrom src (offsetIn (byteLength src) (c :: rest)) =
      (decodeFrom src (offsetIn (byteLength src) rest)).map (push c) := by
  have hrest : rest <:+ src := (List.suffix_cons _ _).trans h
  have hescaped : escapedBy src c (offsetIn (byteLength src) rest) = some none := by
    rw [escapedBy, peek_eq hrest, Option.map_some]
    split
    · rename_i hc
      rw [Option.some_inj, Option.filter_eq_none_iff]
      intro d hd
      rw [hd] at hescape
      simpa using hescape hc
    · rfl
  obtain ⟨moved, hmoved⟩ := goOn_eq h (List.suffix_refl _) (List.suffix_refl rest)
  conv_lhs => rw [decodeFrom, peek_eq h]
  simp only [Option.bind_eq_bind, Option.bind_some, List.head?_cons, offsetIn_cons h, if_neg hquote,
    hescaped, Option.map_none, Option.getD_none, Nat.add_zero, hmoved]
  rw [Option.map_eq_bind]
  rfl

/-- An escaped character is a part of the value. -/
theorem decodeFrom_escape {c : Char} (h : '\\' :: c :: rest <:+ src) (hc : c = '"' ∨ c = '\\') :
    decodeFrom src (offsetIn (byteLength src) ('\\' :: c :: rest)) =
      (decodeFrom src (offsetIn (byteLength src) rest)).map (push c) := by
  have hnext : c :: rest <:+ src := (List.suffix_cons _ _).trans h
  have hescaped : escapedBy src '\\' (offsetIn (byteLength src) (c :: rest)) = some (some c) := by
    rw [escapedBy, if_pos rfl, peek_eq hnext]
    simp [hc]
  obtain ⟨moved, hmoved⟩ := goOn_eq h (List.suffix_refl _) (List.suffix_cons c rest)
  conv_lhs => rw [decodeFrom, peek_eq h]
  simp only [Option.bind_eq_bind, Option.bind_some, List.head?_cons, offsetIn_cons h,
    if_neg (show '\\' ≠ '"' by decide), hescaped, Option.map_some, Option.getD_some, offsetIn_cons hnext,
    hmoved]
  rw [Option.map_eq_bind]
  rfl

theorem decodeFrom_eq (h : rest <:+ src) :
    decodeFrom src (offsetIn (byteLength src) rest) =
      some ((Quoted.decode rest).map fun (value, after) => (value, offsetIn (byteLength src) after)) := by
  have hpush : ∀ (c : Char) (found : Option (List Char × List Char)),
      push c (found.map fun (value, after) => (value, offsetIn (byteLength src) after)) =
        (found.map fun (value, after) => (c :: value, after)).map fun (value, after) =>
          (value, offsetIn (byteLength src) after) := by
    intro c found
    cases found <;> rfl
  induction rest using Quoted.decode.induct with
  | case1 =>
      rw [decodeFrom, peek_eq h]
      rfl
  | case2 rest =>
      rw [decodeFrom, peek_eq h]
      simp [Quoted.decode, offsetIn_cons h]
  | case3 rest ih =>
      rw [decodeFrom_escape h (.inl rfl), ih (List.IsSuffix.trans ⟨['\\', '"'], rfl⟩ h), Option.map_some,
        hpush, Quoted.decode]
  | case4 rest ih =>
      rw [decodeFrom_escape h (.inr rfl), ih (List.IsSuffix.trans ⟨['\\', '\\'], rfl⟩ h), Option.map_some,
        hpush, Quoted.decode]
  | case5 c rest hquote hescape hdouble ih =>
      rw [decodeFrom_cons h hquote, ih ((List.suffix_cons _ _).trans h), Option.map_some, hpush,
        Quoted.decode]
      any_goals assumption
      intro hc
      constructor
      all_goals
        intro hhead
        obtain ⟨more, rfl⟩ := List.head?_eq_some_iff.mp hhead
      · exact hescape more hc rfl
      · exact hdouble more hc rfl

theorem readQuoted_eq (base : Nat) (h : '"' :: rest <:+ src) :
    readQuoted src base (offsetIn (byteLength src) ('"' :: rest)) =
      Cutting.of (match Quoted.decode rest with
        | none => .error (.unterminatedQuote (base + offsetIn (byteLength src) ('"' :: rest)))
        | some (value, after) => .ok (value, offsetIn (byteLength src) after)) := by
  rw [readQuoted, offsetIn_cons h, decodeFrom_eq ((List.suffix_cons _ _).trans h)]
  cases Quoted.decode rest <;> rfl

end Steps

end Cursor

end MenuActions.Grammar
