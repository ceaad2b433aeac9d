import MenuActions.Proofs.Grammar.QuotedValues
import Mathlib.Data.List.TakeWhile

/-!
# Where parse errors point

An error that carries a position names a byte offset.  `BeginsAt` says what stands at such an offset, in
terms of the characters in front of it, so that an offset inside a character begins nothing.
`ParseError.PointsInto` says what must stand at the offset of each kind of error: the quote that opens
the unterminated value, the bracket that is not closed, or the character that was found.

The readers go through the inside of a block or a list and turn what is left of it into an offset of the
whole text.  What is left is always an end of that inside (`BeginsAt.offset`), which is what the induction
along `readItems` carries; `values_error_pointsInto` puts the two readers together.
-/

namespace MenuActions.Grammar

open Text

/-! ## Offsets -/

/-- What begins in a text at a byte offset.  The offset is the length of the whole characters in front, so
it is never inside a character. -/
def BeginsAt (text : List Char) (position : Nat) (part : List Char) : Prop :=
  ∃ before, text = before ++ part ∧ byteLength before = position

/-- What an error says of a text is there.  An error without a position says nothing of this kind. -/
def ParseError.PointsInto (text : List Char) : ParseError → Prop
  | .unterminatedQuote position =>
      ∃ rest, BeginsAt text position ('"' :: rest) ∧ Quoted.decode rest = none
  | .unclosed closer position =>
      ∃ before opener rest, text = before ++ opener :: rest ∧ byteLength before = position ∧
        opener ∉ before ∧ (opener, closer) ∈ [('[', ']'), ('{', '}')]
  | .unexpected found position _ => ∃ rest, BeginsAt text position (found :: rest)
  | .unexpectedEnd _ => True
  | .invalidCondition _ _ => True
  | .missingKeyword _ => True

theorem byteLength_eq_utf8ByteSize (s : List Char) :
    byteLength s = (String.ofList s).utf8ByteSize := by
  induction s with
  | nil => rfl
  | cons c s ih =>
      rw [byteLength_cons, ih, String.ofList_cons, String.utf8ByteSize_append,
        String.utf8ByteSize_singleton]

/-- The offset is a boundary between characters of the text as a string. -/
theorem BeginsAt.isValid {text part : List Char} {position : Nat} (h : BeginsAt text position part) :
    String.Pos.Raw.IsValid (String.ofList text) ⟨position⟩ := by
  obtain ⟨before, rfl, rfl⟩ := h
  rw [String.Pos.Raw.isValid_iff_exists_append]
  refine ⟨String.ofList before, String.ofList part, String.ofList_append, ?_⟩
  rw [byteLength_eq_utf8ByteSize]
  rfl

theorem BeginsAt.append {text part : List Char} {position : Nat} (h : BeginsAt text position part)
    (back : List Char) : BeginsAt (text ++ back) position (part ++ back) := by
  obtain ⟨before, rfl, hposition⟩ := h
  exact ⟨before, List.append_assoc .., hposition⟩

/-- An end of the inside of a text begins at the offset that counts from the end of the inside. -/
theorem BeginsAt.offset {body rest : List Char} (h : rest <:+ body) (front back : List Char) :
    BeginsAt (front ++ (body ++ back)) (offsetIn (byteLength front + byteLength body) rest)
      (rest ++ back) := by
  obtain ⟨before, rfl⟩ := h
  refine ⟨front ++ before, by simp, ?_⟩
  rw [offsetIn, byteLength_append, byteLength_append]
  omega

theorem one_le_byteLength {s : List Char} (h : s ≠ []) : 1 ≤ byteLength s := by
  cases s with
  | nil => exact absurd rfl h
  | cons c s =>
      have hc := c.utf8Size_pos
      rw [byteLength_cons]
      omega

/-- At one offset only one thing begins. -/
theorem BeginsAt.unique {text part other : List Char} {position : Nat}
    (h : BeginsAt text position part) (hother : BeginsAt text position other) : part = other := by
  obtain ⟨before, rfl, hbefore⟩ := h
  obtain ⟨front, htext, hfront⟩ := hother
  -- One of the two texts in front continues the other, by nothing since they are equally long.
  rcases List.append_eq_append_iff.mp htext with ⟨more, rfl, rfl⟩ | ⟨more, rfl, rfl⟩
  all_goals
    rw [byteLength_append] at *
    by_cases hmore : more = []
    · rw [hmore, List.nil_append]
    · have := one_le_byteLength hmore
      omega

/-! ## What is left of a text -/

theorem suffix_afterFirstLine (s : List Char) : Block.afterFirstLine s <:+ s :=
  List.dropWhile_suffix _

theorem suffix_dropLineBreak (s : List Char) : Block.dropLineBreak s <:+ s := by
  fun_cases Block.dropLineBreak s with
  | case1 rest => exact ⟨['\r', '\n'], rfl⟩
  | case2 rest _ => exact List.suffix_cons _ _
  | case3 rest => exact List.suffix_cons _ _
  | case4 => exact List.suffix_rfl

theorem suffix_literalLines (marker : Nat) (s : List Char) :
    (Block.literalLines marker s).2 <:+ s := by
  fun_induction Block.literalLines marker s with
  | case1 => exact List.suffix_rfl
  | case2 c s line h => exact List.suffix_rfl
  | case3 c s line h lines rest hrec ih =>
      rw [hrec] at ih
      exact ih.trans ((suffix_dropLineBreak _).trans (suffix_afterFirstLine _))

theorem suffix_dropComma (s : List Char) : BracketList.dropComma s <:+ s := by
  fun_cases BracketList.dropComma s with
  | case1 rest => exact List.suffix_cons _ _
  | case2 => exact List.suffix_rfl

theorem suffix_of_decode {s value rest : List Char} (h : Quoted.decode s = some (value, rest)) :
    rest <:+ s := by
  induction s using Quoted.decode.induct generalizing value rest with
  | case1 => simp [Quoted.decode] at h
  | case2 r =>
      obtain ⟨-, rfl⟩ : [] = value ∧ r = rest := by simpa [Quoted.decode] using h
      exact List.suffix_cons _ _
  | case3 r ih =>
      simp only [Quoted.decode, Option.map_eq_some_iff, Prod.mk.injEq] at h
      obtain ⟨⟨v, a⟩, hd, -, rfl⟩ := h
      exact (ih hd).trans ⟨['\\', '"'], rfl⟩
  | case4 r ih =>
      simp only [Quoted.decode, Option.map_eq_some_iff, Prod.mk.injEq] at h
      obtain ⟨⟨v, a⟩, hd, -, rfl⟩ := h
      exact (ih hd).trans ⟨['\\', '\\'], rfl⟩
  | case5 c r h1 h2 h3 ih =>
      rw [Quoted.decode] at h
      · simp only [Option.map_eq_some_iff, Prod.mk.injEq] at h
        obtain ⟨⟨v, a⟩, hd, -, rfl⟩ := h
        exact (ih hd).trans (List.suffix_cons _ _)
      all_goals assumption

/-- Where there is no quote, nothing is closed. -/
theorem decode_eq_none_of_not_mem {s : List Char} (h : '"' ∉ s) : Quoted.decode s = none := by
  induction s using Quoted.decode.induct with
  | case1 => rfl
  | case2 r => exact absurd List.mem_cons_self h
  | case3 r ih => exact absurd (List.mem_cons_of_mem _ List.mem_cons_self) h
  | case4 r ih =>
      rw [Quoted.decode, ih (by simp at h; exact h)]
      rfl
  | case5 c r h1 h2 h3 ih =>
      rw [Quoted.decode, ih (by simp at h; exact h.2)]
      · rfl
      all_goals assumption

/-- A value without a closing quote stays so when text without quotes follows it. -/
theorem decode_append_eq_none {s t : List Char} (h : Quoted.decode s = none) (ht : '"' ∉ t) :
    Quoted.decode (s ++ t) = none := by
  induction s using Quoted.decode.induct with
  | case1 => exact decode_eq_none_of_not_mem ht
  | case2 r => simp [Quoted.decode] at h
  | case3 r ih =>
      rw [Quoted.decode, Option.map_eq_none_iff] at h
      rw [List.cons_append, List.cons_append, Quoted.decode, ih h]
      rfl
  | case4 r ih =>
      rw [Quoted.decode, Option.map_eq_none_iff] at h
      rw [List.cons_append, List.cons_append, Quoted.decode, ih h]
      rfl
  | case5 c r h1 h2 h3 ih =>
      rw [Quoted.decode, Option.map_eq_none_iff] at h
      · cases r with
        | nil =>
            have hc : c ≠ '"' := fun hc => h1 hc
            refine decode_eq_none_of_not_mem ?_
            simp [Ne.symm hc, ht]
        | cons d r =>
            rw [List.cons_append, Quoted.decode, ih h]
            · rfl
            · exact h1
            · intro rest hc hr
              obtain ⟨rfl, -⟩ := List.cons.inj hr
              exact h2 r hc rfl
            · intro rest hc hr
              obtain ⟨rfl, -⟩ := List.cons.inj hr
              exact h3 r hc rfl
      all_goals assumption

/-- A line that is not empty begins the text that it is the first line of. -/
theorem exists_eq_cons_of_firstLine {s line : List Char} {c : Char}
    (h : Block.firstLine s = c :: line) : ∃ more, s = c :: more := by
  refine ⟨line ++ Block.afterFirstLine s, ?_⟩
  rw [← List.cons_append, ← h]
  exact List.takeWhile_append_dropWhile.symm

theorem suffix_of_dropWhile {p : Char → Bool} {s body more : List Char} {c : Char}
    (h : s.dropWhile p = c :: more) (hs : s <:+ body) : c :: more <:+ body :=
  h ▸ (List.dropWhile_suffix p).trans hs

/-! ## The readers -/

/-- An error of a reader that adds something to what it has read is an error of the rest. -/
theorem error_of_bind {α β : Type} {read : Except ParseError α} {add : α → β} {error : ParseError}
    (h : (do let found ← read; return add found) = Except.error error) : read = .error error := by
  cases read with
  | error found => exact congrArg Except.error (Except.error.inj h)
  | ok found => exact absurd h (by simp [bind, Except.bind, pure, Except.pure])

section Readers

variable {front body back rest : List Char} {error : ParseError}

/-- The quote in front of a value that nothing closes is where the error points. -/
theorem pointsInto_of_decode {quoted : List Char} (hrest : '"' :: quoted <:+ body)
    (hback : '"' ∉ back) (h : Quoted.decode quoted = none) :
    (ParseError.unterminatedQuote (offsetIn (byteLength front + byteLength body)
      ('"' :: quoted))).PointsInto (front ++ (body ++ back)) :=
  ⟨quoted ++ back, BeginsAt.offset hrest front back, decode_append_eq_none h hback⟩

theorem pointsInto_of_found {found : Char} {more : List Char} (expected : Expected)
    (hrest : found :: more <:+ body) :
    (ParseError.unexpected found (offsetIn (byteLength front + byteLength body) (found :: more))
      expected).PointsInto (front ++ (body ++ back)) :=
  ⟨more ++ back, BeginsAt.offset hrest front back⟩

theorem Block.readItems_error_pointsInto (hback : '"' ∉ back) (hrest : rest <:+ body)
    (h : readItems body (offsetIn (byteLength front + byteLength body)) rest = .error error) :
    error.PointsInto (front ++ (body ++ back)) := by
  fun_induction readItems body (offsetIn (byteLength front + byteLength body)) rest with
  | case1 rest hstart => exact absurd h (by simp)
  | case2 rest c after hstart hdash =>
      obtain rfl := Except.error.inj h
      exact pointsInto_of_found .dash (suffix_of_dropWhile hstart hrest)
  | case3 rest c after hstart hdash quoted hafter hquoted =>
      obtain rfl := Except.error.inj h
      have hbehind := (List.suffix_cons c after).trans (suffix_of_dropWhile hstart hrest)
      exact pointsInto_of_decode (suffix_of_dropWhile hafter hbehind) hback hquoted
  | case4 rest c after hstart hdash quoted hafter value next hquoted ih =>
      have hbehind := (List.suffix_cons c after).trans (suffix_of_dropWhile hstart hrest)
      have hvalue := (List.suffix_cons '"' quoted).trans (suffix_of_dropWhile hafter hbehind)
      exact ih ((suffix_of_decode hquoted).trans hvalue) (error_of_bind h)
  | case5 rest c after hstart hdash bar hafter found tail hline =>
      obtain rfl := Except.error.inj h
      have hbehind := (List.suffix_cons c after).trans (suffix_of_dropWhile hstart hrest)
      have hbar := (List.suffix_cons '|' bar).trans (suffix_of_dropWhile hafter hbehind)
      obtain ⟨more, hmore⟩ := exists_eq_cons_of_firstLine hline
      rw [hmore]
      exact pointsInto_of_found .lineBreakAfterBar (suffix_of_dropWhile hmore hbar)
  | case6 rest c after hstart hdash bar hafter hline lines next hlines ih =>
      have hbehind := (List.suffix_cons c after).trans (suffix_of_dropWhile hstart hrest)
      have hbar := (List.suffix_cons '|' bar).trans (suffix_of_dropWhile hafter hbehind)
      have hnext := suffix_literalLines (column body (c :: after))
        (dropLineBreak (bar.dropWhile isInlineBlank))
      rw [hlines] at hnext
      have hlines' := (suffix_dropLineBreak _).trans (List.dropWhile_suffix isInlineBlank (l := bar))
      exact ih (hnext.trans (hlines'.trans hbar)) (error_of_bind h)
  | case7 rest c after hstart hdash hafter
  | case8 rest c after hstart hdash tail hafter
  | case9 rest c after hstart hdash tail hafter =>
      -- The text ends where a value should be, and the error has no position.
      obtain rfl := Except.error.inj h
      trivial
  | case10 rest c after hstart hdash hquote hbar hempty hfeed hreturn ih =>
      have hbehind := (List.suffix_cons c after).trans (suffix_of_dropWhile hstart hrest)
      have hvalue := (List.dropWhile_suffix isInlineBlank (l := after)).trans hbehind
      exact ih ((suffix_afterFirstLine _).trans hvalue) (error_of_bind h)

theorem BracketList.readItems_error_pointsInto (hback : '"' ∉ back) (hrest : rest <:+ body)
    (h : readItems (offsetIn (byteLength front + byteLength body)) rest = .error error) :
    error.PointsInto (front ++ (body ++ back)) := by
  fun_induction readItems (offsetIn (byteLength front + byteLength body)) rest with
  | case1 rest hstart => exact absurd h (by simp)
  | case2 rest quoted hstart hquoted =>
      obtain rfl := Except.error.inj h
      exact pointsInto_of_decode (suffix_of_dropWhile hstart hrest) hback hquoted
  | case3 rest quoted hstart value next hquoted hnext => exact absurd h (by simp)
  | case4 rest quoted hstart value next hquoted more hnext ih =>
      have hvalue := (List.suffix_cons '"' quoted).trans (suffix_of_dropWhile hstart hrest)
      have hcomma := suffix_of_dropWhile hnext ((suffix_of_decode hquoted).trans hvalue)
      exact ih ((List.suffix_cons ',' more).trans hcomma) (error_of_bind h)
  | case5 rest quoted hstart value next hquoted found more hcomma hnext =>
      obtain rfl := Except.error.inj h
      have hvalue := (List.suffix_cons '"' quoted).trans (suffix_of_dropWhile hstart hrest)
      exact pointsInto_of_found .commaOrBracket
        (suffix_of_dropWhile hnext ((suffix_of_decode hquoted).trans hvalue))
  | case6 rest c bare hquote hstart item ih =>
      have hbare := suffix_of_dropWhile hstart hrest
      have hitem := (List.dropWhile_suffix (· != ',') (l := c :: bare)).trans hbare
      exact ih ((suffix_dropComma _).trans hitem) (error_of_bind h)

end Readers

section Values

variable {text : List Char} {error : ParseError}

/-- No value can end behind the closing bracket. -/
theorem quote_not_mem {closer : Char} {blanks : List Char} (hcloser : '"' ≠ closer)
    (hblanks : ∀ c ∈ blanks, isBlank c = true) : '"' ∉ closer :: blanks := by
  intro hmem
  rcases List.mem_cons.mp hmem with hquote | hmem
  · exact hcloser hquote
  · exact absurd (hblanks _ hmem) (by decide)

theorem Block.pointsInto_of_values_error (h : Block.values text = .error error) :
    error.PointsInto text := by
  unfold Block.values at h
  split at h
  case h_1 =>
      obtain rfl := Except.error.inj h
      trivial
  case h_2 before inside hopen =>
      obtain ⟨rfl, hbefore⟩ := splitFirst_eq_some_iff.mp hopen
      dsimp only at h
      split at h
      case h_1 =>
          obtain rfl := Except.error.inj h
          exact ⟨before, '{', inside, rfl, rfl, hbefore, by decide⟩
      case h_2 body after hclose =>
          obtain ⟨rfl, -⟩ := splitLast_eq_some_iff.mp hclose
          split at h
          case h_1 found rest hafter =>
              obtain rfl := Except.error.inj h
              have hend : found :: rest <:+ before ++ '{' :: (body ++ '}' :: after) :=
                suffix_of_dropWhile hafter ⟨before ++ '{' :: (body ++ ['}']), by simp⟩
              have hpoints : (ParseError.unexpected found _ .endOfBlock).PointsInto ([] ++ (_ ++ [])) :=
                pointsInto_of_found .endOfBlock hend
              simpa using hpoints
          case h_2 hafter =>
              -- The body is read, with the brace in front of it and the closing one behind it.
              have hquote : '"' ∉ '}' :: after :=
                quote_not_mem (by decide) (List.dropWhile_eq_nil_iff.mp hafter)
              have hpoints : error.PointsInto ((before ++ ['{']) ++ (body ++ '}' :: after)) :=
                readItems_error_pointsInto hquote (List.suffix_refl body)
                  (by simpa [Char.utf8Size] using h)
              simpa using hpoints

theorem BracketList.pointsInto_of_values_error (h : BracketList.values text = .error error) :
    error.PointsInto text := by
  obtain ⟨front, back, htext, hfront, hback⟩ := exists_blank_of_trim text
  unfold BracketList.values at h
  split at h
  case h_1 => exact absurd h (by simp)
  case h_2 inside htrim =>
      have hopened : text.takeWhile isBlank = front := by
        rw [htext, htrim, List.cons_append]
        exact takeWhile_append_cons hfront (by decide)
      rw [hopened] at h
      rw [htext, htrim]
      split at h
      case h_1 hlast =>
          have hinside : inside = inside.dropLast ++ [']'] := by
            obtain ⟨inner, rfl⟩ := List.getLast?_eq_some_iff.mp hlast
            rw [List.dropLast_concat]
          have hquote : '"' ∉ ']' :: back := quote_not_mem (by decide) hback
          have hpoints : error.PointsInto ((front ++ ['[']) ++ (inside.dropLast ++ ']' :: back)) :=
            readItems_error_pointsInto hquote (List.suffix_refl inside.dropLast)
              (by simpa [Char.utf8Size] using h)
          rw [hinside]
          simpa using hpoints
      case h_2 =>
          obtain rfl := Except.error.inj h
          refine ⟨front, '[', inside ++ back, rfl, rfl, ?_, by decide⟩
          exact fun hmem => absurd (hfront _ hmem) (by decide)
  case h_3 => exact absurd h (by simp)

end Values

/-- The errors of the two readers of values point into the whole text that they were given, whatever the
text. -/
theorem values_error_pointsInto (text : List Char) (error : ParseError)
    (h : Block.values text = .error error ∨ BracketList.values text = .error error) :
    error.PointsInto text := by
  rcases h with hblock | hlist
  · exact Block.pointsInto_of_values_error hblock
  · exact BracketList.pointsInto_of_values_error hlist

/-- Blanks and letters of several bytes stand in front of a quote that nothing closes. -/
theorem values_error_pointsInto_wide :
    BracketList.values "\u3000[ \"é\", \"x ]".toList = .error (.unterminatedQuote 11) ∧
      (ParseError.unterminatedQuote 11).PointsInto "\u3000[ \"é\", \"x ]".toList := by
  have h : BracketList.values "\u3000[ \"é\", \"x ]".toList = .error (.unterminatedQuote 11) := by
    decide +kernel
  exact ⟨h, values_error_pointsInto _ _ (.inr h)⟩

end MenuActions.Grammar
