import MenuActions.Grammar.Values
import MenuActions.Proofs.Grammar.Cursor

/-!
# Blocks by cuts

The readers of blocks on byte offsets: the type name, the column of a dash, the lines of a literal value and
what is cut off them, and the items of a body.  Each gives what the reader of characters gives, for every text,
and so cuts nowhere amiss.

Two of the cuts are made at numbers that were found elsewhere.  The blanks of a line are counted in bytes, and
the lines of a literal value are all cut at the smallest of these counts: `cutFrom_of_le` is what makes this
possible, since a line can be cut anywhere in the blanks that it begins with.
-/

namespace MenuActions.Grammar.Cursor

open Text

/-! ## Blocks -/

/-- The type name of a text that has the form of a block. -/
def typeName (text : List Char) : Option (Option (List Char)) := do
  let text := trim text
  let length := (firstIndex (fun c => !Block.isNameChar c) text).getD (byteLength text)
  let name ← cutTo length text
  match name.head? with
  | none => return none
  | some first =>
      if first.isAlpha || first == '_' then
        match trimStart (← cutFrom length text) with
        | '{' :: body =>
            return if Block.opensBody body && Block.endsWith '}' text then some name else none
        | _ => return none
      else return none

/-- The column of an offset: the number of characters behind the last line feed in front of it. -/
def columnAt (body : List Char) (pos : Nat) : Option Nat := do
  let front ← cutTo pos body
  let start := ((lastIndex (· == '\n') front).map (· + 1)).getD 0
  return (← cut start pos body).length

/-- The number of bytes that are spaces and tabs at the start of a line. -/
def leadingBlanks (line : List Char) : Nat :=
  ((utf8 line).takeWhile fun b => b == ' '.toUInt8 || b == '\t'.toUInt8).length

/-- The lines of a literal value whose dash stands at column `marker`, and the offset of the next dash. -/
def literalLines (src : List Char) (marker pos : Nat) : Option (List (List Char) × Nat) := do
  if byteLength src ≤ pos then return ([], pos)
  else
    let (line, stop) ← takeLine src pos
    let indent := leadingBlanks line
    if (← cutFrom indent line).head? = some '-' ∧ indent ≤ marker then return ([], pos)
    else
      let next ← goOn src pos (← skipLineBreak src stop)
      let (lines, stop) ← literalLines src marker next
      return (line :: lines, stop)
termination_by byteLength src - pos
decreasing_by
  have := next.property
  omega

/-- Literal lines written from the left margin. -/
def dedent (lines : List (List Char)) : Option (List Char) := do
  let margin := ((lines.filter fun line => !isBlankText line).map leadingBlanks).min?.getD 0
  let shifted ← lines.mapM fun line => if isBlankText line then some [] else cutFrom margin line
  return trimEnd (joinWith ['\n'] (shifted.dropWhile List.isEmpty))

/-- The value behind a dash at column `marker`, and the offset behind it; `base` is the offset of the body. -/
def blockValue (body : List Char) (base marker pos : Nat) : Cutting ParseError (List Char × Nat) := do
  match ← peek body pos with
  | some '"' => readQuoted body base pos
  | some '|' =>
      let pos ← skipWhile body isInlineBlank (pos + '|'.utf8Size)
      let (line, stop) ← takeLine body pos
      match line with
      | found :: _ => throw (.unexpected found (base + pos) .lineBreakAfterBar)
      | [] =>
          let (lines, next) ← literalLines body marker (← skipLineBreak body stop)
          return (← dedent lines, next)
  | none => throw (.unexpectedEnd .valueAfterDash)
  | some '\n' => throw (.unexpectedEnd .valueAfterDash)
  | some '\r' => throw (.unexpectedEnd .valueAfterDash)
  | some _ =>
      let (line, stop) ← takeLine body pos
      return (trim line, stop)

/-- The values of a block, read from an offset of its body on; `base` is the offset of the body. -/
def blockItems (body : List Char) (base pos : Nat) : Cutting ParseError (List (List Char)) := do
  let dash ← skipWhile body isBlank pos
  match ← peek body dash with
  | none => return []
  | some c =>
      if c ≠ '-' then throw (.unexpected c (base + dash) .dash)
      else
        let marker ← columnAt body dash
        let (value, stop) ← blockValue body base marker
          (← skipWhile body isInlineBlank (dash + c.utf8Size))
        let next ← goOn body pos stop
        return value :: (← blockItems body base next)
termination_by byteLength body - pos
decreasing_by
  have := next.property
  omega

/-- The values of a block. -/
def blockValues (text : List Char) : Cutting ParseError (List (List Char)) := do
  match firstIndex (· == '{') text with
  | none => throw (.missingKeyword "\x7b")
  | some opened =>
      match (lastIndex (· == '}') text).filter (opened < ·) with
      | none => throw (.unclosed '}' opened)
      | some closed =>
          let after ← cutFrom (closed + 1) text
          match after.find? (fun c => !isBlank c), firstIndex (fun c => !isBlank c) after with
          | some found, some i => throw (.unexpected found (closed + 1 + i) .endOfBlock)
          | _, _ =>
              let body ← cut (opened + 1) closed text
              blockItems body (opened + 1) 0

/-! ## What they give -/

theorem typeName_eq (text : List Char) : typeName text = some (Block.typeName? text) := by
  have hto := cutTo_firstIndex (fun c => !Block.isNameChar c) (trim text)
  have hfrom := cutFrom_firstIndex (fun c => !Block.isNameChar c) (trim text)
  simp only [Bool.not_not] at hto hfrom
  unfold typeName Block.typeName?
  simp only [hto, hfrom, Option.bind_eq_bind, Option.bind_some]
  generalize (trim text).takeWhile Block.isNameChar = name
  generalize trimStart ((trim text).dropWhile Block.isNameChar) = after
  cases name with
  | nil => rfl
  | cons first name =>
      by_cases hbrace : ∃ body, after = '{' :: body
      · obtain ⟨body, rfl⟩ := hbrace
        simp only [List.head?_cons]
        cases first.isAlpha || first == '_' <;> rfl
      · simp only [List.head?_cons]
        repeat' split
        all_goals first
          | rfl
          | exact absurd ⟨_, rfl⟩ hbrace

theorem leadingBlanks_eq (line : List Char) : leadingBlanks line = Block.indentation line := by
  unfold leadingBlanks Block.indentation
  induction line with
  | nil => rfl
  | cons c line ih =>
      rw [utf8_cons]
      rcases Nat.lt_or_ge c.toNat 128 with hc | hc
      · have hblank : (c.toUInt8 == ' '.toUInt8 || c.toUInt8 == '\t'.toUInt8) = isInlineBlank c := by
          rw [Bool.eq_iff_iff]
          simp [isInlineBlank, toUInt8_eq_iff hc]
        rw [utf8EncodeChar_of_lt hc, List.singleton_append, List.takeWhile_cons, List.takeWhile_cons, hblank]
        cases isInlineBlank c with
        | false => rfl
        | true => simp [ih]
      · obtain ⟨b, more, hencode, hb⟩ := exists_byte_of_le hc
        have hne : ∀ d : Char, d.toNat < 128 → b ≠ d.toUInt8 ∧ c ≠ d := by
          refine fun d hd => ⟨?_, ?_⟩
          · rintro rfl
            rw [toNat_toUInt8 hd] at hb
            omega
          · rintro rfl
            omega
        rw [hencode, List.cons_append, List.takeWhile_cons, List.takeWhile_cons]
        simp [isInlineBlank, hne]

theorem columnAt_eq {body rest : List Char} (h : rest <:+ body) :
    columnAt body (offsetIn (byteLength body) rest) = some (Block.column body rest) := by
  obtain ⟨before, rfl⟩ := h
  have hpos : offsetIn (byteLength (before ++ rest)) rest = byteLength before := by
    rw [offsetIn, byteLength_append, Nat.add_sub_cancel_right]
  rw [columnAt, hpos, cutTo_append, Block.column_append]
  simp only [Option.bind_eq_bind, Option.bind_some, lastIndex_eq_splitLast, Option.map_map]
  cases hsplit : splitLast '\n' before with
  | none =>
      -- The dash is in the first line, and its column is its offset in characters.
      have hline : ∀ c ∈ before.reverse, (c != '\n') = true := by
        have hnot := splitLast_eq_none_iff.mp hsplit
        exact fun c hc => bne_iff_ne.mpr fun heq => hnot (heq ▸ List.mem_reverse.mp hc)
      have hcut := cut_append [] before rest
      rw [byteLength_nil, Nat.zero_add, List.nil_append] at hcut
      rw [Option.map_none, Option.getD_none, hcut, List.takeWhile_eq_self_iff.mpr hline, List.length_reverse]
      rfl
  | some parts =>
      obtain ⟨front, line⟩ := parts
      obtain ⟨rfl, hnot⟩ := splitLast_eq_some_iff.mp hsplit
      have hline : ∀ c ∈ line.reverse, (c != '\n') = true :=
        fun c hc => bne_iff_ne.mpr fun heq => hnot (heq ▸ List.mem_reverse.mp hc)
      have hcut := cut_append (front ++ ['\n']) line rest
      have hfront : byteLength (front ++ ['\n']) = byteLength front + 1 := byteLength_append front ['\n']
      rw [← byteLength_append, ← List.append_assoc, hfront, List.append_assoc front,
        List.singleton_append] at hcut
      rw [Option.map_some, Option.getD_some, Function.comp_apply, hcut, List.reverse_append,
        List.reverse_cons, List.append_assoc, List.singleton_append,
        takeWhile_append_cons hline (by decide), List.length_reverse]
      rfl

/-- A line can be cut anywhere in the spaces and tabs that it begins with. -/
theorem cutFrom_of_le {line : List Char} {n : Nat} (h : n ≤ Block.indentation line) :
    cutFrom n line = some (line.drop n) := by
  have htake : line.take n <+: line.takeWhile isInlineBlank :=
    List.prefix_of_prefix_length_le (List.take_prefix n line) (List.takeWhile_prefix _)
      (Nat.le_trans (List.length_take_le n line) h)
  have hlow : IsAscii (line.take n) := by
    intro c hc
    have hblank := List.all_takeWhile (l := line) (p := isInlineBlank)
    rw [List.all_eq_true] at hblank
    have hc := hblank c (htake.subset hc)
    simp only [isInlineBlank, Bool.or_eq_true, beq_iff_eq] at hc
    rcases hc with rfl | rfl <;> decide
  have hlength : (line.take n).length = n :=
    List.length_take_of_le (Nat.le_trans h (List.takeWhile_prefix _).length_le)
  have hcut := cutFrom_append (line.take n) (line.drop n)
  rwa [List.take_append_drop, hlow.byteLength_eq, hlength] at hcut

theorem literalLines_eq {src rest : List Char} (marker : Nat) (h : rest <:+ src) :
    literalLines src marker (offsetIn (byteLength src) rest) =
      some ((Block.literalLines marker rest).1,
        offsetIn (byteLength src) (Block.literalLines marker rest).2) := by
  -- The text is at its end exactly where nothing is left of it.
  have hend : ∀ {c : Char} {s : List Char}, c :: s <:+ src →
      ¬ byteLength src ≤ offsetIn (byteLength src) (c :: s) := by
    rintro c s ⟨before, rfl⟩
    have := one_le_byteLength (s := c :: s) (by simp)
    rw [offsetIn, byteLength_append]
    omega
  have hopens : ∀ line, ((line.drop (Block.indentation line)).head? = some '-' ∧
      Block.indentation line ≤ marker) ↔ Block.opensItem marker line = true := by
    intro line
    have hdrop : line.drop (Block.indentation line) = line.dropWhile isInlineBlank := by
      have hleft : (line.takeWhile isInlineBlank ++ line.dropWhile isInlineBlank).drop
          (Block.indentation line) = line.dropWhile isInlineBlank := List.drop_left
      rwa [List.takeWhile_append_dropWhile] at hleft
    simp [Block.opensItem, hdrop, and_comm]
  fun_induction Block.literalLines marker rest with
  | case1 =>
      rw [literalLines, if_pos]
      · rfl
      · exact Nat.le_refl _
  | case2 c s line hitem =>
      rw [literalLines, if_neg (hend h), takeLine_eq h]
      simp only [Option.bind_eq_bind, Option.bind_some, leadingBlanks_eq, cutFrom_of_le (Nat.le_refl _)]
      rw [if_pos ((hopens _).mpr hitem)]
      rfl
  | case3 c s line hitem lines rest hrec ih =>
      have hline := (suffix_afterFirstLine _).trans h
      have hnext := ih ((suffix_dropLineBreak _).trans hline)
      have hbehind := suffix_of_length_lt ((suffix_dropLineBreak _).trans (suffix_afterFirstLine _))
        (Block.length_nextLine c s)
      obtain ⟨moved, hmoved⟩ := goOn_eq h (List.suffix_refl _) hbehind
      rw [hrec] at hnext
      rw [literalLines, if_neg (hend h), takeLine_eq h]
      simp only [Option.bind_eq_bind, Option.bind_some, leadingBlanks_eq, cutFrom_of_le (Nat.le_refl _)]
      rw [if_neg (mt (hopens _).mp hitem), skipLineBreak_eq hline, Option.bind_some, hmoved,
        Option.bind_some, hnext]
      rfl

theorem mapM_eq_some {α β : Type} {f : α → Option β} {g : α → β} {items : List α}
    (h : ∀ a ∈ items, f a = some (g a)) : items.mapM f = some (items.map g) := by
  induction items with
  | nil => rfl
  | cons a items ih =>
      obtain ⟨ha, hitems⟩ := List.forall_mem_cons.mp h
      rw [List.mapM_cons, ha, ih hitems]
      rfl

/-- No line that counts begins with fewer blanks than are cut off. -/
theorem dedent_eq (lines : List (List Char)) : dedent lines = some (Block.dedent lines) := by
  have hleading : leadingBlanks = Block.indentation := funext leadingBlanks_eq
  have hcut : ∀ line ∈ lines, (if isBlankText line then some [] else cutFrom (Block.margin lines) line) =
      some (Block.outdent (Block.margin lines) line) := by
    intro line hline
    cases hblank : isBlankText line with
    | true => rw [Block.outdent_of_blank _ hblank, if_pos rfl]
    | false =>
        rw [Block.outdent_of_visible _ hblank, if_neg (by simp)]
        exact cutFrom_of_le (Block.margin_le hline hblank)
  unfold dedent
  rw [hleading]
  show (lines.mapM fun line => if isBlankText line then some [] else cutFrom (Block.margin lines) line).bind
    (fun shifted => some (trimEnd (joinWith ['\n'] (shifted.dropWhile List.isEmpty)))) = _
  rw [mapM_eq_some hcut]
  rfl

theorem offsetIn_add {body rest : List Char} (base : Nat) (h : rest <:+ body) :
    base + offsetIn (byteLength body) rest = offsetIn (base + byteLength body) rest := by
  obtain ⟨before, rfl⟩ := h
  rw [offsetIn, offsetIn, byteLength_append]
  omega

section Items

variable {body rest after : List Char}

/-- Behind a dash a value is read, and then the items that follow. -/
theorem blockItems_dash {c : Char} (base : Nat) (h : rest <:+ body) (hstart : trimStart rest = c :: after)
    (hdash : ¬c ≠ '-') :
    blockItems body base (offsetIn (byteLength body) rest) = (do
      let (value, stop) ← blockValue body base (Block.column body (c :: after))
        (offsetIn (byteLength body) (after.dropWhile isInlineBlank))
      let next ← goOn body (offsetIn (byteLength body) rest) stop
      return value :: (← blockItems body base next)) := by
  have hitem := suffix_of_dropWhile hstart h
  conv_lhs => rw [blockItems, skipBlanks_eq h, Cutting.lift_bind, hstart, peek_eq hitem, Cutting.lift_bind]
  simp only [List.head?_cons]
  rw [if_neg hdash, columnAt_eq hitem, Cutting.lift_bind, offsetIn_cons hitem,
    skipWhile_eq _ ((List.suffix_cons c after).trans hitem), Cutting.lift_bind]

theorem blockValue_quoted {quoted : List Char} (base marker : Nat) (h : '"' :: quoted <:+ body) :
    blockValue body base marker (offsetIn (byteLength body) ('"' :: quoted)) =
      .of (match Quoted.decode quoted with
        | none => .error (.unterminatedQuote (offsetIn (base + byteLength body) ('"' :: quoted)))
        | some (value, next) => .ok (value, offsetIn (byteLength body) next)) := by
  rw [blockValue, peek_eq h, Cutting.lift_bind, ← offsetIn_add base h]
  exact readQuoted_eq base h

theorem blockValue_bar {bar : List Char} (base marker : Nat) (h : '|' :: bar <:+ body) :
    blockValue body base marker (offsetIn (byteLength body) ('|' :: bar)) =
      .of (match Block.firstLine (bar.dropWhile isInlineBlank) with
        | found :: _ => .error (.unexpected found
            (offsetIn (base + byteLength body) (bar.dropWhile isInlineBlank)) .lineBreakAfterBar)
        | [] =>
            let (lines, next) :=
              Block.literalLines marker (Block.dropLineBreak (bar.dropWhile isInlineBlank))
            .ok (Block.dedent lines, offsetIn (byteLength body) next)) := by
  have hbar := (List.suffix_cons '|' bar).trans h
  have hline := (List.dropWhile_suffix isInlineBlank).trans hbar
  rw [blockValue, peek_eq h, Cutting.lift_bind]
  simp only [List.head?_cons]
  rw [offsetIn_cons h, skipWhile_eq _ hbar, Cutting.lift_bind, takeLine_eq hline, Cutting.lift_bind]
  dsimp only
  split
  · rename_i found more hfound
    rw [offsetIn_add base hline]
    rfl
  · rename_i hempty
    -- Nothing stands on the line of the bar, so the cursor is in front of its line break.
    have hafter : Block.afterFirstLine (bar.dropWhile isInlineBlank) = bar.dropWhile isInlineBlank := by
      have hsplit := List.takeWhile_append_dropWhile (p := fun c => !isLineBreak c)
        (l := bar.dropWhile isInlineBlank)
      rwa [show List.takeWhile _ _ = [] from hempty, List.nil_append] at hsplit
    rw [hafter, skipLineBreak_eq hline, Cutting.lift_bind,
      literalLines_eq marker ((suffix_dropLineBreak _).trans hline), Cutting.lift_bind, dedent_eq,
      Cutting.lift_bind]
    rfl

theorem blockValue_bare {c : Char} {bare : List Char} (base marker : Nat) (h : c :: bare <:+ body)
    (hquote : c ≠ '"') (hbar : c ≠ '|') (hfeed : c ≠ '\n') (hreturn : c ≠ '\r') :
    blockValue body base marker (offsetIn (byteLength body) (c :: bare)) =
      .of (.ok (trim (Block.firstLine (c :: bare)),
        offsetIn (byteLength body) (Block.afterFirstLine (c :: bare)))) := by
  rw [blockValue, peek_eq h, Cutting.lift_bind, takeLine_eq h]
  simp only [List.head?_cons]
  rfl

theorem blockValue_none (base marker : Nat) (h : rest <:+ body)
    (hrest : rest = [] ∨ (∃ more, rest = '\n' :: more) ∨ ∃ more, rest = '\r' :: more) :
    blockValue body base marker (offsetIn (byteLength body) rest) =
      .of (.error (.unexpectedEnd .valueAfterDash)) := by
  rw [blockValue, peek_eq h, Cutting.lift_bind]
  rcases hrest with rfl | ⟨more, rfl⟩ | ⟨more, rfl⟩ <;> rfl

theorem blockItems_eq (base : Nat) (h : rest <:+ body) :
    blockItems body base (offsetIn (byteLength body) rest) =
      .of (Block.readItems body (offsetIn (base + byteLength body)) rest) := by
  fun_induction Block.readItems body (offsetIn (base + byteLength body)) rest with
  | case1 rest hstart =>
      rw [blockItems, skipBlanks_eq h, Cutting.lift_bind, hstart, peek_eq List.nil_suffix,
        Cutting.lift_bind]
      rfl
  | case2 rest c after hstart hdash =>
      have hitem := suffix_of_dropWhile hstart h
      rw [blockItems, skipBlanks_eq h, Cutting.lift_bind, hstart, peek_eq hitem, Cutting.lift_bind]
      simp only [List.head?_cons]
      rw [if_pos hdash, offsetIn_add base hitem]
      rfl
  | case3 rest c after hstart hdash quoted hafter hquoted =>
      have hbehind := (List.suffix_cons c after).trans (suffix_of_dropWhile hstart h)
      have hvalue := suffix_of_dropWhile hafter hbehind
      rw [blockItems_dash base h hstart hdash, hafter, blockValue_quoted base _ hvalue, hquoted]
      rfl
  | case4 rest c after hstart hdash quoted hafter value next hquoted ih =>
      have hbehind := (List.suffix_cons c after).trans (suffix_of_dropWhile hstart h)
      have hvalue := suffix_of_dropWhile hafter hbehind
      rw [blockItems_dash base h hstart hdash, hafter, blockValue_quoted base _ hvalue, hquoted]
      have hnext : next <:+ after := (suffix_of_decode hquoted).trans
        ((List.suffix_cons '"' quoted).trans (suffix_of_dropWhile hafter (List.suffix_refl after)))
      exact goOn_map (value :: ·) h (suffix_of_dropWhile hstart (List.suffix_refl rest)) hnext
        (ih (hnext.trans hbehind))
  | case5 rest c after hstart hdash bar hafter found tail hline =>
      have hbehind := (List.suffix_cons c after).trans (suffix_of_dropWhile hstart h)
      have hvalue := suffix_of_dropWhile hafter hbehind
      rw [blockItems_dash base h hstart hdash, hafter, blockValue_bar base _ hvalue, hline]
      rfl
  | case6 rest c after hstart hdash bar hafter hline lines next hlines ih =>
      have hbehind := (List.suffix_cons c after).trans (suffix_of_dropWhile hstart h)
      have hvalue := suffix_of_dropWhile hafter hbehind
      have hnext := suffix_literalLines (Block.column body (c :: after))
        (Block.dropLineBreak (bar.dropWhile isInlineBlank))
      rw [hlines] at hnext
      have hbar := (suffix_dropLineBreak _).trans (List.dropWhile_suffix isInlineBlank (l := bar))
      have hlast : next <:+ after := (hnext.trans hbar).trans
        ((List.suffix_cons '|' bar).trans (suffix_of_dropWhile hafter (List.suffix_refl after)))
      rw [blockItems_dash base h hstart hdash, hafter, blockValue_bar base _ hvalue, hline, hlines]
      exact goOn_map (_ :: ·) h (suffix_of_dropWhile hstart (List.suffix_refl rest)) hlast
        (ih (hlast.trans hbehind))
  | case7 rest c after hstart hdash hafter =>
      rw [blockItems_dash base h hstart hdash, hafter, blockValue_none base _ List.nil_suffix (.inl rfl)]
      rfl
  | case8 rest c after hstart hdash tail hafter =>
      have hbehind := (List.suffix_cons c after).trans (suffix_of_dropWhile hstart h)
      rw [blockItems_dash base h hstart hdash, hafter,
        blockValue_none base _ (suffix_of_dropWhile hafter hbehind) (.inr (.inl ⟨tail, rfl⟩))]
      rfl
  | case9 rest c after hstart hdash tail hafter =>
      have hbehind := (List.suffix_cons c after).trans (suffix_of_dropWhile hstart h)
      rw [blockItems_dash base h hstart hdash, hafter,
        blockValue_none base _ (suffix_of_dropWhile hafter hbehind) (.inr (.inr ⟨tail, rfl⟩))]
      rfl
  | case10 rest c after hstart hdash hquote hbar hempty hfeed hreturn ih =>
      have hbehind := (List.suffix_cons c after).trans (suffix_of_dropWhile hstart h)
      have hvalue := (List.dropWhile_suffix isInlineBlank (l := after)).trans hbehind
      rw [blockItems_dash base h hstart hdash]
      cases hafter : after.dropWhile isInlineBlank with
      | nil => exact absurd hafter hempty
      | cons d bare =>
          rw [hafter] at hvalue ih
          rw [blockValue_bare base _ hvalue (fun hd => hquote bare (hd ▸ hafter))
            (fun hd => hbar bare (hd ▸ hafter)) (fun hd => hfeed bare (hd ▸ hafter))
            (fun hd => hreturn bare (hd ▸ hafter))]
          have hnext : Block.afterFirstLine (d :: bare) <:+ after :=
            (suffix_afterFirstLine _).trans (suffix_of_dropWhile hafter (List.suffix_refl after))
          exact goOn_map (_ :: ·) h (suffix_of_dropWhile hstart (List.suffix_refl rest)) hnext
            (ih (hnext.trans hbehind))

end Items

/-- The last closing brace counts if it stands behind the first opening one. -/
theorem lastIndex_filter {before inside : List Char} :
    (lastIndex (· == '}') (before ++ '{' :: inside)).filter (byteLength before < ·) =
      (splitLast '}' inside).map fun parts => byteLength before + 1 + byteLength parts.1 := by
  rw [lastIndex_eq_splitLast]
  cases hinside : splitLast '}' inside with
  | some parts =>
      obtain ⟨body, after⟩ := parts
      obtain ⟨rfl, hafter⟩ := splitLast_eq_some_iff.mp hinside
      have htext : splitLast '}' (before ++ '{' :: (body ++ '}' :: after)) =
          some (before ++ '{' :: body, after) :=
        splitLast_eq_some_iff.mpr ⟨by simp, hafter⟩
      have hbrace : '{'.utf8Size = 1 := by decide
      rw [htext]
      simp only [Option.map_some, byteLength_append, byteLength_cons, hbrace, ← Nat.add_assoc]
      exact Option.filter_some_pos (by simp; omega)
  | none =>
      have hnot := splitLast_eq_none_iff.mp hinside
      rw [Option.map_none, Option.filter_eq_none_iff]
      intro i hi
      obtain ⟨⟨left, right⟩, hsplit, rfl⟩ := Option.map_eq_some_iff.mp hi
      obtain ⟨htext, -⟩ := splitLast_eq_some_iff.mp hsplit
      rcases List.append_eq_append_iff.mp htext with ⟨more, rfl, hmore⟩ | ⟨more, rfl, hmore⟩
      · cases more with
        | nil => simp
        | cons c more =>
            obtain ⟨-, rfl⟩ := List.cons.inj hmore
            exact absurd (by simp) hnot
      · simp

/-- The first character that is no blank, and where it stands. -/
theorem first_visible {s rest : List Char} {found : Char} (h : trimStart s = found :: rest) :
    s.find? (fun c => !isBlank c) = some found ∧
      firstIndex (fun c => !isBlank c) s = some (byteLength (s.takeWhile isBlank)) := by
  change s.dropWhile isBlank = found :: rest at h
  have hbehind : s.dropWhile (fun c => !!isBlank c) = found :: rest := by simpa using h
  constructor
  · simp [List.find?_eq_head?_dropWhile_not, h]
  · simpa using firstIndex_eq_some hbehind

theorem blockValues_eq (text : List Char) : blockValues text = .of (Block.values text) := by
  unfold blockValues Block.values
  rw [firstIndex_eq_splitFirst]
  cases hopen : splitFirst '{' text with
  | none => rfl
  | some parts =>
      obtain ⟨before, inside⟩ := parts
      obtain ⟨rfl, -⟩ := splitFirst_eq_some_iff.mp hopen
      simp only [Option.map_some, lastIndex_filter]
      cases hclose : splitLast '}' inside with
      | none => rfl
      | some parts =>
          obtain ⟨body, after⟩ := parts
          obtain ⟨rfl, -⟩ := splitLast_eq_some_iff.mp hclose
          have hopened : byteLength before + 1 = byteLength (before ++ ['{']) :=
            (byteLength_append before ['{']).symm
          have hclosed : byteLength before + 1 + byteLength body + 1 =
              byteLength (before ++ '{' :: (body ++ ['}'])) := by
            rw [hopened]
            simp only [byteLength_append, byteLength_cons, byteLength_nil, Nat.add_assoc, Nat.zero_add]
            rfl
          have htail : before ++ '{' :: (body ++ '}' :: after) =
              (before ++ '{' :: (body ++ ['}'])) ++ after := by simp
          have hbody : before ++ '{' :: (body ++ '}' :: after) =
              (before ++ ['{']) ++ (body ++ '}' :: after) := by simp
          simp only [Option.map_some]
          rw [hclosed, htail, cutFrom_append, Cutting.lift_bind]
          cases hafter : trimStart after with
          | nil =>
              rw [List.find?_eq_none.mpr (by simpa using List.dropWhile_eq_nil_iff.mp hafter)]
              dsimp only
              rw [← htail, hbody, hopened, cut_append, Cutting.lift_bind]
              have hitems := blockItems_eq (byteLength (before ++ ['{'])) (List.suffix_refl body)
              rwa [offsetIn, Nat.sub_self] at hitems
          | cons found rest =>
              obtain ⟨hfind, hindex⟩ := first_visible hafter
              change after.dropWhile isBlank = found :: rest at hafter
              have hposition : byteLength (before ++ '{' :: (body ++ ['}'])) +
                  byteLength (after.takeWhile isBlank) =
                    offsetIn (byteLength ((before ++ '{' :: (body ++ ['}'])) ++ after)) (found :: rest) := by
                conv_rhs => rw [← List.takeWhile_append_dropWhile (p := isBlank) (l := after), hafter]
                rw [offsetIn, byteLength_append _ (_ ++ _), byteLength_append (after.takeWhile isBlank)]
                omega
              simp only [hfind, hindex]
              rw [hposition]
              rfl

end MenuActions.Grammar.Cursor
