import MenuActions.Proofs.Grammar.BlockItems
import MenuActions.Proofs.Grammar.ErrorPosition
import Mathlib.Data.List.Induction

/-!
# Blocks with either ending of lines

A line may end in a line feed or in a carriage return and a line feed.  `withReturns` writes a text with the
second ending, and a block that is written so has the values that it had, as long as the line breaks of the
text are breaks between lines for the reader: inside quotes they are characters of the value.

`Reads` says which items the reader finds, in which form and where it goes on; `values_eq_ok_iff` makes it
a description of the reader.  Each step of a reading is then carried over to the other text: the places at
which the two readers stand correspond (`withReturns` of what is left), and the forms are the same
(`Reads.withReturns`).
-/

namespace MenuActions.Grammar.Block

open Text

/-! ## What the reader finds -/

/-- An item of a block as it is found: the text in its quotes without escapes, its line, or its literal
lines. -/
inductive Form
  | quoted (value : List Char)
  | bare (line : List Char)
  | literal (lines : List (List Char))

/-- The value of an item. -/
def Form.value : Form → List Char
  | .quoted value => value
  | .bare line => trim line
  | .literal lines => dedent lines

/-- The items that are found in `rest`, the part of a body that is still to come. -/
inductive Reads (body : List Char) : List Char → List Form → Prop
  | done {rest : List Char} : trimStart rest = [] → Reads body rest []
  | quoted {rest after quoted value next : List Char} {forms : List Form} :
      trimStart rest = '-' :: after → after.dropWhile isInlineBlank = '"' :: quoted →
      Quoted.decode quoted = some (value, next) → Reads body next forms →
      Reads body rest (.quoted value :: forms)
  | bare {rest after bare : List Char} {c : Char} {forms : List Form} :
      trimStart rest = '-' :: after → after.dropWhile isInlineBlank = c :: bare →
      c ≠ '"' → c ≠ '|' → isLineBreak c = false → Reads body (afterFirstLine (c :: bare)) forms →
      Reads body rest (.bare (firstLine (c :: bare)) :: forms)
  | literal {rest after bar next : List Char} {lines : List (List Char)} {forms : List Form} :
      trimStart rest = '-' :: after → after.dropWhile isInlineBlank = '|' :: bar →
      firstLine (bar.dropWhile isInlineBlank) = [] →
      literalLines (column body ('-' :: after)) (dropLineBreak (bar.dropWhile isInlineBlank)) =
        (lines, next) →
      Reads body next forms → Reads body rest (.literal lines :: forms)

theorem ok_of_bind {read : Except ParseError (List (List Char))} {value : List Char}
    {values : List (List Char)}
    (h : (do let found ← read; return value :: found) = Except.ok values) :
    ∃ found, read = .ok found ∧ values = value :: found := by
  cases read with
  | error error => exact absurd h (by simp [bind, Except.bind])
  | ok found => exact ⟨found, rfl, (Except.ok.inj h).symm⟩

theorem Reads.readItems_eq {body rest : List Char} {forms : List Form} (offset : List Char → Nat)
    (h : Reads body rest forms) : readItems body offset rest = .ok (forms.map Form.value) := by
  induction h with
  | done hrest => exact readItems_of_blank hrest
  | quoted hrest hafter hquoted _ ih =>
      rw [readItems_quoted hrest hafter hquoted, ih]
      rfl
  | bare hrest hafter hquote hbar hbreak _ ih =>
      rw [readItems_bare hrest hafter hquote hbar hbreak, ih]
      rfl
  | literal hrest hafter hbar hlines _ ih =>
      rw [readItems_literal hrest hafter hbar hlines, ih]
      rfl

theorem exists_reads {body rest : List Char} {offset : List Char → Nat} {values : List (List Char)}
    (h : readItems body offset rest = .ok values) :
    ∃ forms, Reads body rest forms ∧ forms.map Form.value = values := by
  fun_induction readItems body offset rest generalizing values with
  | case1 rest hstart => exact ⟨[], .done hstart, Except.ok.inj h⟩
  | case4 rest c after hstart hdash quoted hafter value next hquoted ih =>
      obtain rfl : c = '-' := by simpa using hdash
      obtain ⟨found, hfound, rfl⟩ := ok_of_bind h
      obtain ⟨forms, hforms, rfl⟩ := ih hfound
      exact ⟨.quoted value :: forms, .quoted hstart hafter hquoted hforms, rfl⟩
  | case6 rest c after hstart hdash bar hafter hline lines next hlines ih =>
      obtain rfl : c = '-' := by simpa using hdash
      obtain ⟨found, hfound, rfl⟩ := ok_of_bind h
      obtain ⟨forms, hforms, rfl⟩ := ih hfound
      exact ⟨.literal lines :: forms, .literal hstart hafter hline hlines hforms, rfl⟩
  | case10 rest c after hstart hdash hquote hbar hempty hfeed hreturn ih =>
      obtain rfl : c = '-' := by simpa using hdash
      obtain ⟨found, hfound, rfl⟩ := ok_of_bind h
      obtain ⟨forms, hforms, rfl⟩ := ih hfound
      cases hline : after.dropWhile isInlineBlank with
      | nil => exact absurd hline hempty
      | cons d line =>
          rw [hline] at hforms
          have hbreak : isLineBreak d = false := by
            simp only [isLineBreak, Bool.or_eq_false_iff, beq_eq_false_iff_ne]
            exact ⟨fun heq => hfeed line (heq ▸ hline), fun heq => hreturn line (heq ▸ hline)⟩
          exact ⟨.bare (firstLine (d :: line)) :: forms,
            .bare hstart hline (fun heq => hquote line (heq ▸ hline))
              (fun heq => hbar line (heq ▸ hline)) hbreak hforms, rfl⟩
  | case2 => exact absurd h (by simp)
  | case3 => exact absurd h (by simp)
  | case5 => exact absurd h (by simp)
  | case7 => exact absurd h (by simp)
  | case8 => exact absurd h (by simp)
  | case9 => exact absurd h (by simp)

/-- At each place the reader finds one thing only. -/
theorem Reads.unique {body rest : List Char} {forms others : List Form} (h : Reads body rest forms)
    (hothers : Reads body rest others) : forms = others := by
  induction h generalizing others with
  | done hrest => cases hothers <;> grind
  | quoted hrest hafter hquoted hnext ih => cases hothers <;> grind
  | bare hrest hafter hquote hbar hbreak hnext ih => cases hothers <;> grind
  | literal hrest hafter hbar hlines hnext ih => cases hothers <;> grind

/-- The items that are found in a block, between its first opening and its last closing brace. -/
def Finds (text : List Char) (forms : List Form) : Prop :=
  ∃ before body after, text = before ++ '{' :: (body ++ '}' :: after) ∧ '{' ∉ before ∧
    '}' ∉ after ∧ trimStart after = [] ∧ Reads body body forms

/-- The values of a block are those of the items that are found in it. -/
theorem values_eq_ok_iff {text : List Char} {found : List (List Char)} :
    values text = .ok found ↔ ∃ forms, Finds text forms ∧ forms.map Form.value = found := by
  constructor
  · intro h
    unfold values at h
    split at h
    case h_1 => exact absurd h (by simp)
    case h_2 before inside hopen =>
        obtain ⟨rfl, hbefore⟩ := splitFirst_eq_some_iff.mp hopen
        dsimp only at h
        split at h
        case h_1 => exact absurd h (by simp)
        case h_2 body after hclose =>
            obtain ⟨rfl, hafter⟩ := splitLast_eq_some_iff.mp hclose
            split at h
            case h_1 => exact absurd h (by simp)
            case h_2 hblank =>
                obtain ⟨forms, hforms, hvalues⟩ := exists_reads h
                exact ⟨forms, ⟨before, body, after, rfl, hbefore, hafter, hblank, hforms⟩, hvalues⟩
  · rintro ⟨forms, ⟨before, body, after, rfl, hbefore, hafter, hblank, hforms⟩, rfl⟩
    have hopen : splitFirst '{' (before ++ '{' :: (body ++ '}' :: after)) =
        some (before, body ++ '}' :: after) := splitFirst_eq_some_iff.mpr ⟨rfl, hbefore⟩
    unfold values
    simp only [hopen, splitLast_append_cons hafter, hblank]
    exact hforms.readItems_eq _

theorem Finds.unique {text : List Char} {forms others : List Form} (h : Finds text forms)
    (hothers : Finds text others) : forms = others := by
  obtain ⟨before, body, after, htext, hbefore, hafter, -, hforms⟩ := h
  obtain ⟨front, inner, back, hsame, hfront, hback, -, hinner⟩ := hothers
  have hopen := splitFirst_eq_some_iff.mpr ⟨htext, hbefore⟩
  rw [splitFirst_eq_some_iff.mpr ⟨hsame, hfront⟩, Option.some.injEq, Prod.mk.injEq] at hopen
  have hclose : splitLast '}' (body ++ '}' :: after) = some (body, after) :=
    splitLast_append_cons hafter
  rw [← hopen.2, splitLast_append_cons hback, Option.some.injEq, Prod.mk.injEq] at hclose
  rw [hclose.1] at hinner
  exact hforms.unique hinner

/-- No quoted value of a block goes over the end of a line. -/
def QuotesEndInLine (text : List Char) : Prop :=
  ∀ forms, Finds text forms → ∀ value, .quoted value ∈ forms → '\n' ∉ value

theorem Finds.quotesEndInLine {text : List Char} {forms : List Form} (h : Finds text forms)
    (hline : ∀ value, .quoted value ∈ forms → '\n' ∉ value) : QuotesEndInLine text :=
  fun _ hothers => h.unique hothers ▸ hline

/-! ## Writing returns -/

/-- The text with a carriage return in front of every line feed. -/
def withReturns (text : List Char) : List Char :=
  text.flatMap fun c => if c = '\n' then ['\r', '\n'] else [c]

@[simp] theorem withReturns_nil : withReturns [] = [] := rfl

@[simp] theorem withReturns_feed (s : List Char) :
    withReturns ('\n' :: s) = '\r' :: '\n' :: withReturns s := rfl

@[simp] theorem withReturns_append (s t : List Char) :
    withReturns (s ++ t) = withReturns s ++ withReturns t :=
  List.flatMap_append

theorem withReturns_cons {c : Char} (s : List Char) (hc : c ≠ '\n') :
    withReturns (c :: s) = c :: withReturns s := by
  rw [withReturns, List.flatMap_cons, if_neg hc]
  rfl

theorem not_mem_withReturns {c : Char} {s : List Char} (hc : c ≠ '\r') (h : c ∉ s) :
    c ∉ withReturns s := by
  intro hmem
  obtain ⟨d, hd, hin⟩ := List.mem_flatMap.mp hmem
  split at hin
  · rename_i hfeed
    simp only [List.mem_cons, List.not_mem_nil, or_false] at hin
    rcases hin with rfl | rfl
    · exact hc rfl
    · exact h (hfeed ▸ hd)
  · obtain rfl : c = d := by simpa using hin
    exact h hd

/-! ## Scans that do not tell the two characters of a line break apart -/

section Scans

variable {p : Char → Bool}

theorem dropWhile_withReturns (hp : p '\r' = p '\n') (s : List Char) :
    (withReturns s).dropWhile p = withReturns (s.dropWhile p) := by
  induction s with
  | nil => rfl
  | cons c s ih =>
      by_cases hc : c = '\n'
      · subst hc
        cases hfeed : p '\n' with
        | true => simp [hp, hfeed, ih]
        | false => simp [hp, hfeed]
      · rw [withReturns_cons s hc]
        cases hpc : p c with
        | true => rw [List.dropWhile_cons_of_pos hpc, List.dropWhile_cons_of_pos hpc, ih]
        | false =>
            rw [List.dropWhile_cons_of_neg (by simp [hpc]), List.dropWhile_cons_of_neg (by simp [hpc]),
              withReturns_cons s hc]

theorem trimStart_withReturns (s : List Char) :
    trimStart (withReturns s) = withReturns (trimStart s) :=
  dropWhile_withReturns (by decide) s

theorem skipInline_withReturns (s : List Char) :
    (withReturns s).dropWhile isInlineBlank = withReturns (s.dropWhile isInlineBlank) :=
  dropWhile_withReturns (by decide) s

theorem afterFirstLine_withReturns (s : List Char) :
    afterFirstLine (withReturns s) = withReturns (afterFirstLine s) :=
  dropWhile_withReturns (by decide) s

/-- A line is the same before either ending. -/
theorem firstLine_withReturns (s : List Char) : firstLine (withReturns s) = firstLine s := by
  induction s with
  | nil => rfl
  | cons c s ih =>
      by_cases hc : c = '\n'
      · subst hc
        rfl
      · rw [withReturns_cons s hc]
        unfold firstLine at ih ⊢
        rw [List.takeWhile_cons, List.takeWhile_cons, ih]

end Scans

/-- Either ending of a line is dropped as one. -/
theorem dropLineBreak_withReturns {s : List Char} (h : '\r' ∉ s) :
    dropLineBreak (withReturns s) = withReturns (dropLineBreak s) := by
  cases s with
  | nil => rfl
  | cons c s =>
      by_cases hc : c = '\n'
      · subst hc
        rfl
      · have hreturn : c ≠ '\r' := fun heq => h (heq ▸ List.mem_cons_self)
        have hkeep : ∀ t, dropLineBreak (c :: t) = c :: t := fun t => by
          unfold dropLineBreak
          split <;> simp_all
        rw [withReturns_cons s hc, hkeep, hkeep, withReturns_cons s hc]

theorem withReturns_ne_nil {s : List Char} (h : s ≠ []) : withReturns s ≠ [] := by
  obtain ⟨c, s, rfl⟩ := List.exists_cons_of_ne_nil h
  by_cases hc : c = '\n'
  · subst hc
    exact List.cons_ne_nil _ _
  · rw [withReturns_cons s hc]
    exact List.cons_ne_nil _ _

/-- A line that opens no item is a literal line, and the next one begins behind its line break. -/
theorem literalLines_of_not_opensItem {marker : Nat} {text : List Char} (hne : text ≠ [])
    (hopen : opensItem marker (firstLine text) = false) :
    literalLines marker text =
      (firstLine text :: (literalLines marker (dropLineBreak (afterFirstLine text))).1,
        (literalLines marker (dropLineBreak (afterFirstLine text))).2) := by
  obtain ⟨c, s, rfl⟩ := List.exists_cons_of_ne_nil hne
  rw [literalLines]
  simp only [hopen, Bool.false_eq_true, if_false]

/-- Literal lines are the same with either ending, and they end at the same place. -/
theorem literalLines_withReturns {marker : Nat} {s : List Char} (h : '\r' ∉ s) :
    literalLines marker (withReturns s) =
      ((literalLines marker s).1, withReturns (literalLines marker s).2) := by
  fun_induction literalLines marker s with
  | case1 => rw [withReturns_nil, literalLines]
  | case2 c s line hopen =>
      rw [literalLines_of_opensItem (by rw [firstLine_withReturns]; exact hopen)]
  | case3 c s line hopen lines rest hrec ih =>
      have hne : c :: s ≠ [] := List.cons_ne_nil c s
      have hreturn : '\r' ∉ afterFirstLine (c :: s) := fun hmem =>
        h ((suffix_afterFirstLine _).mem hmem)
      have hnext : '\r' ∉ dropLineBreak (afterFirstLine (c :: s)) := fun hmem =>
        hreturn ((suffix_dropLineBreak _).mem hmem)
      have hclosed : opensItem marker (firstLine (withReturns (c :: s))) = false := by
        rw [firstLine_withReturns]
        exact Bool.eq_false_iff.mpr hopen
      rw [literalLines_of_not_opensItem (withReturns_ne_nil hne) hclosed, firstLine_withReturns,
        afterFirstLine_withReturns, dropLineBreak_withReturns hreturn, ih hnext, hrec]

/-! ## Quoted values and columns -/

theorem head?_withReturns {s : List Char} {c : Char} (hc : c ≠ '\r')
    (h : (withReturns s).head? = some c) : s.head? = some c := by
  cases s with
  | nil => exact h
  | cons d s =>
      by_cases hd : d = '\n'
      · subst hd
        exact absurd (Option.some.inj h).symm hc
      · rw [withReturns_cons s hd] at h
        exact h

/-- A value that ends in its line is read from either text. -/
theorem decode_withReturns {s value next : List Char} (h : Quoted.decode s = some (value, next))
    (hvalue : '\n' ∉ value) : Quoted.decode (withReturns s) = some (value, withReturns next) := by
  induction s using Quoted.decode.induct generalizing value next with
  | case1 => exact absurd h (by simp [Quoted.decode])
  | case2 r =>
      obtain ⟨rfl, rfl⟩ : [] = value ∧ r = next := by simpa [Quoted.decode] using h
      rfl
  | case3 r ih =>
      simp only [Quoted.decode, Option.map_eq_some_iff, Prod.mk.injEq] at h
      obtain ⟨⟨found, behind⟩, hr, rfl, rfl⟩ := h
      rw [withReturns_cons _ (by decide), withReturns_cons _ (by decide), Quoted.decode,
        ih hr fun hmem => hvalue (List.mem_cons_of_mem _ hmem)]
      rfl
  | case4 r ih =>
      simp only [Quoted.decode, Option.map_eq_some_iff, Prod.mk.injEq] at h
      obtain ⟨⟨found, behind⟩, hr, rfl, rfl⟩ := h
      rw [withReturns_cons _ (by decide), withReturns_cons _ (by decide), Quoted.decode,
        ih hr fun hmem => hvalue (List.mem_cons_of_mem _ hmem)]
      rfl
  | case5 c r hquote hescaped hdouble ih =>
      rw [Quoted.decode] at h
      · simp only [Option.map_eq_some_iff, Prod.mk.injEq] at h
        obtain ⟨⟨found, behind⟩, hr, rfl, rfl⟩ := h
        have hc : c ≠ '\n' := fun heq => hvalue (heq ▸ List.mem_cons_self)
        rw [withReturns_cons r hc, Quoted.decode,
          ih hr fun hmem => hvalue (List.mem_cons_of_mem _ hmem)]
        · rfl
        · exact hquote
        -- What stands behind a backslash is the same in both texts.
        · intro rest hslash hrest
          have hhead : (withReturns r).head? = some '"' := by rw [hrest]; rfl
          obtain ⟨more, rfl⟩ := List.head?_eq_some_iff.mp (head?_withReturns (by decide) hhead)
          exact hescaped more hslash rfl
        · intro rest hslash hrest
          have hhead : (withReturns r).head? = some '\\' := by rw [hrest]; rfl
          obtain ⟨more, rfl⟩ := List.head?_eq_some_iff.mp (head?_withReturns (by decide) hhead)
          exact hdouble more hslash rfl
      all_goals assumption

/-- A carriage return stands in front of its line feed and so in no column of the next line. -/
theorem column_withReturns {body rest : List Char} (h : rest <:+ body) :
    column (withReturns body) (withReturns rest) = column body rest := by
  obtain ⟨front, rfl⟩ := h
  rw [withReturns_append, column_append, column_append]
  induction front using List.reverseRecOn with
  | nil => rfl
  | append_singleton front c ih =>
      by_cases hc : c = '\n'
      · subst hc
        simp
      · have hsingle : withReturns [c] = [c] := withReturns_cons [] hc
        simp [hsingle, hc, ih]

/-! ## The reading of the other text -/

/-- Each item that is found is found in the other text, in the same form. -/
theorem Reads.withReturns {body rest : List Char} {forms : List Form} (h : Reads body rest forms)
    (hrest : rest <:+ body) (hreturn : '\r' ∉ body)
    (hquoted : ∀ value, .quoted value ∈ forms → '\n' ∉ value) :
    Reads (Block.withReturns body) (Block.withReturns rest) forms := by
  have hstart : ∀ {rest after : List Char}, trimStart rest = '-' :: after →
      trimStart (Block.withReturns rest) = '-' :: Block.withReturns after := fun h => by
    rw [trimStart_withReturns, h, withReturns_cons _ (by decide)]
  have hbehind : ∀ {after bare : List Char} {c : Char}, c ≠ '\n' →
      after.dropWhile isInlineBlank = c :: bare →
      (Block.withReturns after).dropWhile isInlineBlank = c :: Block.withReturns bare :=
    fun hc h => by rw [skipInline_withReturns, h, withReturns_cons _ hc]
  induction h with
  | done hblank => exact .done (by rw [trimStart_withReturns, hblank, withReturns_nil])
  | quoted hdash hafter hdecode _ ih =>
      have hvalue := hquoted _ List.mem_cons_self
      have hnext := (suffix_of_decode hdecode).trans ((List.suffix_cons _ _).trans
        (suffix_of_dropWhile hafter ((List.suffix_cons _ _).trans (suffix_of_dropWhile hdash hrest))))
      exact .quoted (hstart hdash) (hbehind (by decide) hafter) (decode_withReturns hdecode hvalue)
        (ih hnext fun value hmem => hquoted value (List.mem_cons_of_mem _ hmem))
  | @bare rest after bare c forms hdash hafter hquote hbar hbreak _ ih =>
      have hc : c ≠ '\n' := fun heq => absurd (heq ▸ hbreak) (by decide)
      have hline := suffix_of_dropWhile hafter ((List.suffix_cons _ _).trans
        (suffix_of_dropWhile hdash hrest))
      have hnext := ih ((suffix_afterFirstLine _).trans hline)
        fun value hmem => hquoted value (List.mem_cons_of_mem _ hmem)
      rw [← afterFirstLine_withReturns, withReturns_cons _ hc] at hnext
      have hfound := Reads.bare (hstart hdash) (hbehind hc hafter) hquote hbar hbreak hnext
      rwa [← withReturns_cons _ hc, firstLine_withReturns] at hfound
  | @literal rest after bar next lines forms hdash hafter hbar hlines _ ih =>
      have hmarker := suffix_of_dropWhile hdash hrest
      have hbarline := (List.suffix_cons _ _).trans
        (suffix_of_dropWhile hafter ((List.suffix_cons _ _).trans hmarker))
      have hbreak : bar.dropWhile isInlineBlank <:+ body :=
        (List.dropWhile_suffix isInlineBlank).trans hbarline
      have hlater := (suffix_dropLineBreak _).trans hbreak
      have hnext := suffix_literalLines (column body ('-' :: after))
        (dropLineBreak (bar.dropWhile isInlineBlank))
      rw [hlines] at hnext
      refine .literal (hstart hdash) (hbehind (by decide) hafter) ?_ ?_
        (ih (hnext.trans hlater) fun value hmem => hquoted value (List.mem_cons_of_mem _ hmem))
      · rw [skipInline_withReturns, firstLine_withReturns]
        exact hbar
      · rw [← withReturns_cons after (by decide), column_withReturns hmarker,
          skipInline_withReturns, dropLineBreak_withReturns fun hmem => hreturn (hbreak.mem hmem),
          literalLines_withReturns fun hmem => hreturn (hlater.mem hmem), hlines]

/-- A block without carriage returns whose quoted values end in their lines has the same values when every
line feed is written as a carriage return and a line feed. -/
theorem values_withReturns {text : List Char} {found : List (List Char)} (hreturn : '\r' ∉ text)
    (hread : values text = .ok found) (hquoted : QuotesEndInLine text) :
    values (withReturns text) = .ok found := by
  obtain ⟨forms, hfinds, rfl⟩ := values_eq_ok_iff.mp hread
  refine values_eq_ok_iff.mpr ⟨forms, ?_, rfl⟩
  have hline := hquoted forms hfinds
  obtain ⟨before, body, after, rfl, hbefore, hafter, hblank, hforms⟩ := hfinds
  have hbody : '\r' ∉ body := fun hmem => hreturn (by simp [hmem])
  refine ⟨withReturns before, withReturns body, withReturns after, ?_,
    not_mem_withReturns (by decide) hbefore, not_mem_withReturns (by decide) hafter, ?_,
    hforms.withReturns (List.suffix_refl body) hbody hline⟩
  · rw [withReturns_append, withReturns_cons _ (by decide), withReturns_append,
      withReturns_cons _ (by decide)]
  · rw [trimStart_withReturns, hblank, withReturns_nil]

/-- A block with an item of each form: a dash and a brace in quotes, a line that ends in a quote, and literal
lines with one that is further in. -/
theorem values_withReturns_mixed :
    values (withReturns "\x7b\n- \"- \x7d\"\n- b\"\n- |\n c\n\n  - d\n\x7d".toList) =
      .ok ["- \x7d".toList, "b\"".toList, "c\n\n - d".toList] := by
  -- What is found, from the last item to the first.
  have hliteral : Reads "\n- \"- \x7d\"\n- b\"\n- |\n c\n\n  - d\n".toList
      "\n- |\n c\n\n  - d\n".toList [.literal [" c".toList, [], "  - d".toList]] :=
    @Reads.literal _ _ " |\n c\n\n  - d\n".toList "\n c\n\n  - d\n".toList [] _ _ (by decide) (by decide)
      (by decide) (by decide +kernel) (.done rfl)
  have hbare : Reads "\n- \"- \x7d\"\n- b\"\n- |\n c\n\n  - d\n".toList
      "\n- b\"\n- |\n c\n\n  - d\n".toList
      [.bare "b\"".toList, .literal [" c".toList, [], "  - d".toList]] :=
    @Reads.bare _ _ " b\"\n- |\n c\n\n  - d\n".toList "\"\n- |\n c\n\n  - d\n".toList 'b' _ (by decide)
      (by decide) (by decide) (by decide) (by decide) hliteral
  have hquoted : Reads "\n- \"- \x7d\"\n- b\"\n- |\n c\n\n  - d\n".toList
      "\n- \"- \x7d\"\n- b\"\n- |\n c\n\n  - d\n".toList
      [.quoted "- \x7d".toList, .bare "b\"".toList, .literal [" c".toList, [], "  - d".toList]] :=
    @Reads.quoted _ _ " \"- \x7d\"\n- b\"\n- |\n c\n\n  - d\n".toList
      "- \x7d\"\n- b\"\n- |\n c\n\n  - d\n".toList _ _ _ (by decide) (by decide) (by decide) hbare
  have hfinds : Finds "\x7b\n- \"- \x7d\"\n- b\"\n- |\n c\n\n  - d\n\x7d".toList
      [.quoted "- \x7d".toList, .bare "b\"".toList, .literal [" c".toList, [], "  - d".toList]] :=
    ⟨[], _, [], by decide, by decide, by decide, rfl, hquoted⟩
  have hread : values "\x7b\n- \"- \x7d\"\n- b\"\n- |\n c\n\n  - d\n\x7d".toList =
      .ok ["- \x7d".toList, "b\"".toList, "c\n\n - d".toList] := by
    decide +kernel
  exact values_withReturns (by decide) hread (hfinds.quotesEndInLine (by simp))

end MenuActions.Grammar.Block
