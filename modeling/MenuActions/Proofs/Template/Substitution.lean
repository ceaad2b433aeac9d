import MenuActions.Handler
import MenuActions.Placeholder
import MenuActions.Proofs.Template.Filling
import MenuActions.Proofs.Template.TokenFree

/-!
# Substitution and the grammar

The data of an action is filled as it was written, before its values are read.  For quoted values
this makes no difference: filling a block or a bracket list and then reading it gives the values
filled one by one, whatever stands in the texts that come in, as long as none of them has a quote or
a backslash.

No token reaches over a quote, a blank or a comma, so filling goes into the parts of a written text
one after the other (`fill_append_cons`).  Escaping keeps the tokens of a value with what stands
around them, and a text that needs no escaping may be put in before or after (`fill_escape`).  What
is left is that each writer, filled, is the writer of the filled values.
-/

namespace MenuActions.Template

open Text Grammar

variable {value : String → Option String}

/-- No token begins inside of a name. -/
theorem tokenNames_append_of_no_brace {s t : List Char} (h : '{' ∉ s) :
    tokenNames isPlaceholderChar (s ++ t) = tokenNames isPlaceholderChar t := by
  induction s with
  | nil => rfl
  | cons c s ih =>
      rw [List.mem_cons, not_or] at h
      rw [List.cons_append, tokenNames, if_neg (Ne.symm h.1)]
      exact ih h.2

/-! ## Filling part by part -/

/-- Filling goes past a text without an opening brace. -/
theorem fill_append_of_no_brace {s t : List Char} (h : '{' ∉ s) :
    fill isPlaceholderChar value (s ++ t) = s ++ fill isPlaceholderChar value t := by
  induction s with
  | nil => rfl
  | cons c s ih =>
      rw [List.mem_cons, not_or] at h
      rw [List.cons_append, fill_cons (Ne.symm h.1), ih h.2]
      rfl

/-- The two parts of a text on either side of a separator are filled by themselves. -/
theorem fill_append_cons {s t : List Char} {c : Char} (hc : IsSeparator c) :
    fill isPlaceholderChar value (s ++ c :: t) =
      fill isPlaceholderChar value s ++ c :: fill isPlaceholderChar value t := by
  induction s using fill_induction isPlaceholderChar with
  | nil => rw [List.nil_append, fill_cons hc.2.1, fill_nil, List.nil_append]
  | char d s hd ih => rw [List.cons_append, fill_cons hd, ih, fill_cons hd, List.cons_append]
  | brace s hnone ih =>
      have happend : token? isPlaceholderChar (s ++ c :: t) = none := by
        rw [token?_append_cons hc, hnone]
        rfl
      rw [List.cons_append, fill_brace happend, ih, fill_brace hnone, List.cons_append]
  | token s name rest hsome ih =>
      have happend : token? isPlaceholderChar (s ++ c :: t) = some (name, rest ++ c :: t) := by
        rw [token?_append_cons hc, hsome]
        rfl
      rw [List.cons_append, fill_token happend, ih, fill_token hsome, List.append_assoc]

/-! ## Blanks -/

theorem isSeparator_of_isBlank {c : Char} (hc : isBlank c = true) : IsSeparator c := by
  have hname := Block.isNameChar_of_isBlank hc
  have hne : ∀ d, isBlank d = false → c ≠ d := by
    rintro d hd rfl
    rw [hc] at hd
    exact absurd hd (by decide)
  simp only [Block.isNameChar, Bool.or_eq_false_iff] at hname
  refine ⟨?_, hne _ (by decide), hne _ (by decide)⟩
  simp [isPlaceholderChar, hname, hne '.' (by decide), hne ':' (by decide)]

/-- Filling a text goes on between the blanks around it. -/
theorem fill_append_of_blank {front s back : List Char} (hfront : ∀ a ∈ front, isBlank a = true)
    (hback : ∀ a ∈ back, isBlank a = true) :
    fill isPlaceholderChar value (front ++ (s ++ back)) =
      front ++ (fill isPlaceholderChar value s ++ back) := by
  have hbrace : ∀ {t : List Char}, (∀ a ∈ t, isBlank a = true) → '{' ∉ t := by
    intro t ht hmem
    exact absurd (ht _ hmem) (by decide)
  rw [fill_append_of_no_brace (hbrace hfront)]
  cases back with
  | nil => rw [List.append_nil, List.append_nil]
  | cons b back =>
      have hrest : fill isPlaceholderChar value back = back := by
        have hall := @fill_append_of_no_brace value back []
          (hbrace fun a ha => hback a (List.mem_cons_of_mem _ ha))
        rw [fill_nil, List.append_nil] at hall
        exact hall
      rw [fill_append_cons (isSeparator_of_isBlank (hback b List.mem_cons_self)), hrest]

/-- It makes no difference whether a text is trimmed before it is filled, if it is trimmed
afterwards. -/
theorem trim_fill_trim (s : List Char) :
    trim (fill isPlaceholderChar value (trim s)) = trim (fill isPlaceholderChar value s) := by
  obtain ⟨front, back, hsplit, hfront, hback⟩ := exists_blank_of_trim s
  conv_rhs => rw [hsplit, fill_append_of_blank hfront hback, trim_append_of_blank hfront hback]

/-- What is left of a text that filling does not change is not changed either. -/
theorem fill_trim {s : List Char} (h : fill isPlaceholderChar value s = s) :
    fill isPlaceholderChar value (trim s) = trim s := by
  obtain ⟨front, back, hsplit, hfront, hback⟩ := exists_blank_of_trim s
  rw [hsplit, fill_append_of_blank hfront hback] at h
  exact List.append_cancel_right (List.append_cancel_left h)

/-! ## Quoting -/

/-- Nothing that comes in for a token of the text needs escaping. -/
def FillsPlainly (value : String → Option String) (s : List Char) : Prop :=
  ∀ token ∈ tokenNames isPlaceholderChar s, ∀ text, value token = some text →
    '"' ∉ text.toList ∧ '\\' ∉ text.toList

theorem escape_append (s t : List Char) :
    Quoted.escape (s ++ t) = Quoted.escape s ++ Quoted.escape t := by
  induction s with
  | nil => rfl
  | cons c s ih =>
      rw [List.cons_append, Quoted.escape, Quoted.escape, ih]
      split
      · rfl
      · rfl

theorem escape_eq_self {s : List Char} (hquote : '"' ∉ s) (hslash : '\\' ∉ s) :
    Quoted.escape s = s := by
  induction s with
  | nil => rfl
  | cons c s ih =>
      rw [List.mem_cons, not_or] at hquote hslash
      have hplain : ¬(c = '"' ∨ c = '\\') := by
        rintro (rfl | rfl)
        · exact hquote.1 rfl
        · exact hslash.1 rfl
      rw [Quoted.escape, if_neg hplain, ih hquote.2 hslash.2]

/-- A text that comes in, or a token that stays, is not changed by escaping. -/
theorem escape_shown {name : List Char} (hname : ∀ c ∈ name, isPlaceholderChar c = true)
    (hplain : ∀ text, value (String.ofList name) = some text →
      '"' ∉ text.toList ∧ '\\' ∉ text.toList) :
    Quoted.escape (shown value name) = shown value name := by
  unfold shown
  split
  · rename_i text htext
    obtain ⟨hquote, hslash⟩ := hplain text htext
    exact escape_eq_self hquote hslash
  · have hnot : ∀ c, isPlaceholderChar c = false → c ≠ '{' → c ≠ '}' →
        c ∉ '{' :: name ++ ['}'] := by
      intro c hc hopen hclose hmem
      rw [List.mem_append, List.mem_cons, List.mem_singleton] at hmem
      rcases hmem with (rfl | hmem) | rfl
      · exact hopen rfl
      · rw [hname c hmem] at hc
        exact absurd hc (by decide)
      · exact hclose rfl
    exact escape_eq_self (hnot _ (by decide) (by decide) (by decide))
      (hnot _ (by decide) (by decide) (by decide))

/-- Filling an escaped value is the same as escaping the filled one. -/
theorem fill_escape {s : List Char} (h : FillsPlainly value s) :
    fill isPlaceholderChar value (Quoted.escape s) =
      Quoted.escape (fill isPlaceholderChar value s) := by
  induction s using fill_induction isPlaceholderChar with
  | nil => rw [Quoted.escape, fill_nil, Quoted.escape]
  | char c s hc ih =>
      have hrest : FillsPlainly value s := by
        unfold FillsPlainly at h
        rw [tokenNames, if_neg hc] at h
        exact h
      rw [fill_cons hc, Quoted.escape, Quoted.escape, ← ih hrest]
      split
      · rw [fill_cons (by decide), fill_cons hc]
      · rw [fill_cons hc]
  | brace s hnone ih =>
      have hrest : FillsPlainly value s := by
        unfold FillsPlainly at h
        rw [tokenNames, if_pos rfl, hnone] at h
        exact h
      have hescaped : token? isPlaceholderChar (Quoted.escape s) = none := by
        rw [token?_escape, hnone]
        rfl
      have hbrace : ∀ t, Quoted.escape ('{' :: t) = '{' :: Quoted.escape t := fun t => rfl
      rw [hbrace, fill_brace hescaped, fill_brace hnone, hbrace, ih hrest]
  | token s name rest hsome ih =>
      obtain ⟨rfl, hne, hname⟩ := token?_eq_some_iff.mp hsome
      have hbrace : '{' ∉ name := by
        intro hmem
        exact absurd (hname _ hmem) (by decide)
      have hnames : tokenNames isPlaceholderChar ('{' :: (name ++ '}' :: rest)) =
          String.ofList name :: tokenNames isPlaceholderChar rest := by
        rw [tokenNames, if_pos rfl, hsome]
        show String.ofList name :: tokenNames isPlaceholderChar (name ++ '}' :: rest) = _
        rw [tokenNames_append_of_no_brace hbrace, tokenNames, if_neg (by decide)]
      unfold FillsPlainly at h
      rw [hnames] at h
      have hrest : FillsPlainly value rest := fun token htoken =>
        h token (List.mem_cons_of_mem _ htoken)
      have hescaped : token? isPlaceholderChar (Quoted.escape (name ++ '}' :: rest)) =
          some (name, Quoted.escape rest) := by
        rw [token?_escape, hsome]
        rfl
      have hopen : ∀ t, Quoted.escape ('{' :: t) = '{' :: Quoted.escape t := fun t => rfl
      rw [hopen, fill_token hescaped, fill_token hsome, escape_append, ih hrest,
        escape_shown hname (h _ List.mem_cons_self)]

/-! ## Written texts -/

/-- A quoted value is filled between its quotes. -/
theorem fill_quoted {s t : List Char} (h : FillsPlainly value s) :
    fill isPlaceholderChar value ('"' :: (Quoted.escape s ++ '"' :: t)) =
      '"' :: (Quoted.escape (fill isPlaceholderChar value s) ++
        '"' :: fill isPlaceholderChar value t) := by
  rw [fill_cons (by decide), fill_append_cons (by decide), fill_escape h]

theorem fill_writeDashed_append {values : List (List Char)} {rest : List Char}
    (hvalues : ∀ s ∈ values, FillsPlainly value s) :
    fill isPlaceholderChar value (Block.writeDashed values ++ rest) =
      Block.writeDashed (values.map (fill isPlaceholderChar value)) ++
        fill isPlaceholderChar value rest := by
  induction values with
  | nil => rfl
  | cons s values ih =>
      have htail := ih fun other hother => hvalues other (List.mem_cons_of_mem _ hother)
      rw [List.map_cons, Block.writeDashed_cons, Block.writeDashed_cons]
      simp only [List.cons_append, List.append_assoc]
      rw [fill_cons (by decide), fill_cons (by decide), fill_quoted (hvalues s List.mem_cons_self),
        fill_cons (by decide), htail]

/-- A block of quoted values is filled value by value. -/
theorem fill_writeInline {name : List Char} {values : List (List Char)} (hname : Block.IsName name)
    (hvalues : ∀ s ∈ values, FillsPlainly value s) :
    fill isPlaceholderChar value (Block.writeInline name values) =
      Block.writeInline name (values.map (fill isPlaceholderChar value)) := by
  have hbrace : '{' ∉ name := fun hmem => absurd (hname.1 _ hmem) (by decide)
  -- The block's own brace begins no token: a space stands behind it.
  have hopen : ∀ t, fill isPlaceholderChar value ('{' :: ' ' :: t) =
      '{' :: ' ' :: fill isPlaceholderChar value t := by
    intro t
    rw [fill_brace (token?_eq_none_of_head (by decide)), fill_cons (by decide)]
  rw [Block.writeInline, Block.writeInline, fill_append_of_no_brace hbrace, List.singleton_append,
    fill_cons (by decide), List.cons_append, hopen, fill_writeDashed_append hvalues,
    fill_cons (by decide), fill_nil]
  rfl

theorem fill_writeItems_append {values : List (List Char)} {rest : List Char}
    (hvalues : ∀ s ∈ values, FillsPlainly value s) :
    fill isPlaceholderChar value (BracketList.writeItems values ++ rest) =
      BracketList.writeItems (values.map (fill isPlaceholderChar value)) ++
        fill isPlaceholderChar value rest := by
  induction values with
  | nil => rfl
  | cons s values ih =>
      have htail := ih fun other hother => hvalues other (List.mem_cons_of_mem _ hother)
      have hafter : fill isPlaceholderChar value (BracketList.afterItem values ++ rest) =
          BracketList.afterItem (values.map (fill isPlaceholderChar value)) ++
            fill isPlaceholderChar value rest := by
        cases values with
        | nil => exact fill_cons (by decide)
        | cons second values =>
            show fill isPlaceholderChar value (',' :: ' ' ::
              (BracketList.writeItems (second :: values) ++ rest)) = _
            rw [fill_cons (by decide), fill_cons (by decide), htail]
            rfl
      rw [List.map_cons, BracketList.writeItems_cons, BracketList.writeItems_cons]
      simp only [List.cons_append, List.append_assoc]
      rw [fill_quoted (hvalues s List.mem_cons_self), hafter]

/-- A bracket list of quoted values is filled value by value. -/
theorem fill_write {values : List (List Char)} (hvalues : ∀ s ∈ values, FillsPlainly value s) :
    fill isPlaceholderChar value (BracketList.write values) =
      BracketList.write (values.map (fill isPlaceholderChar value)) := by
  rw [BracketList.write, BracketList.write, fill_cons (by decide), List.cons_append,
    fill_cons (by decide), fill_writeItems_append hvalues, fill_cons (by decide), fill_nil]
  rfl

end MenuActions.Template

namespace MenuActions.Placeholder

open Text Grammar

/-- Filling the tokens of a written text and then reading its values gives the values with their
tokens filled, for a block as for a bracket list. -/
theorem readTexts_resolve (provider : String → Option String) (actor : Actor) (ctx : Context)
    (name : List Char) (values : List String) (hname : Block.IsName name)
    (hplain : ∀ value ∈ values,
      ∀ token ∈ Template.tokenNames Template.isPlaceholderChar value.toList,
        ∀ text, lookup provider actor ctx token = some text →
          '"' ∉ text.toList ∧ '\\' ∉ text.toList) :
    Handler.readTexts (String.ofList name) (resolve provider actor ctx
        (String.ofList (Block.writeInline name (values.map String.toList)))) =
      .ok (values.map (resolve provider actor ctx)) ∧
    Handler.readTexts (String.ofList name) (resolve provider actor ctx
        (String.ofList (BracketList.write (values.map String.toList)))) =
      .ok (values.map (resolve provider actor ctx)) := by
  have hvalues : ∀ s ∈ values.map String.toList,
      Template.FillsPlainly (lookup provider actor ctx) s := by
    intro s hs
    obtain ⟨value, hvalue, rfl⟩ := List.mem_map.mp hs
    exact hplain value hvalue
  have hfilled : ((values.map String.toList).map
      (Template.fill Template.isPlaceholderChar (lookup provider actor ctx))).map String.ofList =
        values.map (resolve provider actor ctx) := by
    rw [List.map_map, List.map_map]
    rfl
  constructor
  · rw [resolve, String.toList_ofList, Template.fill_writeInline hname hvalues, Handler.readTexts,
      String.toList_ofList, String.toList_ofList, Block.readValues_writeInline _ hname]
    exact congrArg Except.ok hfilled
  · rw [resolve, String.toList_ofList, Template.fill_write hvalues, Handler.readTexts,
      String.toList_ofList, String.toList_ofList, BracketList.readValues_write]
    exact congrArg Except.ok hfilled

/-- Quotes and backslashes around a name, a token that nobody knows, and a form result with the
characters that end a value, a list or a block. -/
theorem readTexts_resolve_note :
    let actor : Actor := ⟨"1", "Ann", none⟩
    let ctx : Context :=
      { Context.empty with formResults := [("note", .str "a, b ] \x7d - \x7bplayer\x7d\n")] }
    let filled := resolve (fun _ => none) actor ctx
    let values := ["\"\x7bplayer\x7d\" \\ \x7bnobody\x7d", "\x7b \x7bnote\x7d"]
    let texts := ["\"Ann\" \\ \x7bnobody\x7d", "\x7b a, b ] \x7d - \x7bplayer\x7d\n"]
    Handler.readTexts "message" (filled (String.ofList
        (Block.writeInline "message".toList (values.map String.toList)))) = .ok texts ∧
      Handler.readTexts "message" (filled (String.ofList
        (BracketList.write (values.map String.toList)))) = .ok texts := by
  intro actor ctx filled values texts
  have hplain : ∀ value ∈ values,
      ∀ token ∈ Template.tokenNames Template.isPlaceholderChar value.toList,
        ∀ text ∈ lookup (fun _ => none) actor ctx token,
          '"' ∉ text.toList ∧ '\\' ∉ text.toList := by
    decide +kernel
  have hfilled : values.map filled = texts := by
    decide +kernel
  have hread := readTexts_resolve (fun _ => none) actor ctx "message".toList values (by decide)
    hplain
  rw [hfilled] at hread
  exact hread

end MenuActions.Placeholder
