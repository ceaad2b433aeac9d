import MenuActions.Grammar.Condition
import MenuActions.Proofs.Text.LowerCase
import MenuActions.Proofs.Text.Trimming
import Mathlib.Data.Bool.AllAny
import Mathlib.Tactic.Common

/-!
# Terms read back

A term of a condition as it is written: a placeholder's name, an operator and a quoted value, or a
permission node.  `Term.read_spaced` reads it back, with blanks around it.

A condition is cut into pieces before any of its terms is read, so a term can also reach its reader cut
short or with more behind it.  Both are refused: `Term.read_cut` for a value without its closing quote,
`Term.read_past` for a value with something behind that quote.
-/

namespace MenuActions.Grammar

open Text

namespace Term

/-- What may stand in a written placeholder name: no blank, and none of the characters that the grammar
of conditions gives a meaning to. -/
def isNameChar (c : Char) : Bool :=
  !(isBlank c || ['"', '{', '}', '&', '|', '<', '>', '=', '!'].contains c)

/-- What may stand in a written permission node. -/
def isNodeChar (c : Char) : Bool :=
  !(isBlank c || ['"', '&', '|'].contains c)

/-- The word in front of a placeholder. -/
def placeholderKeyword : List Char :=
  "placeholder:".toList

/-- The word in front of a permission node. -/
def permissionKeyword : List Char :=
  "permission:".toList

/-- A comparison up to the opening quote of its value. -/
def writeLeft (name : String) (op : Comparison) : List Char :=
  placeholderKeyword ++ (name.toList ++ ' ' :: (op.symbol.toList ++ [' ']))

/-- The text of a term, the value of a comparison quoted. -/
def write : Term → List Char
  | placeholder name op value => writeLeft name op ++ Quoted.encode value.toList
  | permission node => permissionKeyword ++ node.toList

/-- The value of a comparison; a permission has none. -/
def quotedText : Term → List Char
  | placeholder _ _ value => value.toList
  | permission _ => []

/-- The name or the node of a term can be written as it is. The value can be any text. -/
def WellFormed : Term → Prop
  | placeholder name _ _ => name.toList ≠ [] ∧ ∀ c ∈ name.toList, isNameChar c = true
  | permission node => node.toList ≠ [] ∧ ∀ c ∈ node.toList, isNodeChar c = true

/-! ## Characters of names and nodes -/

theorem isBlank_of_isNameChar {c : Char} (h : isNameChar c = true) : isBlank c = false := by
  simp only [isNameChar, Bool.not_eq_true', Bool.or_eq_false_iff] at h
  exact h.1

theorem ne_of_isNameChar {c d : Char} (h : isNameChar c = true) (hd : isNameChar d = false) : c ≠ d := by
  rintro rfl
  rw [h] at hd
  exact Bool.noConfusion hd

theorem isBlank_of_isNodeChar {c : Char} (h : isNodeChar c = true) : isBlank c = false := by
  simp only [isNodeChar, Bool.not_eq_true', Bool.or_eq_false_iff] at h
  exact h.1

end Term

/-! ## The operator -/

/-- Only a letter comes out of lower case changed. -/
theorem eq_of_toLower_eq {c d : Char} (hd : ¬('a' ≤ d ∧ d ≤ 'z')) (h : c.toLower = d) : c = d := by
  obtain ⟨hfirst, hlast, hcode⟩ | ⟨-, hsame⟩ := toLower_cases c
  · have ha : 'a'.val.toNat = 97 := rfl
    have hz : 'z'.val.toNat = 122 := rfl
    have hval : d.val.toNat = d.toNat := rfl
    rw [h] at hcode
    simp only [Char.le_def, UInt32.le_iff_toNat_le] at hd
    omega
  · exact hsame.symm.trans h

/-- No operator begins with any other character than these. -/
theorem Comparison.read?_eq_none {c : Char} (rest : List Char) (h : c ∉ ['>', '<', '=', '!']) :
    read? (c :: rest) = none := by
  have hnone : ∀ (d : Char) (symbol : List Char), d ∈ ['>', '<', '=', '!'] → d.toLower = d →
      ¬('a' ≤ d ∧ d ≤ 'z') → afterKeyword (d :: symbol) (c :: rest) = none := by
    intro d symbol hd hlower hletter
    rw [afterKeyword, if_neg]
    rw [hlower]
    intro heq
    exact h (eq_of_toLower_eq hletter heq.symm ▸ hd)
  have hgreater := hnone '>' [] (by decide) rfl (by decide)
  have hless := hnone '<' [] (by decide) rfl (by decide)
  have hatLeast := hnone '>' ['='] (by decide) rfl (by decide)
  have hatMost := hnone '<' ['='] (by decide) rfl (by decide)
  have hequal := hnone '=' ['='] (by decide) rfl (by decide)
  have hnotEqual := hnone '!' ['='] (by decide) rfl (by decide)
  simp [read?, all, symbol, hgreater, hless, hatLeast, hatMost, hequal, hnotEqual]

/-- The operator is looked for behind the name. -/
theorem splitOperator_append {front : List Char} (rest : List Char)
    (h : ∀ c ∈ front, c ∉ ['"', '>', '<', '=', '!']) :
    splitOperator false (front ++ rest) =
      (splitOperator false rest).map fun (before, op, after) => (front ++ before, op, after) := by
  induction front with
  | nil => simp
  | cons c front ih =>
      have hc := h c List.mem_cons_self
      have hquote : c ≠ '"' := fun heq => hc (heq ▸ List.mem_cons_self)
      have hread := Comparison.read?_eq_none (front ++ rest) fun hmem => hc (List.mem_cons_of_mem _ hmem)
      rw [List.cons_append, splitOperator, if_neg hquote, if_neg Bool.false_ne_true, hread]
      simp only [ih fun d hd => h d (List.mem_cons_of_mem c hd), Option.map_map]
      rfl

theorem splitOperator_symbol (op : Comparison) (rest : List Char) :
    splitOperator false (op.symbol.toList ++ ' ' :: rest) = some ([], op, ' ' :: rest) := by
  cases op <;> rfl

/-! ## The name -/

/-- A blank behind a name does not belong to it. -/
theorem bareName_concat (s : List Char) : bareName (s ++ [' ']) = bareName s := by
  have htrim : trim ([] ++ (s ++ [' '])) = trim s :=
    trim_append_of_blank (by simp) (isBlank_of_mem_singleton (by decide))
  rw [List.nil_append] at htrim
  rw [bareName, htrim, bareName]

/-- A name without blanks and braces is left as it is. -/
theorem bareName_eq_self {name : List Char} (h : ∀ c ∈ name, Term.isNameChar c = true) :
    bareName name = name := by
  have hends : trim name = name :=
    trim_eq_self_of_ends (fun c hc => Term.isBlank_of_isNameChar (h c (List.mem_of_head? hc)))
      fun c hc => Term.isBlank_of_isNameChar (h c (List.mem_of_getLast? hc))
  have hopen : name.dropWhile (· == '{') = name := by
    cases name with
    | nil => rfl
    | cons c name =>
        have hc : c ≠ '{' := Term.ne_of_isNameChar (h c List.mem_cons_self) (by decide)
        simp [hc]
  have hclose : name.reverse.dropWhile (· == '}') = name.reverse := by
    cases hreverse : name.reverse with
    | nil => rfl
    | cons c front =>
        have hmem : c ∈ name := List.mem_reverse.mp (hreverse ▸ List.mem_cons_self)
        have hc : c ≠ '}' := Term.ne_of_isNameChar (h c hmem) (by decide)
        simp [hc]
  rw [bareName, hends, hopen, hclose, List.reverse_reverse, hends]

/-! ## The value -/

/-- A quoted value that is cut short has no closing quote. -/
theorem decode_eq_none_of_prefix {value s : List Char} (h : s <+: Quoted.escape value) :
    Quoted.decode s = none := by
  induction value generalizing s with
  | nil => rw [List.prefix_nil.mp h, Quoted.decode]
  | cons c value ih =>
      rw [Quoted.escape] at h
      cases s with
      | nil => rfl
      | cons d s =>
          split at h
          case isTrue hmarked =>
            obtain ⟨rfl, hs⟩ := List.cons_prefix_cons.mp h
            cases s with
            | nil => rfl
            | cons e s =>
                obtain ⟨rfl, hrest⟩ := List.cons_prefix_cons.mp hs
                rcases hmarked with rfl | rfl <;> simp [Quoted.decode, ih hrest]
          case isFalse hplain =>
            obtain ⟨rfl, hs⟩ := List.cons_prefix_cons.mp h
            rw [not_or] at hplain
            simp [Quoted.decode, hplain, ih hs]

/-- Reading a value begins with trimming it. -/
theorem unquote_congr {s t : List Char} (h : trim s = trim t) : unquote s = unquote t := by
  simp only [unquote, h]

theorem trim_quote (s : List Char) : trim ('"' :: s) = '"' :: trimEnd s := by
  rw [trim, trimStart_cons (by decide)]
  exact trimEnd_append_cons (s := []) (by decide)

/-- A whole quoted value with blanks behind it. -/
theorem unquote_escape (value : List Char) {back : List Char} (hback : ∀ c ∈ back, isBlank c = true) :
    unquote ('"' :: (Quoted.escape value ++ '"' :: back)) = .ok value := by
  have hend : trimEnd back = [] := trimEnd_append_of_blank (s := []) hback
  have htrim : trim ('"' :: (Quoted.escape value ++ '"' :: back)) =
      '"' :: (Quoted.escape value ++ ['"']) := by
    rw [trim_quote, trimEnd_append_cons (by decide), hend]
  simp [unquote, htrim, Quoted.decode_escape]

/-- A value without its closing quote is refused. -/
theorem unquote_cut {value s : List Char} (h : s <+: Quoted.escape value) :
    unquote ('"' :: s) = .error (.unterminatedQuote 0) := by
  obtain ⟨blanks, hsplit, -⟩ := exists_blank_of_trimEnd s
  have hcut : trimEnd s <+: Quoted.escape value := List.IsPrefix.trans ⟨blanks, hsplit.symm⟩ h
  simp [unquote, trim_quote, decode_eq_none_of_prefix hcut]

/-- A quoted value with more than blanks behind it is refused. -/
theorem unquote_past (value rest : List Char) {back : List Char} {c : Char}
    (hback : ∀ c ∈ back, isBlank c = true) (hc : isBlank c = false) :
    ∃ error, unquote ('"' :: (Quoted.escape value ++ '"' :: (back ++ c :: rest))) = .error error := by
  have htrim : trim ('"' :: (Quoted.escape value ++ '"' :: (back ++ c :: rest))) =
      '"' :: (Quoted.escape value ++ '"' :: (back ++ c :: trimEnd rest)) := by
    rw [trim_quote, trimEnd_append_cons (by decide), trimEnd_append_cons hc]
  simp only [unquote, htrim, Quoted.decode_escape, trimStart_append_cons hback hc]
  exact ⟨_, rfl⟩

/-! ## Whole terms -/

/-- A keyword is recognised as it is written. -/
theorem afterKeyword_append (keyword rest : List Char) :
    afterKeyword keyword (keyword ++ rest) = some rest := by
  induction keyword with
  | nil => cases rest <;> rfl
  | cons k keyword ih => rw [List.cons_append, afterKeyword, if_pos rfl, ih]

namespace Term

variable {name : String} {op : Comparison} {front : List Char}

/-- The name and the operator of a written comparison, and what is left behind them. -/
theorem splitOperator_left (rest : List Char) (hname : ∀ c ∈ name.toList, isNameChar c = true) :
    splitOperator false (name.toList ++ ' ' :: (op.symbol.toList ++ ' ' :: rest)) =
      some (name.toList ++ [' '], op, ' ' :: rest) := by
  have hplain : ∀ c ∈ name.toList ++ [' '], c ∉ ['"', '>', '<', '=', '!'] := by
    intro c hc hmem
    rcases List.mem_append.mp hc with hc | hc
    · have hne := fun d hd => ne_of_isNameChar (hname c hc) (d := d) hd
      simp only [List.mem_cons, List.not_mem_nil, or_false] at hmem
      rcases hmem with h | h | h | h | h <;> exact hne _ (by decide) h
    · rw [List.mem_singleton.mp hc] at hmem
      exact absurd hmem (by decide)
  have happend := splitOperator_append (op.symbol.toList ++ ' ' :: rest) hplain
  rw [List.append_assoc, List.singleton_append] at happend
  rw [happend, splitOperator_symbol]
  simp

theorem writeLeft_append (name : String) (op : Comparison) (rest : List Char) :
    writeLeft name op ++ rest =
      placeholderKeyword ++ (name.toList ++ ' ' :: (op.symbol.toList ++ ' ' :: rest)) := by
  rw [writeLeft]
  simp only [List.append_assoc, List.cons_append, List.nil_append]

/-- The left part of a comparison is never cut by trimming, nor is the quote behind it. -/
theorem trim_writeLeft (name : String) (op : Comparison) (rest : List Char) :
    trim (writeLeft name op ++ '"' :: rest) = writeLeft name op ++ '"' :: trimEnd rest := by
  have hhead : (writeLeft name op ++ '"' :: rest).head? = some 'p' := rfl
  have hstart : trimStart (writeLeft name op ++ '"' :: rest) = writeLeft name op ++ '"' :: rest := by
    refine trimStart_eq_self_of_head fun c hc => ?_
    rw [← Option.some.inj (hhead.symm.trans hc)]
    decide
  have hquote : isBlank '"' = false := by decide
  rw [trim, hstart, trimEnd_append_cons hquote]

/-- A comparison is read from the parts around its operator. -/
theorem read_comparison {source rest before after : List Char}
    (htrim : trim source = placeholderKeyword ++ rest)
    (hsplit : splitOperator false rest = some (before, op, after)) (hname : bareName before ≠ []) :
    read source =
      match unquote after with
      | .error error => .error (.badValue error)
      | .ok value => .ok (.placeholder (String.ofList (bareName before)) op (String.ofList value)) := by
  have hkeyword : afterKeyword "placeholder:".toList (placeholderKeyword ++ rest) = some rest :=
    afterKeyword_append placeholderKeyword rest
  have hempty : (placeholderKeyword ++ rest).isEmpty = false := rfl
  have hsome : (bareName before).isEmpty = false := List.isEmpty_eq_false_iff.mpr hname
  cases hvalue : unquote after <;>
    simp only [read, htrim, hempty, hkeyword, hsplit, hsome, hvalue, Bool.false_eq_true, if_false]

/-- A comparison with a quoted text behind its operator, whole or not. -/
theorem read_writeLeft (rest : List Char) (hne : name.toList ≠ [])
    (hname : ∀ c ∈ name.toList, isNameChar c = true) (hfront : ∀ c ∈ front, isBlank c = true) :
    read (front ++ (writeLeft name op ++ '"' :: rest)) =
      match unquote ('"' :: rest) with
      | .error error => .error (.badValue error)
      | .ok value => .ok (.placeholder name op (String.ofList value)) := by
  have htrim : trim (front ++ (writeLeft name op ++ '"' :: rest)) =
      placeholderKeyword ++ (name.toList ++ ' ' :: (op.symbol.toList ++ ' ' :: '"' :: trimEnd rest)) := by
    have hblank := trim_append_of_blank (s := writeLeft name op ++ '"' :: rest) hfront
      fun c (hc : c ∈ []) => absurd hc List.not_mem_nil
    rw [List.append_nil, trim_writeLeft] at hblank
    rw [hblank, writeLeft_append]
  have hbare : bareName (name.toList ++ [' ']) = name.toList := by
    rw [bareName_concat, bareName_eq_self hname]
  have hvalue : unquote (' ' :: '"' :: trimEnd rest) = unquote ('"' :: rest) := by
    refine unquote_congr ?_
    rw [trim, trimStart_cons_of_blank (by decide), ← trim, trim_quote, trim_quote,
      trimEnd_eq_self_of_last fun _ => getLast?_trimEnd]
  rw [read_comparison htrim (splitOperator_left _ hname) (hbare.symm ▸ hne), hvalue, hbare,
    String.ofList_toList]

/-- A permission node. -/
theorem read_permission {node : String} {back : List Char} (hne : node.toList ≠ [])
    (hnode : ∀ c ∈ node.toList, isNodeChar c = true) (hfront : ∀ c ∈ front, isBlank c = true)
    (hback : ∀ c ∈ back, isBlank c = true) :
    read (front ++ ((permission node).write ++ back)) = .ok (.permission node) := by
  have hlast : ∀ c, node.toList.getLast? = some c → isBlank c = false :=
    fun c hc => isBlank_of_isNodeChar (hnode c (List.mem_of_getLast? hc))
  have htrim : trim (front ++ ((permission node).write ++ back)) = (permission node).write := by
    rw [trim_append_of_blank hfront hback]
    have hhead : (permission node).write.head? = some 'p' := rfl
    refine trim_eq_self_of_ends (fun c hc => ?_) (fun c hc => hlast c ?_)
    · rw [← Option.some.inj (hhead.symm.trans hc)]
      decide
    · rwa [write, List.getLast?_append_of_ne_nil _ hne] at hc
  have hother : afterKeyword "placeholder:".toList (permission node).write = none := rfl
  have hkeyword : afterKeyword "permission:".toList (permission node).write = some node.toList :=
    afterKeyword_append permissionKeyword _
  have hempty : (permission node).write.isEmpty = false := rfl
  have hbare : trim node.toList = node.toList :=
    trim_eq_self_of_ends (fun c hc => isBlank_of_isNodeChar (hnode c (List.mem_of_head? hc))) hlast
  have hsome : node.toList.isEmpty = false := List.isEmpty_eq_false_iff.mpr hne
  have hplain : node.toList.any isBlank = false :=
    List.any_eq_false.mpr fun c hc => by simp [isBlank_of_isNodeChar (hnode c hc)]
  simp only [read, htrim, hempty, hother, hkeyword, hbare, hsome, hplain, Bool.or_self,
    Bool.false_eq_true, if_false, String.ofList_toList]

theorem write_append (name : String) (op : Comparison) (value : String) (rest : List Char) :
    (placeholder name op value).write ++ rest =
      writeLeft name op ++ '"' :: (Quoted.escape value.toList ++ '"' :: rest) := by
  simp [write, Quoted.encode]

/-- A term is read back, whatever its value. -/
theorem read_spaced {term : Term} {back : List Char} (hterm : term.WellFormed)
    (hfront : ∀ c ∈ front, isBlank c = true) (hback : ∀ c ∈ back, isBlank c = true) :
    read (front ++ (term.write ++ back)) = .ok term := by
  cases term with
  | placeholder name op value =>
      rw [write_append, read_writeLeft _ hterm.1 hterm.2 hfront, unquote_escape value.toList hback]
      simp only [String.ofList_toList]
  | permission node => exact read_permission hterm.1 hterm.2 hfront hback

/-- A comparison that is cut inside its value is refused. -/
theorem read_cut {value : String} {s : List Char} (hterm : (placeholder name op value).WellFormed)
    (hfront : ∀ c ∈ front, isBlank c = true) (h : s <+: Quoted.escape value.toList) :
    read (front ++ (writeLeft name op ++ '"' :: s)) = .error (.badValue (.unterminatedQuote 0)) := by
  rw [read_writeLeft s hterm.1 hterm.2 hfront, unquote_cut h]

/-- A comparison with more than blanks behind its value is refused. -/
theorem read_past {value : String} {back : List Char} {c : Char} (rest : List Char)
    (hterm : (placeholder name op value).WellFormed) (hfront : ∀ c ∈ front, isBlank c = true)
    (hback : ∀ c ∈ back, isBlank c = true) (hc : isBlank c = false) :
    ∃ error, read (front ++ ((placeholder name op value).write ++ (back ++ c :: rest))) =
      .error error := by
  obtain ⟨error, hunquote⟩ := unquote_past value.toList rest hback hc
  rw [write_append, read_writeLeft _ hterm.1 hterm.2 hfront, hunquote]
  exact ⟨_, rfl⟩

end Term

end MenuActions.Grammar
