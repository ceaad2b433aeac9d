import MenuActions.Proofs.Grammar.BranchKeywords
import MenuActions.Proofs.Grammar.ConditionCuts
import MenuActions.Proofs.Grammar.ListCuts
import MenuActions.Proofs.Grammar.QuoteScans

/-!
# Conditional actions by cuts

The reader of conditional actions on byte offsets.  Both keywords are looked for in the bytes of the whole
text (`keywordAt`), and the branches are cut at what is found: one from behind its keyword to the other
keyword, the other to the end, and in front of the first one what must be blank.

`every_cut_succeeds` puts the readers of all the grammars together.
-/

namespace MenuActions.Grammar.Cursor

open Text

/-- The raw actions of a branch. -/
def branch (text : List Char) : Cutting ParseError (List String) := do
  let text := trim text
  if text.isEmpty then return []
  else if (← typeName text).isSome then return [String.ofList text]
  else if text.head? = some '[' then return (← listValues text).map String.ofList
  else if text.head? = some '{' then return (← dataValues [] text).map String.ofList
  else return [String.ofList text]

/-- Where a keyword stands in the bytes of a text, not in front of `start`. -/
def keywordAt (text keyword : List Char) (start : Nat) : Option Nat :=
  TopLevel.findInBytes (utf8 text) (utf8 keyword) start .first

/-- The smaller of two offsets. -/
def least : Option Nat → Option Nat → Option Nat
  | some i, some j => some (min i j)
  | some i, none => some i
  | none, j => j

/-- The branches of a conditional action whose keywords stand at two offsets. -/
def branches (text : List Char) (trueAt falseAt : Option Nat) :
    Cutting ParseError (List String × List String) := do
  match trueAt, falseAt with
  | none, none => throw (.missingKeyword "true:")
  | some t, none => return (← branch (← cutFrom (t + 5) text), [])
  | none, some f => return ([], ← branch (← cutFrom (f + 6) text))
  | some t, some f =>
      if t < f then
        let whenTrue ← branch (← cut (t + 5) f text)
        let whenFalse ← branch (← cutFrom (f + 6) text)
        return (whenTrue, whenFalse)
      else
        let whenTrue ← branch (← cutFrom (t + 5) text)
        let whenFalse ← branch (← cut (f + 6) t text)
        return (whenTrue, whenFalse)

/-- What follows a condition, from an offset on. -/
def tail (text source : List Char) (start : Nat) : Cutting ParseError Conditional := do
  let expression ← expression source
  let trueAt := keywordAt text Conditional.trueKeyword start
  let falseAt := keywordAt text Conditional.falseKeyword start
  let (whenTrue, whenFalse) ← branches text trueAt falseAt
  let between ← cut start ((least trueAt falseAt).getD (byteLength text)) text
  match trim between with
  | found :: _ => throw (.unexpected found start .branchKeyword)
  | [] => return ⟨String.ofList source, expression, whenTrue, whenFalse⟩

/-- A conditional action that begins with its keyword. -/
def conditional (data : List Char) : Cutting ParseError Conditional := do
  let text := trim data
  match ← afterPrefix Conditional.checkKeyword text with
  | none => throw (.missingKeyword "check:")
  | some after =>
      let offset := byteLength text - byteLength after
      let pos ← skipWhile after isBlank 0
      if (← peek after pos) = some '"' then
        let (source, stop) ← readQuoted after offset pos
        tail text source (offset + stop)
      else
        let start := offset + pos
        let stop := (least (keywordAt text Conditional.trueKeyword start)
          (keywordAt text Conditional.falseKeyword start)).getD (byteLength text)
        tail text (trim (← cut start stop text)) stop

/-! ## What they give -/

theorem branch_eq (text : List Char) : branch text = .of (Conditional.readBranch text) := by
  unfold branch Conditional.readBranch
  simp only [typeName_eq, Cutting.lift_bind, listValues_eq, dataValues_eq]
  cases trim text with
  | nil => rfl
  | cons c rest =>
      cases (Block.typeName? (c :: rest)).isSome with
      | true => rfl
      | false =>
          by_cases hlist : c = '['
          · subst hlist
            change (Cutting.of (BracketList.values ('[' :: rest)) >>= _) = _
            cases BracketList.values ('[' :: rest) <;> rfl
          · by_cases hblock : c = '{'
            · subst hblock
              change (Cutting.of (readValues [] ('{' :: rest)) >>= _) = _
              cases readValues [] ('{' :: rest) <;> rfl
            · simp [hlist, hblock, Except.map]
              rfl

section Tail

open Conditional TopLevel

variable {text front rest : List Char} {previous : Char}

/-- Behind the front of a text, keywords are looked for as if it were a single character. -/
def SearchesFrom (front rest : List Char) (previous : Char) : Prop :=
  ∀ keywords, findKeyword keywords (stateBehind front) rest = findKeyword keywords (.start previous) rest

theorem keywordAt_eq {keyword : List Char} (hkeyword : keyword ∈ [trueKeyword, falseKeyword])
    (htext : text = front ++ rest) :
    keywordAt text keyword (byteLength front) =
      (findKeyword [keyword] (stateBehind front) rest).map fun found =>
        byteLength front + byteLength found.1 := by
  have hword : ∀ keyword ∈ [trueKeyword, falseKeyword], IsWord keyword := by decide
  exact findInBytes_eq (hword keyword hkeyword) htext

section Branches

variable {mine later : List Char} {t f : Nat}

theorem branches_true (h : cutFrom (t + 5) text = some mine) :
    branches text (some t) none = .of (do return (← readBranch mine, [])) := by
  simp only [branches, h, Cutting.lift_bind, branch_eq]
  exact Cutting.of_bind fun _ => rfl

theorem branches_false (h : cutFrom (f + 6) text = some mine) :
    branches text none (some f) = .of (do return ([], ← readBranch mine)) := by
  simp only [branches, h, Cutting.lift_bind, branch_eq]
  exact Cutting.of_bind fun _ => rfl

theorem branches_trueFirst (hlt : t < f) (hmine : cut (t + 5) f text = some mine)
    (hlater : cutFrom (f + 6) text = some later) :
    branches text (some t) (some f) = .of (do
      let whenTrue ← readBranch mine
      let whenFalse ← readBranch later
      return (whenTrue, whenFalse)) := by
  simp only [branches, if_pos hlt, hmine, hlater, Cutting.lift_bind, branch_eq]
  exact Cutting.of_bind fun _ => Cutting.of_bind fun _ => rfl

theorem branches_falseFirst (hlt : f < t) (hmine : cut (f + 6) t text = some mine)
    (hlater : cutFrom (t + 5) text = some later) :
    branches text (some t) (some f) = .of (do
      let whenTrue ← readBranch later
      let whenFalse ← readBranch mine
      return (whenTrue, whenFalse)) := by
  simp only [branches, if_neg (Nat.lt_asymm hlt), hmine, hlater, Cutting.lift_bind, branch_eq]
  exact Cutting.of_bind fun _ => Cutting.of_bind fun _ => rfl

end Branches

/-- A keyword takes up as many bytes in either case of its letters. -/
theorem byteLength_written {keyword written : List Char} (h : keyword ∈ [trueKeyword, falseKeyword])
    (hsame : sameIgnoringCase written keyword = true) : byteLength written = byteLength keyword := by
  have hascii : ∀ keyword ∈ [trueKeyword, falseKeyword], IsAscii keyword := by decide
  exact byteLength_of_same (hascii keyword h) hsame

/-- A keyword that is found behind `before` ends one cut, and the other one runs from it to the end. -/
theorem cut_second {before after other mine found later : List Char} (htext : text = before ++ after)
    (hother : other ∈ [trueKeyword, falseKeyword])
    (hfound : findKeyword [other] (.start ':') after = some (mine, found, later)) :
    cut (byteLength before) (byteLength before + byteLength mine) text = some mine ∧
      cutFrom (byteLength before + byteLength mine + byteLength other) text = some later := by
  obtain ⟨second, rfl, hmem, hsame⟩ := findKeyword_eq_some hfound
  obtain rfl := List.mem_singleton.mp hmem
  have hlength := byteLength_written hother hsame
  have hlast : text = (before ++ (mine ++ second)) ++ later := by
    rw [htext]
    simp
  exact ⟨cut_of_eq htext rfl rfl, cutFrom_of_eq hlast (by simp [hlength, Nat.add_assoc])⟩

theorem branches_eq (htext : text = front ++ rest) (hfront : SearchesFrom front rest previous) :
    branches text (keywordAt text trueKeyword (byteLength front))
        (keywordAt text falseKeyword (byteLength front)) =
      .of (match findKeyword [trueKeyword, falseKeyword] (.start previous) rest with
        | none => .error (.missingKeyword "true:")
        | some (_, keyword, after) => readBranches keyword after) := by
  rw [keywordAt_eq (by simp) htext, keywordAt_eq (by simp) htext, hfront, hfront]
  cases hboth : findKeyword [trueKeyword, falseKeyword] (.start previous) rest with
  | none =>
      rw [findKeyword_eq_none_of_mem hboth (by simp), findKeyword_eq_none_of_mem hboth (by simp)]
      rfl
  | some found =>
      obtain ⟨between, keyword, after⟩ := found
      obtain ⟨hhere, written, rfl, hsame, hother⟩ := findKeyword_both hboth
      have hmem : keyword ∈ [trueKeyword, falseKeyword] := (findKeyword_eq_some hboth).choose_spec.2.1
      have hlength := byteLength_written hmem hsame
      have hbehind : text = (front ++ (between ++ written)) ++ after := by rw [htext]; simp
      have hstart : byteLength (front ++ (between ++ written)) =
          byteLength front + byteLength between + byteLength keyword := by
        simp [hlength, Nat.add_assoc]
      have hstop : ∀ mine, byteLength front + byteLength (between ++ (written ++ mine)) =
          byteLength front + byteLength between + byteLength keyword + byteLength mine := by
        simp [hlength, Nat.add_assoc]
      have hafter := cutFrom_of_eq hbehind hstart
      have hsecond : ∀ {other mine found later : List Char},
          findKeyword [other] (.start ':') after = some (mine, found, later) →
          other ∈ [trueKeyword, falseKeyword] →
          cut (byteLength front + byteLength between + byteLength keyword)
              (byteLength front + byteLength (between ++ (written ++ mine))) text = some mine ∧
            cutFrom (byteLength front + byteLength (between ++ (written ++ mine)) + byteLength other) text =
              some later := by
        intro other mine found later hfound hother
        rw [hstop, ← hstart]
        exact cut_second hbehind hother hfound
      have hlt : ∀ mine, byteLength front + byteLength between <
          byteLength front + byteLength (between ++ (written ++ mine)) := by
        intro mine
        have hlong : ∀ keyword ∈ [trueKeyword, falseKeyword], 0 < byteLength keyword := by decide
        have := hlong keyword hmem
        rw [hstop]
        omega
      -- The keyword that comes first decides which of the two cuts has an end.
      simp only [List.mem_cons, List.not_mem_nil, or_false] at hmem
      rcases hmem with rfl | rfl
      · rw [hhere, hother falseKeyword (by simp) (by decide)]
        dsimp only
        rw [readBranches, if_pos rfl]
        cases hlater : findKeyword [falseKeyword] (.start ':') after with
        | none => exact branches_true hafter
        | some found =>
            obtain ⟨mine, found, later⟩ := found
            obtain ⟨hmine, hlast⟩ := hsecond hlater (by simp)
            exact branches_trueFirst (hlt mine) hmine hlast
      · rw [hhere, hother trueKeyword (by simp) (by decide)]
        dsimp only
        rw [readBranches, if_neg (by decide)]
        cases hlater : findKeyword [trueKeyword] (.start ':') after with
        | none => exact branches_false hafter
        | some found =>
            obtain ⟨mine, found, later⟩ := found
            obtain ⟨hmine, hlast⟩ := hsecond hlater (by simp)
            exact branches_falseFirst (hlt mine) hmine hlast

theorem least_eq (htext : text = front ++ rest) (hfront : SearchesFrom front rest previous) :
    least (keywordAt text trueKeyword (byteLength front)) (keywordAt text falseKeyword (byteLength front)) =
      (findKeyword [trueKeyword, falseKeyword] (.start previous) rest).map fun found =>
        byteLength front + byteLength found.1 := by
  rw [keywordAt_eq (by simp) htext, keywordAt_eq (by simp) htext, hfront, hfront]
  cases hboth : findKeyword [trueKeyword, falseKeyword] (.start previous) rest with
  | none =>
      rw [findKeyword_eq_none_of_mem hboth (by simp), findKeyword_eq_none_of_mem hboth (by simp)]
      rfl
  | some found =>
      obtain ⟨between, keyword, after⟩ := found
      obtain ⟨hhere, written, -, -, hother⟩ := findKeyword_both hboth
      have hmem : keyword ∈ [trueKeyword, falseKeyword] := (findKeyword_eq_some hboth).choose_spec.2.1
      simp only [List.mem_cons, List.not_mem_nil, or_false] at hmem
      rcases hmem with rfl | rfl
      · rw [hhere, hother falseKeyword (by simp) (by decide)]
        cases findKeyword [falseKeyword] (.start ':') after with
        | none => rfl
        | some found => simp [least]
      · rw [hhere, hother trueKeyword (by simp) (by decide)]
        cases findKeyword [trueKeyword] (.start ':') after with
        | none => rfl
        | some found => simp [least]

theorem tail_eq (source : List Char) (htext : text = front ++ rest)
    (hfront : SearchesFrom front rest previous) :
    tail text source (byteLength front) =
      .of (readTail source previous (byteLength front) rest) := by
  unfold tail readTail
  rw [expression_eq]
  refine Cutting.of_bind fun expression => ?_
  simp only [branches_eq htext hfront, least_eq htext hfront]
  cases hboth : findKeyword [trueKeyword, falseKeyword] (.start previous) rest with
  | none => rfl
  | some found =>
      obtain ⟨between, keyword, after⟩ := found
      obtain ⟨written, rfl, -⟩ := findKeyword_eq_some hboth
      refine Cutting.of_bind fun branches => ?_
      have hbetween : cut (byteLength front) (byteLength front + byteLength between) text = some between :=
        cut_of_eq htext rfl rfl
      simp only [Option.map_some, Option.getD_some]
      rw [hbetween, Cutting.lift_bind, trim]
      cases hblank : trimStart between with
      | nil => rfl
      | cons found more =>
          have hfound : isBlank found = false := head?_trimStart (by rw [hblank]; rfl)
          rw [show trimEnd (found :: more) = found :: trimEnd more from
            trimEnd_append_cons (s := []) hfound]
          rfl

end Tail

section Read

open Conditional TopLevel

variable {text written rest : List Char}

/-- Behind the first keyword and blanks, the scan stands outside quotes. -/
theorem stateBehind_check {blanks : List Char} (hsame : sameIgnoringCase written checkKeyword = true)
    (hblanks : ∀ c ∈ blanks, isBlank c = true) :
    stateBehind (written ++ blanks) = .start (blanks.getLast?.getD ':') := by
  have hwritten := plain_of_same (by simp) hsame
  have hlast := getLast?_of_same (by simp) hsame
  rw [stateBehind, Scan.run_append, start_run ' ' fun c hc => (hwritten c hc).2, hlast, Option.getD_some,
    start_run ':' fun c hc => BranchText.not_mem_of_isBlank (hblanks c hc)]

/-- Behind a quoted value, the scan stands outside quotes. -/
theorem run_quoted {quoted value after : List Char} (previous : Char)
    (h : Quoted.decode quoted = some (value, after)) :
    ∃ inner, quoted = inner ++ '"' :: after ∧
      (Scan.start previous).run ('"' :: (inner ++ ['"'])) = .start '"' := by
  have hvalue : Scan.InValue ⟨.quoted, 0, '"'⟩ quoted := .inl rfl
  obtain ⟨inner, rfl, -, hmode, hdepth⟩ := hvalue.inside_of_some h
  refine ⟨inner, rfl, ?_⟩
  rw [Scan.run_cons, show (Scan.start previous).step '"' = ⟨.quoted, 0, '"'⟩ from rfl, Scan.run_append,
    Scan.run_cons, Scan.run_nil, Scan.step, hmode, hdepth]
  rfl

theorem conditional_quoted {quoted : List Char} (htext : text = written ++ rest)
    (hsame : sameIgnoringCase written checkKeyword = true) (hstart : trimStart rest = '"' :: quoted) :
    (do
      let (source, stop) ← readQuoted rest (byteLength written) (offsetIn (byteLength rest) ('"' :: quoted))
      tail text source (byteLength written + stop)) =
      Cutting.of (match Quoted.decode quoted with
        | none => .error (.unterminatedQuote (offsetIn (byteLength text) ('"' :: quoted)))
        | some (source, tail) => readTail source '"' (offsetIn (byteLength text) tail) tail) := by
  have hquoted := suffix_of_dropWhile hstart (List.suffix_refl rest)
  have hlength : byteLength text = byteLength written + byteLength rest := by
    rw [htext, byteLength_append]
  rw [readQuoted_eq _ hquoted, offsetIn_add _ hquoted, hlength]
  cases hdecode : Quoted.decode quoted with
  | none => rfl
  | some parts =>
      obtain ⟨source, after⟩ := parts
      obtain ⟨inner, rfl, hrun⟩ := run_quoted ((rest.takeWhile isBlank).getLast?.getD ':') hdecode
      have hrest : rest = rest.takeWhile isBlank ++ '"' :: (inner ++ '"' :: after) := by
        rw [← hstart]
        exact List.takeWhile_append_dropWhile.symm
      have hblanks : ∀ c ∈ rest.takeWhile isBlank, isBlank c = true := fun c hc =>
        List.all_eq_true.mp List.all_takeWhile c hc
      have hfront : stateBehind (written ++ rest.takeWhile isBlank ++ '"' :: (inner ++ ['"'])) =
          .start '"' := by
        rw [stateBehind, Scan.run_append, ← stateBehind, stateBehind_check hsame hblanks, hrun]
      have hcut : text = (written ++ rest.takeWhile isBlank ++ '"' :: (inner ++ ['"'])) ++ after := by
        rw [htext]
        conv_lhs => rw [hrest]
        simp
      have hafter : after <:+ rest := (suffix_of_decode hdecode).trans ((List.suffix_cons _ _).trans hquoted)
      have htail := tail_eq source hcut fun keywords => by rw [hfront]
      rw [← Conditional.offsetIn_append _ after, ← hcut, hlength] at htail
      rw [Cutting.of_ok_bind]
      dsimp only
      rw [offsetIn_add _ hafter, htail]

theorem conditional_bare (htext : text = written ++ rest)
    (hsame : sameIgnoringCase written checkKeyword = true) :
    (let start := byteLength written + offsetIn (byteLength rest) (trimStart rest)
      let stop := (least (keywordAt text trueKeyword start) (keywordAt text falseKeyword start)).getD
        (byteLength text)
      do tail text (trim (← cut start stop text)) stop) =
      Cutting.of (
        let previous := ((rest.takeWhile isBlank).getLast?).getD ':'
        let (condition, tail) := splitBare previous (trimStart rest)
        let last := (condition.getLast?).getD previous
        readTail (trim condition) last (offsetIn (byteLength text) tail) tail) := by
  have hblanks : ∀ c ∈ rest.takeWhile isBlank, isBlank c = true := fun c hc =>
    List.all_eq_true.mp List.all_takeWhile c hc
  have hstate := stateBehind_check hsame hblanks
  have hcut : text = (written ++ rest.takeWhile isBlank) ++ trimStart rest := by
    rw [htext, List.append_assoc]
    exact congrArg _ List.takeWhile_append_dropWhile.symm
  have hlength : byteLength text = byteLength written + byteLength rest := by
    rw [htext, byteLength_append]
  have hstart : byteLength written + offsetIn (byteLength rest) (trimStart rest) =
      byteLength (written ++ rest.takeWhile isBlank) := by
    have hsuffix : trimStart rest <:+ rest := List.dropWhile_suffix isBlank
    rw [offsetIn_add _ hsuffix, ← hlength]
    conv_lhs => rw [hcut]
    exact Conditional.offsetIn_append _ _
  have hleast := least_eq hcut fun keywords => by rw [hstate]
  dsimp only
  rw [hstart, hleast, splitBare]
  cases hfound : findKeyword [trueKeyword, falseKeyword]
      (.start ((rest.takeWhile isBlank).getLast?.getD ':')) (trimStart rest) with
  | none =>
      have hwhole : text = (written ++ rest.takeWhile isBlank) ++ (trimStart rest ++ []) := by
        rw [List.append_nil]
        exact hcut
      have hsource : cut (byteLength (written ++ rest.takeWhile isBlank)) (byteLength text) text =
          some (trimStart rest) :=
        cut_of_eq hwhole rfl (by rw [hcut, ← byteLength_append])
      have hend : offsetIn (byteLength text) [] = byteLength text := Nat.sub_zero _
      dsimp only [Option.map_none, Option.getD_none]
      rw [hsource, Cutting.lift_bind, hend]
      exact tail_eq _ (List.append_nil text).symm fun _ => rfl
  | some found =>
      obtain ⟨condition, keyword, after⟩ := found
      obtain ⟨second, hbare, -⟩ := findKeyword_eq_some hfound
      have hrun := run_eq_start hfound
      rw [hbare] at hcut
      have hsource : cut (byteLength (written ++ rest.takeWhile isBlank))
          (byteLength (written ++ rest.takeWhile isBlank) + byteLength condition) text = some condition :=
        cut_of_eq hcut rfl rfl
      have hbehind : text = (written ++ rest.takeWhile isBlank ++ condition) ++ (second ++ after) := by
        rw [hcut, List.append_assoc _ condition]
      have hfront : stateBehind (written ++ rest.takeWhile isBlank ++ condition) =
          .start (condition.getLast?.getD ((rest.takeWhile isBlank).getLast?.getD ':')) := by
        rw [stateBehind, Scan.run_append, ← stateBehind, hstate]
        exact hrun
      have htail := tail_eq (trim condition) hbehind fun keywords => by rw [hfront]
      rw [← Conditional.offsetIn_append _ (second ++ after), ← hbehind] at htail
      have hstop : byteLength (written ++ rest.takeWhile isBlank) + byteLength condition =
          offsetIn (byteLength text) (second ++ after) := by
        rw [← byteLength_append]
        conv_rhs => rw [hbehind]
        exact (Conditional.offsetIn_append _ _).symm
      dsimp only [Option.map_some, Option.getD_some]
      rw [hsource, Cutting.lift_bind, hbare, List.drop_left, hstop]
      exact htail

theorem conditional_eq (data : List Char) : conditional data = .of (Conditional.read data) := by
  have hcheck : IsAscii Conditional.checkKeyword := by decide
  unfold conditional Conditional.read
  simp only [afterPrefix_eq _ hcheck, Cutting.lift_bind]
  cases hafter : afterKeyword Conditional.checkKeyword (trim data) with
  | none => rfl
  | some rest =>
      obtain ⟨written, htext, hsame⟩ := afterKeyword_eq_some hafter
      have hskip := skipBlanks_eq (List.suffix_refl rest)
      rw [offsetIn, Nat.sub_self] at hskip
      have hoffset : byteLength (trim data) - byteLength rest = byteLength written := by
        rw [htext, byteLength_append, Nat.add_sub_cancel_right]
      have hpeek : peek rest (offsetIn (byteLength rest) (trimStart rest)) =
          some (trimStart rest).head? := peek_eq (List.dropWhile_suffix isBlank)
      simp only
      rw [hskip, Cutting.lift_bind, hpeek, Cutting.lift_bind, hoffset]
      generalize trim data = text at htext ⊢
      by_cases hquote : ∃ quoted, trimStart rest = '"' :: quoted
      · obtain ⟨quoted, hstart⟩ := hquote
        have hquoted := conditional_quoted htext hsame hstart
        rw [hstart, List.head?_cons, if_pos rfl]
        exact hquoted
      · have hhead : (trimStart rest).head? ≠ some '"' := fun hhead =>
          hquote (List.head?_eq_some_iff.mp hhead)
        rw [if_neg hhead]
        split
        · rename_i quoted hstart
          exact absurd ⟨quoted, hstart⟩ hquote
        · exact conditional_bare htext hsame

end Read

/-- Whatever the text, no reader cuts it, or a piece of it, at an offset that is beyond its end or inside a
character, or from behind the place to which it cuts: each gives something, and that is what the reader of
characters gives. -/
theorem every_cut_succeeds (text : List Char) :
    (conditional text).run = some (Conditional.read text) ∧
      (expression text).run = some (Expression.read text) ∧
      (term text).run = some (Term.read text) ∧
      (blockValues text).run = some (Block.values text) ∧
      (listValues text).run = some (BracketList.values text) :=
  ⟨conditional_eq text, expression_eq text, term_eq text, blockValues_eq text, listValues_eq text⟩

end MenuActions.Grammar.Cursor
