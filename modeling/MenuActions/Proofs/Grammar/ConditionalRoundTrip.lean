import MenuActions.Proofs.Grammar.BranchText
import MenuActions.Proofs.Text.LowerCase

/-!
# Conditional actions read back

A conditional action with a quoted condition, written in any of the ways that the grammar has for it:
its keywords in any letter case, its branches in either order or only one of them, each branch a bracket
list or a block of quoted actions, and blanks between all of these.  `Branches` is the list of ways, and
`read_write` the main result: the condition and the actions of both branches are read back, whatever
characters they hold.

The condition is read to its closing quote, but the keywords behind it are looked for by a search with
its own idea of quotes and brackets.  `findKeyword_write` says what this search finds in front of a branch
and `findKeyword_past` that it passes over one; the reader looks once in front of the first branch and
once behind its keyword.
-/

namespace MenuActions.Grammar.Conditional

open Text TopLevel

/-- A branch as it is written: blanks, its keyword, blanks and its actions. -/
structure Branch where
  gap : List Char
  keyword : List Char
  space : List Char
  actions : BranchText

namespace Branch

/-- The text of a branch. -/
def write (branch : Branch) : List Char :=
  branch.gap ++ (branch.keyword ++ (branch.space ++ branch.actions.write))

/-- A branch with its keyword in some letter case. If blanks stand in front of the keyword, the last of
them is one that ends a word: a space, a tab or a line break. -/
structure WellFormed (keyword : List Char) (branch : Branch) : Prop where
  gap_blank : ∀ c ∈ branch.gap, isBlank c = true
  gap_endsWord : ∀ c, branch.gap.getLast? = some c → endsWord c = true
  keyword_same : sameIgnoringCase branch.keyword keyword = true
  space_blank : ∀ c ∈ branch.space, isBlank c = true
  actions_wellSpaced : branch.actions.WellSpaced

end Branch

/-- The branches of a conditional action in the order in which they are written. -/
inductive Branches
  | onlyTrue (whenTrue : Branch)
  | onlyFalse (whenFalse : Branch)
  | trueFirst (whenTrue whenFalse : Branch)
  | falseFirst (whenFalse whenTrue : Branch)

namespace Branches

/-- The text of the branches. -/
def write : Branches → List Char
  | onlyTrue branch => branch.write
  | onlyFalse branch => branch.write
  | trueFirst first second => first.write ++ second.write
  | falseFirst first second => first.write ++ second.write

/-- The actions for a condition that holds. -/
def whenTrue : Branches → List (List Char)
  | onlyTrue branch => branch.actions.values
  | onlyFalse _ => []
  | trueFirst branch _ => branch.actions.values
  | falseFirst _ branch => branch.actions.values

/-- The actions for a condition that does not hold. -/
def whenFalse : Branches → List (List Char)
  | onlyTrue _ => []
  | onlyFalse branch => branch.actions.values
  | trueFirst _ branch => branch.actions.values
  | falseFirst branch _ => branch.actions.values

/-- Each branch has its own keyword. -/
def WellFormed : Branches → Prop
  | onlyTrue branch => branch.WellFormed trueKeyword
  | onlyFalse branch => branch.WellFormed falseKeyword
  | trueFirst first second => first.WellFormed trueKeyword ∧ second.WellFormed falseKeyword
  | falseFirst first second => first.WellFormed falseKeyword ∧ second.WellFormed trueKeyword

end Branches

/-- A conditional action with a quoted condition. -/
def write (check condition : List Char) (branches : Branches) : List Char :=
  check ++ (Quoted.encode condition ++ branches.write)

/-! ## Keywords and the characters that cannot begin one -/

/-- A keyword in another letter case is recognised. -/
theorem afterKeyword_same {keyword written : List Char} (rest : List Char)
    (h : sameIgnoringCase written keyword = true) : afterKeyword keyword (written ++ rest) = some rest := by
  have hlower : written.map Char.toLower = keyword.map Char.toLower := by
    simpa [sameIgnoringCase] using h
  induction keyword generalizing written with
  | nil =>
      obtain rfl : written = [] := by simpa using hlower
      cases rest <;> rfl
  | cons k keyword ih =>
      cases written with
      | nil => simp at hlower
      | cons c written =>
          obtain ⟨hc, htail⟩ : c.toLower = k.toLower ∧
              written.map Char.toLower = keyword.map Char.toLower := by simpa using hlower
          rw [List.cons_append, afterKeyword, if_pos hc.symm]
          exact ih (by simpa [sameIgnoringCase] using htail) htail

theorem afterKeyword_eq_none {k c : Char} (keyword s : List Char) (h : k.toLower ≠ c.toLower) :
    afterKeyword (k :: keyword) (c :: s) = none := by
  rw [afterKeyword, if_neg h]

/-- Whether none of some keywords begins with a character. -/
def NoHead (keywords : List (List Char)) (c : Char) : Prop :=
  ∀ keyword ∈ keywords, ∀ s, afterKeyword keyword (c :: s) = none

/-- Lower case leaves a blank as it is. -/
theorem toLower_of_isBlank {c : Char} (h : isBlank c = true) : c.toLower = c := by
  obtain ⟨hfirst, hlast, -⟩ | ⟨-, hsame⟩ := toLower_cases c
  · simp only [isBlank, Bool.or_eq_true, Bool.and_eq_true, decide_eq_true_eq, beq_iff_eq] at h
    omega
  · exact hsame

theorem noHead_of_isBlank {keywords : List (List Char)} {c : Char}
    (hkeywords : ∀ keyword ∈ keywords, keyword = trueKeyword ∨ keyword = falseKeyword)
    (h : isBlank c = true) : NoHead keywords c := by
  have hne : ∀ d : Char, isBlank d = false → d.toLower = d → d.toLower ≠ c.toLower := by
    intro d hd hlower heq
    rw [hlower, toLower_of_isBlank h] at heq
    rw [heq, h] at hd
    exact absurd hd (by decide)
  intro keyword hkeyword s
  rcases hkeywords keyword hkeyword with rfl | rfl
  · exact afterKeyword_eq_none _ _ (hne 't' (by decide) (by decide))
  · exact afterKeyword_eq_none _ _ (hne 'f' (by decide) (by decide))

theorem noHead_of_bracket {keywords : List (List Char)} {c : Char}
    (hkeywords : ∀ keyword ∈ keywords, keyword = trueKeyword ∨ keyword = falseKeyword)
    (h : c = '[' ∨ c = '{') : NoHead keywords c := by
  intro keyword hkeyword s
  rcases hkeywords keyword hkeyword with rfl | rfl <;> rcases h with rfl | rfl <;> rfl

/-- One of the two keywords is not mistaken for the other. -/
theorem afterKeyword_other {keyword other written : List Char} (rest : List Char)
    (hkeyword : keyword = trueKeyword ∨ keyword = falseKeyword)
    (hother : other = trueKeyword ∨ other = falseKeyword) (hne : other ≠ keyword)
    (h : sameIgnoringCase written keyword = true) : afterKeyword other (written ++ rest) = none := by
  have hlower : written.map Char.toLower = keyword.map Char.toLower := by
    simpa [sameIgnoringCase] using h
  cases written with
  | nil =>
      rcases hkeyword with rfl | rfl <;> exact absurd hlower (by decide)
  | cons c written =>
      have hhead : keyword.head?.map Char.toLower = some c.toLower := by
        rw [← List.head?_map, ← hlower]
        rfl
      rw [List.cons_append]
      rcases hkeyword with rfl | rfl <;> rcases hother with rfl | rfl
      · exact absurd rfl hne
      · have hc : some 't' = some c.toLower := hhead
        refine afterKeyword_eq_none _ _ ?_
        rw [← Option.some.inj hc]
        decide
      · have hc : some 'f' = some c.toLower := hhead
        refine afterKeyword_eq_none _ _ ?_
        rw [← Option.some.inj hc]
        decide
      · exact absurd rfl hne

/-! ## What the search finds -/

section Search

variable {keywords : List (List Char)} {keyword : List Char} {branch : Branch} {previous : Char}

/-- The search goes on behind blanks, and the last of them decides whether a keyword may begin. -/
theorem findKeyword_blank {gap : List Char} (rest : List Char)
    (hkeywords : ∀ keyword ∈ keywords, keyword = trueKeyword ∨ keyword = falseKeyword)
    (hgap : ∀ c ∈ gap, isBlank c = true) (previous : Char) :
    findKeyword keywords (.start previous) (gap ++ rest) =
      (findKeyword keywords (.start (gap.getLast?.getD previous)) rest).map
        fun (before, keyword, after) => (gap ++ before, keyword, after) := by
  induction gap generalizing previous with
  | nil => simp
  | cons c gap ih =>
      have hc := hgap c List.mem_cons_self
      have hstep : (Scan.start previous).step c = .start c := by
        have hout := BranchText.not_mem_of_isBlank hc
        simp only [List.mem_cons, List.not_mem_nil, or_false, not_or] at hout
        simp [Scan.start, Scan.step, hout]
      have hlast : (c :: gap).getLast?.getD previous = gap.getLast?.getD c := by
        rw [List.getLast?_cons, Option.getD_some]
      rw [List.cons_append, findKeyword_cons fun keyword hkeyword =>
        noHead_of_isBlank hkeywords hc keyword hkeyword _, hstep,
        ih (fun d hd => hgap d (List.mem_cons_of_mem c hd)), Option.map_map, hlast]
      rfl

/-- A keyword is found where it is written. -/
theorem findKeyword_keyword {scan : Scan} {written : List Char} (rest : List Char)
    (hkeywords : ∀ keyword ∈ keywords, keyword = trueKeyword ∨ keyword = falseKeyword)
    (hkeyword : keyword ∈ keywords) (hsame : sameIgnoringCase written keyword = true)
    (hadmits : scan.admits = true) :
    findKeyword keywords scan (written ++ rest) = some ([], keyword, rest) := by
  have hsome : ∀ among : List (List Char), keyword ∈ among → (∀ k ∈ among, k ∈ keywords) →
      (among.findSome? fun k => (afterKeyword k (written ++ rest)).map fun after => (k, after)) =
        some (keyword, rest) := by
    intro among hmem hall
    induction among with
    | nil => exact absurd hmem List.not_mem_nil
    | cons k among ih =>
        rw [List.findSome?_cons]
        by_cases hk : k = keyword
        · rw [hk, afterKeyword_same rest hsame]
          rfl
        · rw [afterKeyword_other rest (hkeywords keyword hkeyword)
            (hkeywords k (hall k List.mem_cons_self)) hk hsame]
          exact ih ((List.mem_cons.mp hmem).resolve_left fun h => hk h.symm)
            fun other hother => hall other (List.mem_cons_of_mem k hother)
  cases written with
  | nil =>
      rcases hkeywords keyword hkeyword with rfl | rfl <;> exact absurd hsame (by decide)
  | cons c written => exact findKeyword_here hadmits (hsome keywords hkeyword fun _ h => h)

/-- In front of a branch the search finds its keyword. -/
theorem findKeyword_write (rest : List Char)
    (hkeywords : ∀ keyword ∈ keywords, keyword = trueKeyword ∨ keyword = falseKeyword)
    (hkeyword : keyword ∈ keywords) (hbranch : branch.WellFormed keyword)
    (hprevious : endsWord previous = true) :
    findKeyword keywords (.start previous) (branch.write ++ rest) =
      some (branch.gap, keyword, branch.space ++ (branch.actions.write ++ rest)) := by
  have hadmits : (Scan.start (branch.gap.getLast?.getD previous)).admits = true := by
    have hends : endsWord (branch.gap.getLast?.getD previous) = true := by
      cases hlast : branch.gap.getLast? with
      | none => exact hprevious
      | some c => exact hbranch.gap_endsWord c hlast
    simpa [Scan.admits, Scan.start] using hends
  have htext : branch.write ++ rest =
      branch.gap ++ (branch.keyword ++ (branch.space ++ (branch.actions.write ++ rest))) := by
    simp only [Branch.write, List.append_assoc]
  rw [htext, findKeyword_blank _ hkeywords hbranch.gap_blank,
    findKeyword_keyword _ hkeywords hkeyword hbranch.keyword_same hadmits]
  simp

/-- Behind the keyword of a branch the search passes over its actions. -/
theorem findKeyword_past {space : List Char} {actions : BranchText} (rest : List Char)
    (hkeywords : ∀ keyword ∈ keywords, keyword = trueKeyword ∨ keyword = falseKeyword)
    (hspace : ∀ c ∈ space, isBlank c = true) (hactions : actions.WellSpaced) :
    findKeyword keywords (.start previous) (space ++ (actions.write ++ rest)) =
      (findKeyword keywords (.start actions.closer) rest).map fun (before, keyword, after) =>
        (space ++ (actions.write ++ before), keyword, after) := by
  rw [findKeyword_blank _ hkeywords hspace, BranchText.findKeyword_write hactions
    (fun keyword hkeyword c hc s => noHead_of_bracket hkeywords hc keyword hkeyword s), Option.map_map]
  rfl

end Search

/-! ## Reading the branches -/

theorem endsWord_closer (actions : BranchText) : endsWord actions.closer = true := by
  cases actions <;> rfl

/-- The text behind the keyword of a single branch holds no other keyword. -/
theorem findKeyword_eq_none {keyword other : List Char} {branch : Branch}
    (hbranch : branch.WellFormed keyword) (hother : other = trueKeyword ∨ other = falseKeyword) :
    findKeyword [other] (.start ':') (branch.space ++ branch.actions.write) = none := by
  have hkeywords : ∀ k ∈ [other], k = trueKeyword ∨ k = falseKeyword :=
    fun k hk => List.mem_singleton.mp hk ▸ hother
  rw [← List.append_nil branch.actions.write,
    findKeyword_past [] hkeywords hbranch.space_blank hbranch.actions_wellSpaced]
  rfl

/-- Behind the keyword of the first branch, the keyword of the second is found where it was written. -/
theorem findKeyword_second {keyword other : List Char} {first second : Branch}
    (hfirst : first.WellFormed keyword) (hsecond : second.WellFormed other)
    (hother : other = trueKeyword ∨ other = falseKeyword) :
    findKeyword [other] (.start ':') (first.space ++ (first.actions.write ++ second.write)) =
      some (first.space ++ (first.actions.write ++ second.gap), other,
        second.space ++ second.actions.write) := by
  have hkeywords : ∀ k ∈ [other], k = trueKeyword ∨ k = falseKeyword :=
    fun k hk => List.mem_singleton.mp hk ▸ hother
  have hfound := findKeyword_write [] hkeywords List.mem_cons_self hsecond
    (endsWord_closer first.actions)
  rw [List.append_nil, List.append_nil] at hfound
  rw [findKeyword_past _ hkeywords hfirst.space_blank hfirst.actions_wellSpaced, hfound]
  rfl

/-- The actions of a branch are read from the text behind its keyword, with the blanks in front of the
next keyword. -/
theorem readBranch_actions {keyword : List Char} {branch : Branch} (hbranch : branch.WellFormed keyword)
    {back : List Char} (hback : ∀ c ∈ back, isBlank c = true) :
    readBranch (branch.space ++ (branch.actions.write ++ back)) =
      .ok (branch.actions.values.map String.ofList) :=
  BranchText.readBranch_write hbranch.actions_wellSpaced hbranch.space_blank hback

/-- The same for the branch that ends the text. -/
theorem readBranch_last {keyword : List Char} {branch : Branch} (hbranch : branch.WellFormed keyword) :
    readBranch (branch.space ++ branch.actions.write) =
      .ok (branch.actions.values.map String.ofList) := by
  have hread := readBranch_actions hbranch fun c (hc : c ∈ []) => absurd hc List.not_mem_nil
  rwa [List.append_nil] at hread

/-- Behind a quoted condition, a text is read as two branches: its first keyword, with nothing but blanks
in front of it, and the actions that are read from the text behind it. -/
def ReadsBranches (tail : List Char) (whenTrue whenFalse : List String) : Prop :=
  ∃ between keyword after, (∀ c ∈ between, isBlank c = true) ∧
    findKeyword [trueKeyword, falseKeyword] (.start '"') tail = some (between, keyword, after) ∧
    readBranches keyword after = .ok (whenTrue, whenFalse)

/-- Written branches are read back. -/
theorem readsBranches_write {branches : Branches} (hbranches : branches.WellFormed) :
    ReadsBranches branches.write (branches.whenTrue.map String.ofList)
      (branches.whenFalse.map String.ofList) := by
  have hkeywords : ∀ k ∈ [trueKeyword, falseKeyword], k = trueKeyword ∨ k = falseKeyword := by simp
  have hquote : endsWord '"' = true := by decide
  have hne : falseKeyword ≠ trueKeyword := by decide
  cases branches with
  | onlyTrue branch =>
      refine ⟨branch.gap, trueKeyword, branch.space ++ branch.actions.write, hbranches.gap_blank, ?_, ?_⟩
      · have hfound := findKeyword_write [] hkeywords (by simp) hbranches hquote
        rwa [List.append_nil, List.append_nil] at hfound
      · rw [readBranches, if_pos rfl, findKeyword_eq_none hbranches (Or.inr rfl)]
        show (do return (← readBranch _, []) : Except ParseError _) = _
        rw [readBranch_last hbranches]
        rfl
  | onlyFalse branch =>
      refine ⟨branch.gap, falseKeyword, branch.space ++ branch.actions.write, hbranches.gap_blank, ?_, ?_⟩
      · have hfound := findKeyword_write [] hkeywords (by simp) hbranches hquote
        rwa [List.append_nil, List.append_nil] at hfound
      · rw [readBranches, if_neg hne, findKeyword_eq_none hbranches (Or.inl rfl)]
        show (do return ([], ← readBranch _) : Except ParseError _) = _
        rw [readBranch_last hbranches]
        rfl
  | trueFirst first second =>
      obtain ⟨hfirst, hsecond⟩ := hbranches
      refine ⟨first.gap, trueKeyword, first.space ++ (first.actions.write ++ second.write),
        hfirst.gap_blank, findKeyword_write _ hkeywords (by simp) hfirst hquote, ?_⟩
      rw [readBranches, if_pos rfl, findKeyword_second hfirst hsecond (Or.inr rfl)]
      show (do
        let whenTrue ← readBranch (first.space ++ (first.actions.write ++ second.gap))
        let whenFalse ← readBranch (second.space ++ second.actions.write)
        return (whenTrue, whenFalse) : Except ParseError _) = _
      rw [readBranch_actions hfirst hsecond.gap_blank, readBranch_last hsecond]
      rfl
  | falseFirst first second =>
      obtain ⟨hfirst, hsecond⟩ := hbranches
      refine ⟨first.gap, falseKeyword, first.space ++ (first.actions.write ++ second.write),
        hfirst.gap_blank, findKeyword_write _ hkeywords (by simp) hfirst hquote, ?_⟩
      rw [readBranches, if_neg hne, findKeyword_second hfirst hsecond (Or.inl rfl)]
      show (do
        let whenTrue ← readBranch (second.space ++ second.actions.write)
        let whenFalse ← readBranch (first.space ++ (first.actions.write ++ second.gap))
        return (whenTrue, whenFalse) : Except ParseError _) = _
      rw [readBranch_actions hfirst hsecond.gap_blank, readBranch_last hsecond]
      rfl

/-! ## The whole action -/

/-- The branches end with the bracket or brace of the last one. -/
theorem exists_write_eq_concat (branches : Branches) :
    ∃ inside last, branches.write = inside ++ [last] ∧ isBlank last = false := by
  have hbranch : ∀ (front : List Char) (branch : Branch),
      ∃ inside last, front ++ branch.write = inside ++ [last] ∧ isBlank last = false := by
    intro front branch
    obtain ⟨first, inside, hwrite, -⟩ := branch.actions.exists_write_eq
    refine ⟨front ++ (branch.gap ++ (branch.keyword ++ (branch.space ++ (first :: inside)))),
      branch.actions.closer, ?_, branch.actions.isBlank_closer⟩
    rw [Branch.write, hwrite]
    simp only [List.append_assoc, List.cons_append]
  cases branches with
  | onlyTrue branch => exact hbranch [] branch
  | onlyFalse branch => exact hbranch [] branch
  | trueFirst first second => exact hbranch first.write second
  | falseFirst first second => exact hbranch first.write second

theorem trimEnd_write (branches : Branches) : trimEnd branches.write = branches.write := by
  obtain ⟨inside, last, hwrite, hlast⟩ := exists_write_eq_concat branches
  rw [hwrite, trimEnd_append_cons hlast]
  rfl

section Quoted

variable {check tail : List Char} (condition : List Char)

/-- An action with a quoted condition has no blanks around it if there are none behind its branches. -/
theorem trim_quoted (hcheck : sameIgnoringCase check checkKeyword = true) (htail : trimEnd tail = tail) :
    trim (check ++ (Quoted.encode condition ++ tail)) = check ++ (Quoted.encode condition ++ tail) := by
  cases check with
  | nil => exact absurd hcheck (by decide)
  | cons first check =>
      have hfirst : isBlank first = false := by
        have hlower : 'c' = first.toLower := by
          have hmap : (first :: check).map Char.toLower = checkKeyword.map Char.toLower := by
            simpa [sameIgnoringCase] using hcheck
          exact (List.head_eq_of_cons_eq hmap).symm
        by_contra hblank
        rw [Bool.not_eq_false] at hblank
        rw [toLower_of_isBlank hblank] at hlower
        rw [← hlower] at hblank
        exact absurd hblank (by decide)
      have hends : (first :: check) ++ (Quoted.encode condition ++ tail) =
          (first :: (check ++ '"' :: Quoted.escape condition)) ++ '"' :: tail := by
        simp [Quoted.encode]
      rw [hends, trim, List.cons_append, trimStart_cons hfirst, ← List.cons_append,
        trimEnd_append_cons (by decide), htail]

/-- A quoted condition is cut off at its closing quote, and what stands behind it is left to be read. -/
theorem read_encode (hcheck : sameIgnoringCase check checkKeyword = true) (htail : trimEnd tail = tail) :
    ∃ offset, read (check ++ (Quoted.encode condition ++ tail)) = readTail condition '"' offset tail := by
  have hquoted : trimStart (Quoted.encode condition ++ tail) =
      '"' :: (Quoted.escape condition ++ '"' :: tail) := by
    rw [Quoted.encode, List.cons_append, List.cons_append, List.append_assoc,
      trimStart_cons (by decide)]
    rfl
  have hrest : afterKeyword checkKeyword (check ++ (Quoted.encode condition ++ tail)) =
      some (Quoted.encode condition ++ tail) := afterKeyword_same _ hcheck
  refine ⟨offsetIn (byteLength (check ++ (Quoted.encode condition ++ tail))) tail, ?_⟩
  unfold read
  simp only [trim_quoted condition hcheck htail, hrest, hquoted, Quoted.decode_escape]

theorem read_quoted (branches : Branches) (hcheck : sameIgnoringCase check checkKeyword = true) :
    ∃ offset, read (write check condition branches) = readTail condition '"' offset branches.write :=
  read_encode condition hcheck (trimEnd_write branches)

end Quoted

section Tail

variable {condition : List Char} {expression : Expression}

/-- Behind a condition that can be read, the branches are read. -/
theorem readTail_branches {tail : List Char} {whenTrue whenFalse : List String}
    (hcondition : Expression.read condition = .ok expression)
    (htail : ReadsBranches tail whenTrue whenFalse) (offset : Nat) :
    readTail condition '"' offset tail =
      .ok ⟨String.ofList condition, expression, whenTrue, whenFalse⟩ := by
  obtain ⟨between, keyword, after, hblank, hfound, hactions⟩ := htail
  simp only [readTail, hcondition, hfound, hactions, trimStart_eq_nil_of_blank hblank, bind, Except.bind]
  rfl

theorem readTail_write {branches : Branches} (hcondition : Expression.read condition = .ok expression)
    (hbranches : branches.WellFormed) (offset : Nat) :
    readTail condition '"' offset branches.write =
      .ok ⟨String.ofList condition, expression, branches.whenTrue.map String.ofList,
        branches.whenFalse.map String.ofList⟩ :=
  readTail_branches hcondition (readsBranches_write hbranches) offset

end Tail

/-- A conditional action is read back: its condition, and the actions of both branches. A branch that
is left out has no actions. -/
theorem read_write {check condition : List Char} {expression : Expression} {branches : Branches}
    (hcheck : sameIgnoringCase check checkKeyword = true)
    (hcondition : Expression.read condition = .ok expression) (hbranches : branches.WellFormed) :
    read (write check condition branches) =
      .ok ⟨String.ofList condition, expression, branches.whenTrue.map String.ofList,
        branches.whenFalse.map String.ofList⟩ := by
  obtain ⟨offset, hread⟩ := read_quoted condition branches hcheck
  rw [hread]
  exact readTail_write hcondition hbranches offset

/-- Two branches with the false one first. Their actions hold keywords, quotes and brackets, and so does
the condition. -/
def mixedBranches : Branches :=
  .falseFirst
    ⟨[], "FALSE:".toList, [],
      .block [' '] [⟨[' '], "message: ]\x7d \"true:".toList, [' ']⟩, ⟨[], "wait".toList, ['\n']⟩]⟩
    ⟨[' ', '\n'], "True:".toList, [' '],
      .list [] [⟨[], "a\\ false: [".toList, []⟩, ⟨[' '], [], []⟩]⟩

/-- The condition that goes with them. -/
def mixedCondition : List Char :=
  "placeholder:rank == \"a true: b\" && permission:vip".toList

theorem read_mixed :
    sameIgnoringCase "Check:".toList checkKeyword = true ∧
      Expression.read mixedCondition = .ok ⟨.placeholder "rank" .equal "a true: b",
        [(.and, .permission "vip")]⟩ ∧
      mixedBranches.WellFormed ∧
      write "Check:".toList mixedCondition mixedBranches =
        "Check:\"placeholder:rank == \\\"a true: b\\\" && permission:vip\"FALSE:".toList ++
          "\x7b - \"message: ]\x7d \\\"true:\" -\"wait\"\n\x7d \nTrue: [\"a\\\\ false: [\", \"\"]".toList ∧
      read (write "Check:".toList mixedCondition mixedBranches) =
        .ok ⟨"placeholder:rank == \"a true: b\" && permission:vip",
          ⟨.placeholder "rank" .equal "a true: b", [(.and, .permission "vip")]⟩,
          ["a\\ false: [", ""], ["message: ]\x7d \"true:", "wait"]⟩ := by
  have hcheck : sameIgnoringCase "Check:".toList checkKeyword = true := by decide
  have hread : Expression.read mixedCondition = .ok ⟨.placeholder "rank" .equal "a true: b",
      [(.and, .permission "vip")]⟩ := by rfl
  have hbranches : mixedBranches.WellFormed := by
    have hspace : isBlank ' ' = true := by decide
    have hbreak : isBlank '\n' = true := by decide
    have hinline : isInlineBlank ' ' = true := by decide
    have hends : endsWord '\n' = true := by decide
    refine ⟨⟨by simp, by simp, by decide, by simp, ?_⟩,
      ⟨by simp [hspace, hbreak], by simp [hends], by decide, by simp [hspace], ?_⟩⟩
    · simp [BranchText.WellSpaced, hspace, hbreak, hinline]
    · simp [BranchText.WellSpaced, hspace]
  exact ⟨hcheck, hread, hbranches, by decide +kernel, read_write hcheck hread hbranches⟩

end MenuActions.Grammar.Conditional
