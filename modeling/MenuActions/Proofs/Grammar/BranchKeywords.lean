import MenuActions.Proofs.Grammar.DisplacedError
import MenuActions.Proofs.Grammar.KeywordBytes

/-!
# The keywords of the two branches

Either keyword may come first.  The one that does is found when it is looked for alone, and the other one is
looked for behind it as if the text began there (`findKeyword_both`): no keyword begins inside another one, or
right behind its colon.  Where a keyword is found, the scan is outside quotes and brackets (`run_eq_start`).
-/

namespace MenuActions.Grammar

open Text

namespace TopLevel

section Search

variable {keywords : List (List Char)} {keyword : List Char} {scan : Scan}

/-- The search goes on behind a character at which none of the keywords is found. -/
theorem findKeyword_skip {c : Char} {rest : List Char}
    (h : scan.admits = true → ∀ keyword ∈ keywords, afterKeyword keyword (c :: rest) = none) :
    findKeyword keywords scan (c :: rest) =
      (findKeyword keywords (scan.step c) rest).map fun (before, keyword, after) =>
        (c :: before, keyword, after) := by
  cases hadmits : scan.admits with
  | true => exact findKeyword_cons (h hadmits)
  | false => exact findKeyword_append rest (.cons hadmits (.nil _))

/-- A character is skipped, or one of the keywords is found there. -/
theorem skips_or_here (keywords : List (List Char)) (scan : Scan) (c : Char) (rest : List Char) :
    (scan.admits = true → ∀ keyword ∈ keywords, afterKeyword keyword (c :: rest) = none) ∨
      ∃ keyword ∈ keywords, ∃ after, scan.admits = true ∧
        afterKeyword keyword (c :: rest) = some after ∧
        findKeyword keywords scan (c :: rest) = some ([], keyword, after) := by
  cases hadmits : scan.admits with
  | false => exact .inl fun h => absurd h (by simp)
  | true =>
      cases hhere : keywords.findSome? fun keyword =>
          (afterKeyword keyword (c :: rest)).map fun after => (keyword, after) with
      | none =>
          refine .inl fun _ keyword hkeyword => ?_
          exact Option.map_eq_none_iff.mp (List.findSome?_eq_none_iff.mp hhere keyword hkeyword)
      | some found =>
          obtain ⟨keyword, after⟩ := found
          obtain ⟨other, hmem, hother⟩ := List.exists_of_findSome?_eq_some hhere
          obtain ⟨_, hafter, heq⟩ := Option.map_eq_some_iff.mp hother
          obtain ⟨rfl, rfl⟩ := Prod.mk.inj heq
          exact .inr ⟨other, hmem, _, rfl, hafter, findKeyword_here hadmits hhere⟩

/-- Where none of some keywords is found, no single one is. -/
theorem findKeyword_eq_none_of_mem {s : List Char} (h : findKeyword keywords scan s = none)
    (hkeyword : keyword ∈ keywords) : findKeyword [keyword] scan s = none := by
  induction s generalizing scan with
  | nil => rfl
  | cons c rest ih =>
      rcases skips_or_here keywords scan c rest with hskip | ⟨_, -, _, -, -, hfound⟩
      · rw [findKeyword_skip hskip, Option.map_eq_none_iff] at h
        have hsingle : scan.admits = true → ∀ k ∈ [keyword], afterKeyword k (c :: rest) = none :=
          fun hadmits k hk => hskip hadmits k (List.mem_singleton.mp hk ▸ hkeyword)
        rw [findKeyword_skip hsingle, ih h]
        rfl
      · rw [hfound] at h
        exact absurd h (by simp)

theorem previous_run (scan : Scan) (s : List Char) :
    (scan.run s).previous = s.getLast?.getD scan.previous := by
  induction s generalizing scan with
  | nil => rfl
  | cons c s ih =>
      rw [Scan.run_cons, ih, Scan.previous_step, List.getLast?_cons, Option.getD_some]

theorem eq_start_of_admits (h : scan.admits = true) : scan = .start scan.previous := by
  obtain ⟨mode, depth, previous⟩ := scan
  obtain ⟨⟨rfl, rfl⟩, -⟩ : (mode = .outside ∧ depth = 0) ∧ endsWord previous = true := by
    simpa [Scan.admits] using h
  rfl

/-- In front of a keyword that is found, the scan stands outside quotes and brackets. -/
theorem run_eq_start {s between after : List Char}
    (h : findKeyword keywords scan s = some (between, keyword, after)) :
    scan.run between = .start (between.getLast?.getD scan.previous) := by
  have hadmits : (scan.run between).admits = true := by
    induction s generalizing scan between with
    | nil => exact absurd h (by simp [findKeyword])
    | cons c rest ih =>
        rcases skips_or_here keywords scan c rest with hskip | ⟨_, -, _, hadmits, -, hfound⟩
        · rw [findKeyword_skip hskip, Option.map_eq_some_iff] at h
          obtain ⟨⟨front, found, behind⟩, hlater, hparts⟩ := h
          simp only [Prod.mk.injEq] at hparts
          obtain ⟨rfl, rfl, rfl⟩ := hparts
          have hlast := ih hlater
          exact hlast
        · rw [hfound] at h
          simp only [Option.some.injEq, Prod.mk.injEq] at h
          rw [← h.1]
          exact hadmits
  rw [← previous_run]
  exact eq_start_of_admits hadmits

/-- A character that is neither a quote nor a bracket leaves the scan outside. -/
theorem start_step {c : Char} (previous : Char) (h : c ∉ ['"', '[', '{', ']', '}']) :
    (Scan.start previous).step c = .start c := by
  simp only [List.mem_cons, List.not_mem_nil, or_false, not_or] at h
  simp [Scan.start, Scan.step, h]

theorem start_run {s : List Char} (previous : Char) (h : ∀ c ∈ s, c ∉ ['"', '[', '{', ']', '}']) :
    (Scan.start previous).run s = .start (s.getLast?.getD previous) := by
  induction s generalizing previous with
  | nil => rfl
  | cons c s ih =>
      obtain ⟨hc, hlater⟩ := List.forall_mem_cons.mp h
      rw [Scan.run_cons, start_step previous hc, ih c hlater, List.getLast?_cons, Option.getD_some]

/-- No keyword begins in a text without blanks, quotes and brackets. -/
theorem passes_plain {s : List Char} {previous : Char} (hprevious : endsWord previous = false)
    (h : ∀ c ∈ s, endsWord c = false ∧ c ∉ ['"', '[', '{', ']', '}']) :
    (Scan.start previous).Passes s (.start (s.getLast?.getD previous)) := by
  induction s generalizing previous with
  | nil => exact .nil _
  | cons c s ih =>
      obtain ⟨⟨hends, hmark⟩, hlater⟩ := List.forall_mem_cons.mp h
      refine .cons (by simp [Scan.admits, Scan.start, hprevious]) ?_
      rw [start_step previous hmark, List.getLast?_cons, Option.getD_some]
      exact ih hends hlater

end Search

end TopLevel

namespace Conditional

open TopLevel

section Keywords

variable {keyword other written : List Char} {scan : Scan}

/-- An upper-case letter is no blank, no quote and no bracket. -/
theorem plain_of_toLower {c : Char} (hends : endsWord c.toLower = false)
    (hmark : c.toLower ∉ ['"', '[', '{', ']', '}']) :
    endsWord c = false ∧ c ∉ ['"', '[', '{', ']', '}'] := by
  rcases toLower_cases c with ⟨hfirst, hlast, -⟩ | ⟨-, hsame⟩
  · have hne : ∀ d : Char, ¬(65 ≤ d.toNat ∧ d.toNat ≤ 90) → c ≠ d := by
      rintro d hd rfl
      exact hd ⟨hfirst, hlast⟩
    constructor
    · simp [endsWord, isLineBreak, hne]
    · simp [hne]
  · rw [hsame] at hends hmark
    exact ⟨hends, hmark⟩

/-- The characters of a keyword in any letter case are letters and a colon. -/
theorem plain_of_same (hkeyword : keyword ∈ [checkKeyword, trueKeyword, falseKeyword])
    (hsame : sameIgnoringCase written keyword = true) :
    ∀ c ∈ written, endsWord c = false ∧ c ∉ ['"', '[', '{', ']', '}'] := by
  have hlower : written.map Char.toLower = keyword.map Char.toLower := by
    simpa [sameIgnoringCase] using hsame
  have hplain : ∀ keyword ∈ [checkKeyword, trueKeyword, falseKeyword], keyword.all fun k =>
      endsWord k.toLower = false ∧ k.toLower ∉ ['"', '[', '{', ']', '}'] := by decide
  intro c hc
  obtain ⟨k, hk, heq⟩ := List.mem_map.mp (hlower ▸ List.mem_map_of_mem hc)
  obtain ⟨hends, hmark⟩ := List.all_iff_forall_prop.mp (hplain keyword hkeyword) k hk
  rw [heq] at hends hmark
  exact plain_of_toLower hends hmark

/-- A keyword in any letter case ends in a colon. -/
theorem getLast?_of_same (hkeyword : keyword ∈ [checkKeyword, trueKeyword, falseKeyword])
    (hsame : sameIgnoringCase written keyword = true) : written.getLast? = some ':' := by
  have hlower : written.map Char.toLower = keyword.map Char.toLower := by
    simpa [sameIgnoringCase] using hsame
  have hlast : ∀ keyword ∈ [checkKeyword, trueKeyword, falseKeyword],
      (keyword.map Char.toLower).getLast? = some ':' := by decide
  have hcolon := hlast keyword hkeyword
  rw [← hlower, List.getLast?_map, Option.map_eq_some_iff] at hcolon
  obtain ⟨c, hc, hcase⟩ := hcolon
  rw [hc, eq_of_toLower_eq (by decide) hcase]

/-- The search for one keyword goes on behind the other one. -/
theorem findKeyword_behind (after : List Char) (hkeyword : keyword ∈ [trueKeyword, falseKeyword])
    (hother : other ∈ [trueKeyword, falseKeyword]) (hne : other ≠ keyword)
    (hsame : sameIgnoringCase written keyword = true) (hadmits : scan.admits = true) :
    findKeyword [other] scan (written ++ after) =
      (findKeyword [other] (.start ':') after).map fun found => (written ++ found.1, found.2) := by
  have hnone := afterKeyword_other after (by simpa using hkeyword) (by simpa using hother) hne hsame
  have hplain := plain_of_same (List.mem_cons_of_mem _ hkeyword) hsame
  have hlast := getLast?_of_same (List.mem_cons_of_mem _ hkeyword) hsame
  cases written with
  | nil => exact absurd hlast (by simp)
  | cons c written =>
      obtain ⟨⟨hends, hmark⟩, hlater⟩ := List.forall_mem_cons.mp hplain
      have hstep : scan.step c = .start c := by
        rw [eq_start_of_admits hadmits, start_step _ hmark]
      have hpasses := passes_plain hends hlater
      rw [List.getLast?_cons, Option.some_inj] at hlast
      rw [hlast] at hpasses
      rw [List.cons_append, findKeyword_skip fun _ k hk => List.mem_singleton.mp hk ▸ hnone, hstep,
        findKeyword_append after hpasses, Option.map_map]
      rfl

/-- What is found first of the two keywords is found when it is looked for alone, and the other one is looked
for behind it. -/
theorem findKeyword_both {s between after : List Char}
    (h : findKeyword [trueKeyword, falseKeyword] scan s = some (between, keyword, after)) :
    findKeyword [keyword] scan s = some (between, keyword, after) ∧
      ∃ written, s = between ++ (written ++ after) ∧ sameIgnoringCase written keyword = true ∧
        ∀ other ∈ [trueKeyword, falseKeyword], other ≠ keyword →
          findKeyword [other] scan s = (findKeyword [other] (.start ':') after).map fun found =>
            (between ++ (written ++ found.1), found.2) := by
  have hmem := (findKeyword_eq_some h).choose_spec.2.1
  induction s generalizing scan between with
  | nil => exact absurd h (by simp [findKeyword])
  | cons c rest ih =>
      rcases skips_or_here [trueKeyword, falseKeyword] scan c rest with
        hskip | ⟨found, -, behind, hadmits, hafter, hfound⟩
      · have hsingle : ∀ k ∈ [trueKeyword, falseKeyword], findKeyword [k] scan (c :: rest) =
            (findKeyword [k] (scan.step c) rest).map fun found => (c :: found.1, found.2) :=
          fun k hk => findKeyword_skip fun hadmits k' hk' =>
            hskip hadmits k' (List.mem_singleton.mp hk' ▸ hk)
        rw [findKeyword_skip hskip, Option.map_eq_some_iff] at h
        obtain ⟨⟨front, found, behind⟩, hlater, hparts⟩ := h
        simp only [Prod.mk.injEq] at hparts
        obtain ⟨rfl, rfl, rfl⟩ := hparts
        obtain ⟨hhere, written, rfl, hsame, hother⟩ := ih hlater
        refine ⟨?_, written, rfl, hsame, fun other hmem hne => ?_⟩
        · rw [hsingle found hmem, hhere]
          rfl
        · rw [hsingle other hmem, hother other hmem hne, Option.map_map]
          rfl
      · rw [hfound] at h
        simp only [Option.some.injEq, Prod.mk.injEq] at h
        obtain ⟨rfl, rfl, rfl⟩ := h
        obtain ⟨written, hwritten, hsame⟩ := afterKeyword_eq_some hafter
        refine ⟨?_, written, hwritten, hsame, fun other hother hne => ?_⟩
        · refine findKeyword_here hadmits ?_
          simp [hafter]
        · rw [hwritten]
          exact findKeyword_behind behind hmem hother hne hsame hadmits

end Keywords

end Conditional

end MenuActions.Grammar
