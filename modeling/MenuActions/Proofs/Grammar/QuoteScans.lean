import MenuActions.Proofs.Grammar.KeywordBytes

/-!
# Quotes in both scans

The reader of a quoted value works on characters and takes a backslash for an escape only in front of a quote
or of another backslash.  The search for a keyword works on bytes and passes two of them at every backslash in
quotes.  `quotes_agree` says that the search leaves a quoted value exactly where the reader does, and never
leaves one that the reader does not.  That this search finds what the scan over characters finds is
`findInBytes_eq`.

`Scan.InValue` relates the two: behind a backslash that is no escape for the reader, the scan is escaped and
the next character is neither of the two that would matter.
-/

namespace MenuActions.Grammar.TopLevel

open Text

/-! ## Quoted values -/

/-- The scan stands in a quoted value where the reader of the value stands.  Behind a backslash that escapes
nothing for the reader, the scan takes the next character for escaped. -/
def Scan.InValue (scan : Scan) (s : List Char) : Prop :=
  scan.mode = .quoted ∨ scan.mode = .escaped ∧ s.head? ≠ some '"' ∧ s.head? ≠ some '\\'

theorem Scan.InValue.mode_ne {scan : Scan} {s : List Char} (h : scan.InValue s) :
    scan.mode ≠ .outside := by
  rcases h with h | ⟨h, -⟩ <;> simp [h]

/-- A character that is neither a quote nor an escape leaves the scan in the value. -/
theorem Scan.InValue.step {scan : Scan} {c : Char} {s : List Char} (h : scan.InValue (c :: s))
    (hquote : c ≠ '"') (hescape : c = '\\' → s.head? ≠ some '"' ∧ s.head? ≠ some '\\') :
    (scan.step c).InValue s ∧ (scan.step c).depth = scan.depth := by
  unfold Scan.step
  rcases h with hmode | ⟨hmode, -, hslash⟩
  · rw [hmode]
    by_cases hc : c = '\\'
    · exact ⟨.inr ⟨by simp [hc], hescape hc⟩, rfl⟩
    · exact ⟨.inl (by simp [hc, hquote]), rfl⟩
  · rw [hmode]
    exact ⟨.inl rfl, rfl⟩

/-- An escape leaves the scan in the value. -/
theorem Scan.InValue.step_escape {scan : Scan} {c : Char} {s : List Char}
    (h : scan.InValue ('\\' :: c :: s)) :
    (scan.step '\\').mode = .escaped ∧ ((scan.step '\\').step c).InValue s ∧
      ((scan.step '\\').step c).depth = scan.depth := by
  rcases h with hmode | ⟨-, -, hslash⟩
  · have hstep : scan.step '\\' = ⟨.escaped, scan.depth, '\\'⟩ := by
      unfold Scan.step
      rw [hmode]
      rfl
    rw [hstep]
    exact ⟨rfl, .inl rfl, rfl⟩
  · exact absurd rfl hslash

/-- A scan stays inside quotes in a value that nothing closes. -/
theorem Scan.InValue.inside_of_none {scan : Scan} {s : List Char} (h : scan.InValue s)
    (hdecode : Quoted.decode s = none) : scan.Inside s := by
  induction s using Quoted.decode.induct generalizing scan with
  | case1 => exact Scan.inside_nil.mpr h.mode_ne
  | case2 r => exact absurd hdecode (by simp [Quoted.decode])
  | case3 r ih =>
      rw [Quoted.decode, Option.map_eq_none_iff] at hdecode
      obtain ⟨hescaped, hbehind, -⟩ := h.step_escape
      exact Scan.inside_cons.mpr ⟨h.mode_ne, Scan.inside_cons.mpr
        ⟨by simp [hescaped], ih hbehind hdecode⟩⟩
  | case4 r ih =>
      rw [Quoted.decode, Option.map_eq_none_iff] at hdecode
      obtain ⟨hescaped, hbehind, -⟩ := h.step_escape
      exact Scan.inside_cons.mpr ⟨h.mode_ne, Scan.inside_cons.mpr
        ⟨by simp [hescaped], ih hbehind hdecode⟩⟩
  | case5 c r hquote hescape hdouble ih =>
      rw [Quoted.decode, Option.map_eq_none_iff] at hdecode
      · have hstep := h.step hquote fun hc => ⟨fun hhead => ?_, fun hhead => ?_⟩
        · exact Scan.inside_cons.mpr ⟨h.mode_ne, ih hstep.1 hdecode⟩
        · obtain ⟨more, rfl⟩ := List.head?_eq_some_iff.mp hhead
          exact hescape more hc rfl
        · obtain ⟨more, rfl⟩ := List.head?_eq_some_iff.mp hhead
          exact hdouble more hc rfl
      all_goals assumption

/-- A scan stays inside quotes up to the quote that closes a value. -/
theorem Scan.InValue.inside_of_some {scan : Scan} {s value after : List Char} (h : scan.InValue s)
    (hdecode : Quoted.decode s = some (value, after)) :
    ∃ inner, s = inner ++ '"' :: after ∧ scan.Inside inner ∧ (scan.run inner).mode = .quoted ∧
      (scan.run inner).depth = scan.depth := by
  induction s using Quoted.decode.induct generalizing scan value after with
  | case1 => exact absurd hdecode (by simp [Quoted.decode])
  | case2 r =>
      obtain ⟨-, rfl⟩ : [] = value ∧ r = after := by simpa [Quoted.decode] using hdecode
      rcases h with hmode | ⟨-, hquote, -⟩
      · exact ⟨[], rfl, Scan.inside_nil.mpr (by simp [hmode]), hmode, rfl⟩
      · exact absurd rfl hquote
  | case3 r ih =>
      simp only [Quoted.decode, Option.map_eq_some_iff, Prod.mk.injEq] at hdecode
      obtain ⟨⟨found, behind⟩, hr, rfl, rfl⟩ := hdecode
      obtain ⟨hescaped, hbehind, hdepth⟩ := h.step_escape
      obtain ⟨inner, rfl, hinside, hmode, hend⟩ := ih hbehind hr
      exact ⟨'\\' :: '"' :: inner, rfl, Scan.inside_cons.mpr ⟨h.mode_ne, Scan.inside_cons.mpr
        ⟨by simp [hescaped], hinside⟩⟩, hmode, hend.trans hdepth⟩
  | case4 r ih =>
      simp only [Quoted.decode, Option.map_eq_some_iff, Prod.mk.injEq] at hdecode
      obtain ⟨⟨found, behind⟩, hr, rfl, rfl⟩ := hdecode
      obtain ⟨hescaped, hbehind, hdepth⟩ := h.step_escape
      obtain ⟨inner, rfl, hinside, hmode, hend⟩ := ih hbehind hr
      exact ⟨'\\' :: '\\' :: inner, rfl, Scan.inside_cons.mpr ⟨h.mode_ne, Scan.inside_cons.mpr
        ⟨by simp [hescaped], hinside⟩⟩, hmode, hend.trans hdepth⟩
  | case5 c r hquote hescape hdouble ih =>
      rw [Quoted.decode] at hdecode
      · simp only [Option.map_eq_some_iff, Prod.mk.injEq] at hdecode
        obtain ⟨⟨found, behind⟩, hr, rfl, rfl⟩ := hdecode
        have hstep := h.step hquote fun hc => ⟨fun hhead => ?_, fun hhead => ?_⟩
        · obtain ⟨inner, rfl, hinside, hmode, hend⟩ := ih hstep.1 hr
          exact ⟨c :: inner, rfl, Scan.inside_cons.mpr ⟨h.mode_ne, hinside⟩, hmode,
            hend.trans hstep.2⟩
        · obtain ⟨more, rfl⟩ := List.head?_eq_some_iff.mp hhead
          exact hescape more hc rfl
        · obtain ⟨more, rfl⟩ := List.head?_eq_some_iff.mp hhead
          exact hdouble more hc rfl
      all_goals assumption

/-! ## Where the search is -/

section Search

variable {text : List Char} {keyword : List UInt8} {start : Nat} {scan other : ByteScan}

/-- Of two beginnings of a text, the one of fewer bytes begins the other. -/
theorem prefix_of_byteLength_le {front passed : List Char} (hfront : front <+: text)
    (hpassed : passed <+: text) (hle : byteLength front ≤ byteLength passed) : front <+: passed := by
  rcases List.prefix_or_prefix_of_prefix hfront hpassed with h | ⟨more, rfl⟩
  · exact h
  · rw [byteLength_append] at hle
    by_cases hmore : more = []
    · simp [hmore]
    · have := one_le_byteLength hmore
      omega

/-- A search is inside quotes where the scan over the characters passed is, the one it is inside left out. -/
theorem Stands.exists_passed (h : Stands text scan) :
    ∃ passed, passed <+: text ∧ byteLength passed ≤ scan.index ∧
      scan.depth = (stateBehind passed).depth ∧ scan.quoted = ((stateBehind passed).mode != .outside) ∧
      ∀ front, front <+: text → byteLength front ≤ scan.index → front <+: passed := by
  cases h with
  | @between before rest htext hmode =>
      have hbefore : before <+: text := ⟨rest, htext.symm⟩
      rw [ByteScan.behind_of_ne hmode]
      exact ⟨before, hbefore, Nat.le_refl _, rfl, rfl, fun front hfront hle =>
        prefix_of_byteLength_le hfront hbefore hle⟩
  | @inside before rest c n htext hc hpos hlt =>
      have hbefore : before <+: text := ⟨c :: rest, htext.symm⟩
      have hbehind : before ++ [c] <+: text := ⟨rest, by rw [htext]; simp⟩
      refine ⟨before, hbefore, Nat.le_add_right _ _, rfl, rfl, fun front hfront hle => ?_⟩
      have hsize : byteLength (before ++ [c]) = byteLength before + c.utf8Size := by
        rw [byteLength_append, byteLength_cons, byteLength_nil, Nat.add_zero]
      rcases List.prefix_concat_iff.mp (prefix_of_byteLength_le hfront hbehind
        (hsize ▸ Nat.le_trans hle (Nat.add_le_add_left (Nat.le_of_lt hlt) _))) with rfl | hprefix
      · rw [hsize] at hle
        exact absurd (show c.utf8Size ≤ n by simpa using hle) (Nat.not_le_of_lt hlt)
      · exact hprefix
  | beyond hmode =>
      exact ⟨text, List.prefix_rfl, Nat.le_add_right _ _, rfl, rfl, fun front hfront _ => hfront⟩

/-- What is found is found in a state of the search. -/
theorem ByteScan.exists_of_findInBytes {found : Nat}
    (h : findInBytes (utf8 text) keyword start scan = some found) :
    ∃ other b, Goes (utf8 text) keyword start scan other ∧
      other.finds (utf8 text) keyword start b = true := by
  induction scan using findInBytes.induct (utf8 text) keyword start with
  | case1 scan hbyte =>
      unfold findInBytes at h
      split at h
      · exact absurd h (by simp)
      · rename_i b hb
        rw [hbyte] at hb
        exact absurd hb (by simp)
  | case2 scan b hbyte hfinds => exact ⟨scan, b, .refl, hfinds⟩
  | case3 scan b hbyte hfinds ih =>
      have hstep : Step (utf8 text) keyword start scan (scan.next b) :=
        ⟨b, hbyte, Bool.eq_false_iff.mpr hfinds, rfl⟩
      rw [findInBytes_of_goes (.single hstep)] at h
      obtain ⟨other, b, hgoes, hfinds⟩ := ih h
      exact ⟨other, b, .head hstep hgoes, hfinds⟩

/-- At a quote outside quotes the search stands between two characters, and goes on inside quotes. -/
theorem goes_of_quote (hscan : ByteScan.Visits (utf8 text) keyword start scan)
    (hquote : (utf8 text)[scan.index]? = some '"'.toUInt8) (hout : scan.quoted = false) :
    ∃ before rest, text = before ++ '"' :: rest ∧ byteLength before = scan.index ∧
      (stateBehind (before ++ ['"'])).mode = .quoted ∧
      (stateBehind (before ++ ['"'])).depth = scan.depth ∧
      ByteScan.Goes (utf8 text) keyword start scan (.behind (before ++ ['"'])) := by
  obtain ⟨before, c, rest, htext, hindex, hc, hbyte⟩ := exists_of_low_byte hquote (by decide)
  obtain rfl : c = '"' := (toUInt8_eq_iff hc (by decide)).mp hbyte
  obtain ⟨passed, hpassed, hle, hdepth, hquoted, hmax⟩ := (Stands.of_visits hscan).exists_passed
  have hbefore : before <+: text := ⟨'"' :: rest, htext.symm⟩
  obtain rfl : before = passed :=
    (hmax before hbefore hindex.le).eq_of_length_le
      (prefix_of_byteLength_le hpassed hbefore (hindex ▸ hle)).length_le
  have hmode : (stateBehind before).mode = .outside := by
    rw [hout] at hquoted
    simpa using hquoted.symm
  have hopened : stateBehind (before ++ ['"']) = ⟨.quoted, scan.depth, '"'⟩ := by
    rw [stateBehind_concat, Scan.step, hmode, ← hdepth]
    rfl
  have hscanBehind : scan = .behind before := by
    rw [ByteScan.behind_of_ne (by simp [hmode]), hindex, ← hdepth, ← hquoted]
  refine ⟨before, rest, htext, hindex, by rw [hopened], by rw [hopened], hscanBehind ▸ ?_⟩
  exact goes_behind htext (fun _ _ => ByteScan.finds_of_isMark (by decide))
    fun hwide => absurd hc (Nat.not_lt_of_le hwide)

/-- At the quote that closes a value the search goes on outside quotes. -/
theorem goes_of_closing {before rest : List Char} (htext : text = before ++ '"' :: rest)
    (hmode : (stateBehind before).mode = .quoted) :
    ByteScan.Goes (utf8 text) keyword start (.behind before)
      ⟨byteLength before + 1, (stateBehind before).depth, false⟩ := by
  have hclosed : stateBehind (before ++ ['"']) = ⟨.outside, (stateBehind before).depth, '"'⟩ := by
    rw [stateBehind_concat, Scan.step, hmode]
    rfl
  have hgoes : ByteScan.Goes (utf8 text) keyword start (.behind before) (.behind (before ++ ['"'])) :=
    goes_behind htext (fun _ _ => ByteScan.finds_of_isMark (by decide))
      fun hwide => absurd hwide (by decide)
  have hbehind : ByteScan.behind (before ++ ['"']) =
      ⟨byteLength before + 1, (stateBehind before).depth, false⟩ := by
    rw [ByteScan.behind_of_ne (by simp [hclosed]), hclosed, byteLength_concat_of_lt before (by decide)]
    rfl
  rwa [hbehind] at hgoes

/-- The states of a search in a text whose every beginning is inside quotes. -/
theorem quoted_of_inside {before inner rest : List Char}
    (hother : ByteScan.Visits (utf8 text) keyword start other) (htext : text = before ++ (inner ++ rest))
    (hinside : (stateBehind before).Inside inner) (hfirst : byteLength before ≤ other.index)
    (hlast : rest = [] ∨ other.index ≤ byteLength (before ++ inner)) : other.quoted = true := by
  obtain ⟨passed, hpassed, hle, -, hquoted, hmax⟩ := (Stands.of_visits hother).exists_passed
  obtain ⟨more, rfl⟩ := hmax before ⟨inner ++ rest, htext.symm⟩ hfirst
  have hmore : more <+: inner := by
    have hend : before ++ inner <+: text := ⟨rest, by rw [htext, List.append_assoc]⟩
    refine (List.prefix_append_right_inj before).mp ?_
    rcases hlast with rfl | hlast
    · rwa [htext, List.append_nil] at hpassed
    · exact prefix_of_byteLength_le hpassed hend (Nat.le_trans hle hlast)
  rw [hquoted, bne_iff_ne]
  have := hinside more hmore
  rwa [stateBehind, ← Scan.run_append] at this

/-- At a quote that the search reaches outside quotes, it does what the reader of quoted values does.  It is
inside quotes in every state up to the quote that closes the value, and outside again right behind that quote.
If the value is not closed, it is inside quotes to the end and finds nothing. -/
theorem quotes_agree (hscan : ByteScan.Visits (utf8 text) keyword start scan)
    (hquote : (utf8 text)[scan.index]? = some '"'.toUInt8) (hout : scan.quoted = false) :
    ∃ rest, BeginsAt text scan.index ('"' :: rest) ∧
      match Quoted.decode rest with
      | some (_, after) =>
          let stop := offsetIn (byteLength text) after
          (∀ other, ByteScan.Visits (utf8 text) keyword start other → scan.index < other.index →
            other.index < stop → other.quoted = true) ∧
          ByteScan.Visits (utf8 text) keyword start ⟨stop, scan.depth, false⟩
      | none =>
          (∀ other, ByteScan.Visits (utf8 text) keyword start other → scan.index < other.index →
            other.quoted = true) ∧
          findInBytes (utf8 text) keyword start .first = none := by
  obtain ⟨before, rest, htext, hindex, hmode, hdepth, hgoes⟩ := goes_of_quote hscan hquote hout
  refine ⟨rest, ⟨before, htext, hindex⟩, ?_⟩
  have hopened : byteLength (before ++ ['"']) = scan.index + 1 := by
    rw [byteLength_concat_of_lt before (by decide), hindex]
  have hcut : text = (before ++ ['"']) ++ rest := by rw [htext]; simp
  have hvalue : Scan.InValue (stateBehind (before ++ ['"'])) rest := .inl hmode
  have hreached := hscan.trans hgoes
  -- From here on only the state behind the opening quote counts.
  generalize before ++ ['"'] = opened at hmode hdepth hopened hcut hvalue hreached
  split
  · rename_i value after hdecode
    obtain ⟨inner, rfl, hinside, hclosing, hsame⟩ := hvalue.inside_of_some hdecode
    rw [stateBehind, ← Scan.run_append] at hclosing hsame
    have hclosed : text = (opened ++ inner) ++ '"' :: after := by rw [hcut, List.append_assoc]
    have hstop : offsetIn (byteLength text) after = byteLength (opened ++ inner) + 1 := by
      rw [offsetIn, hclosed, byteLength_append, byteLength_cons,
        show '"'.utf8Size = 1 by decide]
      omega
    dsimp only
    rw [hstop]
    refine ⟨fun other hother hfirst hlast => ?_, ?_⟩
    · exact quoted_of_inside hother hcut hinside (by omega) (.inr (Nat.le_of_lt_succ hlast))
    · have hend := (hreached.trans (goes_in_quotes hcut hinside)).trans (goes_of_closing hclosed hclosing)
      rwa [show (stateBehind (opened ++ inner)).depth = scan.depth from hsame.trans hdepth] at hend
  · rename_i hdecode
    have hinside := hvalue.inside_of_none hdecode
    have hwhole : text = opened ++ (rest ++ []) := by rw [hcut, List.append_nil]
    have hall : ∀ other, ByteScan.Visits (utf8 text) keyword start other → scan.index < other.index →
        other.quoted = true := fun other hother hfirst =>
      quoted_of_inside hother hwhole hinside (by omega) (.inl rfl)
    refine ⟨hall, Option.eq_none_iff_forall_ne_some.mpr fun found hfound => ?_⟩
    rw [ByteScan.findInBytes_of_goes hreached] at hfound
    obtain ⟨other, b, hother, hfinds⟩ := ByteScan.exists_of_findInBytes hfound
    have hlt : scan.index < other.index := by
      have hle := ByteScan.index_le_of_goes hother
      rw [ByteScan.behind_of_ne (by rw [hmode]; decide)] at hle
      exact Nat.lt_of_lt_of_le (Nat.lt_of_succ_le hopened.ge) hle
    rw [ByteScan.finds_of_quoted b (hall other (hreached.trans hother) hlt)] at hfinds
    exact Bool.noConfusion hfinds

/-- A backslash that escapes nothing stands before a character of two bytes, and the search steps into the
middle of it.  The keyword in the value is passed over. -/
theorem quotes_agree_inside_character :
    let text := "k \"a\\é true:\" true: b".toList
    let keyword := utf8 Conditional.trueKeyword
    ByteScan.Visits (utf8 text) keyword 0 ⟨2, 0, false⟩ ∧ (utf8 text)[2]? = some '"'.toUInt8 ∧
      Quoted.decode (text.drop 3) = some ("a\\é true:".toList, " true: b".toList) ∧
      (∀ other, ByteScan.Visits (utf8 text) keyword 0 other → 2 < other.index → other.index < 14 →
        other.quoted = true) ∧
      ByteScan.Visits (utf8 text) keyword 0 ⟨14, 0, false⟩ := by
  intro text keyword
  have hvisit : ByteScan.Visits (utf8 text) keyword 0 ⟨2, 0, false⟩ :=
    .tail (.single ⟨_, rfl, by decide, rfl⟩) ⟨_, rfl, by decide, rfl⟩
  have hquote : (utf8 text)[2]? = some '"'.toUInt8 := by decide
  have hdecode : Quoted.decode (text.drop 3) = some ("a\\é true:".toList, " true: b".toList) := by decide
  obtain ⟨rest, hbegins, hagree⟩ := quotes_agree hvisit hquote rfl
  obtain rfl : rest = text.drop 3 := by
    have hhere : BeginsAt text 2 ('"' :: text.drop 3) := ⟨"k ".toList, by decide, by decide⟩
    exact (List.cons.inj (hbegins.unique hhere)).2
  rw [hdecode] at hagree
  exact ⟨hvisit, hquote, hdecode, hagree⟩

end Search

end MenuActions.Grammar.TopLevel
