import MenuActions.Grammar.TopLevel
import MenuActions.Proofs.Grammar.ErrorPosition
import MenuActions.Proofs.Text.Utf8
import Mathlib.Logic.Relation

/-!
# Searching for a keyword in bytes

The same search as that of `TopLevel.findKeyword`, on the bytes of a text.  Inside quotes it passes two bytes
at a backslash, whatever the second one is: it may be the first byte of a longer character, or there may be
none.

`Stands` says where such a search can be with respect to the characters: between two of them, inside one
whose bytes are all 128 or more, or beyond the end.  `Stands.step` carries this over a step, and the state of
the scan over characters is what ties both together.
-/

namespace MenuActions.Grammar.TopLevel

open Text

/-! ## The search -/

/-- Where a search stands: at which byte, inside how many brackets, and whether inside quotes. -/
structure ByteScan where
  index : Nat
  depth : Nat
  quoted : Bool
  deriving DecidableEq, Repr

/-- The bytes that the search acts on outside quotes. -/
def isMark (b : UInt8) : Bool :=
  ['"', '[', '{', ']', '}'].any fun c => b == c.toUInt8

/-- Whether a keyword can begin behind this byte. -/
def endsWordByte (b : UInt8) : Bool :=
  [' ', '\t', '\n', '\r', '"', ']', '}'].any fun c => b == c.toUInt8

/-- An ASCII letter in lower case. -/
def lowerByte (b : UInt8) : UInt8 :=
  if 'A'.toUInt8 ≤ b ∧ b ≤ 'Z'.toUInt8 then b + 32 else b

namespace ByteScan

/-- The start of every search. -/
def first : ByteScan :=
  ⟨0, 0, false⟩

/-- The state behind a byte, or behind two if the byte is a backslash in quotes. -/
def next (scan : ByteScan) (b : UInt8) : ByteScan :=
  if scan.quoted then
    if b = '\\'.toUInt8 then ⟨scan.index + 2, scan.depth, true⟩
    else if b = '"'.toUInt8 then ⟨scan.index + 1, scan.depth, false⟩
    else ⟨scan.index + 1, scan.depth, true⟩
  else if b = '"'.toUInt8 then ⟨scan.index + 1, scan.depth, true⟩
  else if b = '['.toUInt8 ∨ b = '{'.toUInt8 then ⟨scan.index + 1, scan.depth + 1, false⟩
  else if b = ']'.toUInt8 ∨ b = '}'.toUInt8 then ⟨scan.index + 1, scan.depth - 1, false⟩
  else ⟨scan.index + 1, scan.depth, false⟩

/-- Whether the keyword is found where the search stands, `b` being the byte there. -/
def finds (bytes keyword : List UInt8) (start : Nat) (scan : ByteScan) (b : UInt8) : Bool :=
  !scan.quoted && !isMark b && scan.depth == 0 && decide (start ≤ scan.index) &&
    decide (keyword.length ≤ bytes.length - scan.index) &&
    ((bytes.drop scan.index).take keyword.length).map lowerByte == keyword.map lowerByte &&
    (scan.index == 0 || (bytes[scan.index - 1]?).any endsWordByte)

theorem index_lt_next (scan : ByteScan) (b : UInt8) : scan.index < (scan.next b).index := by
  unfold next
  repeat' split
  all_goals exact Nat.lt_add_of_pos_right (by decide)

/-- The search goes on from one state to the next. -/
def Step (bytes keyword : List UInt8) (start : Nat) (scan after : ByteScan) : Prop :=
  ∃ b, bytes[scan.index]? = some b ∧ scan.finds bytes keyword start b = false ∧ after = scan.next b

/-- The search goes on from one state to another, in any number of steps. -/
abbrev Goes (bytes keyword : List UInt8) (start : Nat) : ByteScan → ByteScan → Prop :=
  Relation.ReflTransGen (Step bytes keyword start)

/-- The states in which the search is, one after the other. -/
abbrev Visits (bytes keyword : List UInt8) (start : Nat) : ByteScan → Prop :=
  Goes bytes keyword start first

end ByteScan

/-- Where the keyword is found first, from a state on and not in front of `start`. -/
def findInBytes (bytes keyword : List UInt8) (start : Nat) (scan : ByteScan) : Option Nat :=
  match _h : bytes[scan.index]? with
  | none => none
  | some b =>
      if scan.finds bytes keyword start b then some scan.index
      else findInBytes bytes keyword start (scan.next b)
termination_by bytes.length - scan.index
decreasing_by
  have hlt := (List.getElem?_eq_some_iff.mp _h).1
  have hnext := scan.index_lt_next b
  omega

namespace ByteScan

variable {bytes keyword : List UInt8} {start : Nat} {scan other after : ByteScan}

theorem findInBytes_of_finds {b : UInt8} (hbyte : bytes[scan.index]? = some b)
    (h : scan.finds bytes keyword start b = true) :
    findInBytes bytes keyword start scan = some scan.index := by
  unfold findInBytes
  split
  · rename_i hnone
    rw [hbyte] at hnone
    exact absurd hnone (by simp)
  · rename_i found hfound
    rw [hbyte, Option.some.injEq] at hfound
    rw [← hfound, if_pos h]

theorem findInBytes_of_goes (h : Goes bytes keyword start scan other) :
    findInBytes bytes keyword start scan = findInBytes bytes keyword start other := by
  induction h with
  | refl => rfl
  | tail _ hstep ih =>
      obtain ⟨b, hbyte, hfinds, rfl⟩ := hstep
      rw [ih]
      conv_lhs => unfold findInBytes
      split
      · rename_i hnone
        rw [hbyte] at hnone
        exact absurd hnone (by simp)
      · rename_i found hfound
        rw [hbyte, Option.some.injEq] at hfound
        rw [← hfound, hfinds]
        rfl

theorem index_le_of_goes (h : Goes bytes keyword start scan other) : scan.index ≤ other.index := by
  induction h with
  | refl => exact Nat.le_refl _
  | tail _ hstep ih =>
      obtain ⟨b, -, -, rfl⟩ := hstep
      exact Nat.le_trans ih (Nat.le_of_lt (index_lt_next _ b))

theorem finds_of_quoted (b : UInt8) (h : scan.quoted = true) :
    scan.finds bytes keyword start b = false := by
  simp [finds, h]

theorem finds_of_isMark {b : UInt8} (h : isMark b = true) :
    scan.finds bytes keyword start b = false := by
  simp [finds, h]

/-- What a byte of a longer character does. -/
theorem next_of_le {b : UInt8} (h : 128 ≤ b.toNat) :
    scan.next b = ⟨scan.index + 1, scan.depth, scan.quoted⟩ := by
  have hne : ∀ c : Char, c.toNat < 128 → b ≠ c.toUInt8 := by
    rintro c hc rfl
    rw [toNat_toUInt8 hc] at h
    omega
  unfold next
  cases hquoted : scan.quoted <;> simp [hne]

end ByteScan

/-! ## The scan over characters -/

/-- The state of a scan behind a text. -/
def Scan.run (scan : Scan) (text : List Char) : Scan :=
  text.foldl Scan.step scan

@[simp] theorem Scan.run_nil (scan : Scan) : scan.run [] = scan := rfl

@[simp] theorem Scan.run_cons (scan : Scan) (c : Char) (s : List Char) :
    scan.run (c :: s) = (scan.step c).run s := rfl

@[simp] theorem Scan.run_append (scan : Scan) (s t : List Char) :
    scan.run (s ++ t) = (scan.run s).run t :=
  List.foldl_append

@[simp] theorem Scan.previous_step (scan : Scan) (c : Char) : (scan.step c).previous = c := by
  unfold Scan.step
  repeat' split
  all_goals rfl

/-- A character of several bytes only ends an escape. -/
theorem Scan.step_of_le (scan : Scan) {c : Char} (h : 128 ≤ c.toNat) :
    (scan.step c).depth = scan.depth ∧ (scan.step c).mode ≠ .escaped ∧
      ((scan.step c).mode = .outside ↔ scan.mode = .outside) := by
  have hne : ∀ d : Char, d.toNat < 128 → c ≠ d := by
    rintro d hd rfl
    omega
  unfold Scan.step
  split <;> rename_i hmode <;> simp [hne, hmode]

/-- The state of the scan over characters behind the beginning of a text. -/
def stateBehind (before : List Char) : Scan :=
  (Scan.start ' ').run before

@[simp] theorem stateBehind_concat (before : List Char) (c : Char) :
    stateBehind (before ++ [c]) = (stateBehind before).step c :=
  Scan.run_append _ _ _

/-- The state in which the search on bytes goes on behind the beginning of a text.  Behind a backslash in
quotes it has passed one byte more. -/
def ByteScan.behind (before : List Char) : ByteScan :=
  ⟨byteLength before + if (stateBehind before).mode = .escaped then 1 else 0,
    (stateBehind before).depth, (stateBehind before).mode != .outside⟩

theorem ByteScan.behind_nil : ByteScan.behind [] = .first := rfl

section Behind

variable {before rest : List Char} {c : Char}

theorem ByteScan.behind_of_ne (h : (stateBehind before).mode ≠ .escaped) :
    ByteScan.behind before =
      ⟨byteLength before, (stateBehind before).depth, (stateBehind before).mode != .outside⟩ := by
  rw [behind, if_neg h, Nat.add_zero]

theorem byteLength_concat_of_lt (before : List Char) (hc : c.toNat < 128) :
    byteLength (before ++ [c]) = byteLength before + 1 := by
  rw [byteLength_append, byteLength_cons, byteLength_nil, utf8Size_eq_one_iff.mpr hc]

theorem ByteScan.behind_of_escaped (h : (stateBehind before).mode = .escaped) :
    ByteScan.behind before =
      ⟨byteLength before + 1, (stateBehind before).depth, (stateBehind before).mode != .outside⟩ := by
  rw [behind, if_pos h]

/-- A byte that is a character of its own moves both scans in the same way. -/
theorem ByteScan.next_behind (hc : c.toNat < 128) (h : (stateBehind before).mode ≠ .escaped) :
    (ByteScan.behind before).next c.toUInt8 = ByteScan.behind (before ++ [c]) := by
  have hmark : ∀ d : Char, d.toNat < 128 → (c.toUInt8 = d.toUInt8 ↔ c = d) := fun d hd =>
    toUInt8_eq_iff hc hd
  rw [behind_of_ne h, behind, stateBehind_concat, byteLength_concat_of_lt before hc]
  unfold next Scan.step
  cases hmode : (stateBehind before).mode with
  | escaped => exact absurd hmode h
  | outside =>
      simp only [hmark '"' (by decide), hmark '[' (by decide), hmark '{' (by decide),
        hmark ']' (by decide), hmark '}' (by decide)]
      repeat' split
      all_goals simp_all
  | quoted =>
      simp only [hmark '"' (by decide), hmark '\\' (by decide)]
      repeat' split
      all_goals simp_all

/-- Inside a longer character both scans only go on, and its end is the end of an escape. -/
theorem ByteScan.behind_concat_of_le (before : List Char) (hc : 128 ≤ c.toNat) :
    ByteScan.behind (before ++ [c]) =
      ⟨byteLength before + c.utf8Size, (stateBehind before).depth,
        (stateBehind before).mode != .outside⟩ := by
  obtain ⟨hdepth, hescaped, houtside⟩ := (stateBehind before).step_of_le hc
  have hmode : ((stateBehind before).step c).mode != .outside ↔
      (stateBehind before).mode != .outside := by
    simp only [bne_iff_ne, ne_eq, houtside]
  rw [behind_of_ne (by rw [stateBehind_concat]; exact hescaped), stateBehind_concat, hdepth,
    Bool.eq_iff_iff.mpr hmode]
  simp

/-- An escaped character of one byte has been passed with its backslash. -/
theorem ByteScan.behind_concat_of_escaped (hc : c.toNat < 128)
    (h : (stateBehind before).mode = .escaped) :
    ByteScan.behind (before ++ [c]) = ByteScan.behind before := by
  have hstep : (stateBehind before).step c = ⟨.quoted, (stateBehind before).depth, c⟩ := by
    unfold Scan.step
    rw [h]
  rw [behind_of_escaped h, behind, stateBehind_concat, hstep, h, byteLength_concat_of_lt before hc]
  rfl

end Behind

/-! ## Where a search can be -/

/-- Where a search on the bytes of a text can be: between two characters, inside a character of several
bytes, or beyond a backslash with which the text ends. -/
inductive Stands (text : List Char) : ByteScan → Prop
  | between {before rest : List Char} : text = before ++ rest →
      (stateBehind before).mode ≠ .escaped → Stands text (.behind before)
  | inside {before rest : List Char} {c : Char} {n : Nat} : text = before ++ c :: rest →
      128 ≤ c.toNat → 0 < n → n < c.utf8Size →
      Stands text ⟨byteLength before + n, (stateBehind before).depth,
        (stateBehind before).mode != .outside⟩
  | beyond : (stateBehind text).mode = .escaped → Stands text (.behind text)

theorem two_le_utf8Size {c : Char} (h : 128 ≤ c.toNat) : 2 ≤ c.utf8Size := by
  have hpos := c.utf8Size_pos
  have hone : c.utf8Size ≠ 1 := fun hone => by
    have := utf8Size_eq_one_iff.mp hone
    omega
  omega

theorem stands_behind {text before rest : List Char} (htext : text = before ++ rest) :
    Stands text (.behind before) := by
  by_cases hmode : (stateBehind before).mode = .escaped
  · cases rest with
    | nil =>
        rw [List.append_nil] at htext
        exact htext ▸ .beyond (htext ▸ hmode)
    | cons c rest =>
        rcases Nat.lt_or_ge c.toNat 128 with hc | hc
        · have hbehind : text = before ++ [c] ++ rest := by rw [htext]; simp
          have hnext : (stateBehind (before ++ [c])).mode ≠ .escaped := by
            rw [stateBehind_concat]
            unfold Scan.step
            rw [hmode]
            simp
          rw [← ByteScan.behind_concat_of_escaped hc hmode]
          exact .between hbehind hnext
        · have hsize := two_le_utf8Size hc
          rw [ByteScan.behind_of_escaped hmode]
          exact .inside htext hc Nat.one_pos hsize
  · exact .between htext hmode

/-- A search is never anywhere else. -/
theorem Stands.step {text : List Char} {keyword : List UInt8} {start : Nat} {scan after : ByteScan}
    (h : Stands text scan) (hstep : ByteScan.Step (utf8 text) keyword start scan after) :
    Stands text after := by
  obtain ⟨b, hbyte, -, rfl⟩ := hstep
  cases h with
  | @between before rest htext hmode =>
      rw [ByteScan.behind_of_ne hmode, htext] at hbyte
      cases rest with
      | nil =>
          rw [List.append_nil, ← length_utf8, List.getElem?_eq_none (Nat.le_refl _)] at hbyte
          exact absurd hbyte (by simp)
      | cons c rest =>
          rcases Nat.lt_or_ge c.toNat 128 with hc | hc
          · have hbehind : text = before ++ [c] ++ rest := by rw [htext]; simp
            rw [getElem?_utf8_of_lt before rest hc, Option.some.injEq] at hbyte
            rw [← hbyte, ByteScan.next_behind hc hmode]
            exact stands_behind hbehind
          · obtain ⟨d, hd, hle⟩ := getElem?_utf8_of_le before rest hc c.utf8Size_pos
            rw [Nat.add_zero, hbyte, Option.some.injEq] at hd
            rw [hd, ByteScan.behind_of_ne hmode, ByteScan.next_of_le hle]
            exact .inside htext hc Nat.one_pos (two_le_utf8Size hc)
  | @inside before rest c n htext hc hpos hlt =>
      obtain ⟨d, hd, hle⟩ := getElem?_utf8_of_le before rest hc hlt
      rw [htext] at hbyte
      obtain rfl : d = b := Option.some.inj (hd.symm.trans hbyte)
      rw [ByteScan.next_of_le hle]
      by_cases hend : n + 1 = c.utf8Size
      · have htextBehind : text = before ++ [c] ++ rest := by rw [htext]; simp
        have hbehind := ByteScan.behind_concat_of_le before hc
        rw [← hend] at hbehind
        exact hbehind ▸ stands_behind htextBehind
      · exact .inside htext hc (Nat.succ_pos n) (by omega)
  | beyond hmode =>
      have hend : (utf8 text)[byteLength text + 1]? = none :=
        List.getElem?_eq_none (by rw [length_utf8]; exact Nat.le_add_right _ 1)
      rw [ByteScan.behind_of_escaped hmode, hend] at hbyte
      exact absurd hbyte (by simp)

theorem Stands.of_visits {text : List Char} {keyword : List UInt8} {start : Nat} {scan : ByteScan}
    (h : ByteScan.Visits (utf8 text) keyword start scan) : Stands text scan := by
  induction h with
  | refl => exact ByteScan.behind_nil ▸ stands_behind (List.nil_append text).symm
  | tail _ hstep ih => exact ih.step hstep

/-- A scan is inside quotes from where it stands to the end of a text. -/
def Scan.Inside (scan : Scan) (text : List Char) : Prop :=
  ∀ passed, passed <+: text → (scan.run passed).mode ≠ .outside

theorem Scan.inside_nil {scan : Scan} : scan.Inside [] ↔ scan.mode ≠ .outside := by
  simp [Scan.Inside]

theorem Scan.inside_cons {scan : Scan} {c : Char} {s : List Char} :
    scan.Inside (c :: s) ↔ scan.mode ≠ .outside ∧ (scan.step c).Inside s := by
  constructor
  · intro h
    exact ⟨h [] List.nil_prefix, fun passed hpassed =>
      h (c :: passed) (List.cons_prefix_cons.mpr ⟨rfl, hpassed⟩)⟩
  · rintro ⟨hmode, h⟩ passed hpassed
    rcases List.prefix_cons_iff.mp hpassed with rfl | ⟨more, rfl, hmore⟩
    · exact hmode
    · exact h more hmore

/-! ## Going on over characters -/

section Going

variable {text before rest : List Char} {keyword : List UInt8} {start : Nat}

/-- The search goes through a character of several bytes, from any byte of it on. -/
theorem goes_through {c : Char} {depth n : Nat} {quoted : Bool} (htext : text = before ++ c :: rest)
    (hc : 128 ≤ c.toNat) (hn : n ≤ c.utf8Size)
    (hpass : ∀ (m : Nat) (b : UInt8), (utf8 text)[byteLength before + m]? = some b → 128 ≤ b.toNat →
      ByteScan.finds (utf8 text) keyword start ⟨byteLength before + m, depth, quoted⟩ b = false) :
    ByteScan.Goes (utf8 text) keyword start ⟨byteLength before + n, depth, quoted⟩
      ⟨byteLength before + c.utf8Size, depth, quoted⟩ := by
  -- The induction is on the number of bytes that are left.
  obtain ⟨left, hleft⟩ := Nat.exists_eq_add_of_le hn
  induction left generalizing n with
  | zero =>
      rw [hleft, Nat.add_zero]
  | succ left ih =>
      obtain ⟨b, hb, hle⟩ := getElem?_utf8_of_le before rest hc
        (show n < c.utf8Size by omega)
      rw [← htext] at hb
      refine .head ⟨b, hb, hpass n b hb hle, (ByteScan.next_of_le hle).symm⟩ ?_
      exact ih (n := n + 1) (by omega) (by omega)

/-- The search goes on behind a character at which it does not find the keyword. -/
theorem goes_behind {c : Char} (htext : text = before ++ c :: rest)
    (hlow : c.toNat < 128 → (stateBehind before).mode = .outside →
      ByteScan.finds (utf8 text) keyword start (.behind before) c.toUInt8 = false)
    (hhigh : 128 ≤ c.toNat → (stateBehind before).mode = .outside → ∀ (scan : ByteScan) (b : UInt8),
      (utf8 text)[scan.index]? = some b → 128 ≤ b.toNat →
      scan.finds (utf8 text) keyword start b = false) :
    ByteScan.Goes (utf8 text) keyword start (.behind before) (.behind (before ++ [c])) := by
  have hquoted : (stateBehind before).mode ≠ .outside →
      ((stateBehind before).mode != .outside) = true := bne_iff_ne.mpr
  rcases Nat.lt_or_ge c.toNat 128 with hc | hc
  · by_cases hmode : (stateBehind before).mode = .escaped
    · rw [ByteScan.behind_concat_of_escaped hc hmode]
    · refine .single ⟨c.toUInt8, ?_, ?_, (ByteScan.next_behind hc hmode).symm⟩
      · rw [ByteScan.behind_of_ne hmode, htext]
        exact getElem?_utf8_of_lt before rest hc
      · by_cases houtside : (stateBehind before).mode = .outside
        · exact hlow hc houtside
        · exact ByteScan.finds_of_quoted _ (hquoted houtside)
  · have hpass : ∀ (m : Nat) (b : UInt8), (utf8 text)[byteLength before + m]? = some b →
        128 ≤ b.toNat → ByteScan.finds (utf8 text) keyword start
          ⟨byteLength before + m, (stateBehind before).depth, (stateBehind before).mode != .outside⟩ b =
          false := by
      intro m b hbyte hle
      by_cases houtside : (stateBehind before).mode = .outside
      · exact hhigh hc houtside _ b hbyte hle
      · exact ByteScan.finds_of_quoted _ (hquoted houtside)
    rw [ByteScan.behind_concat_of_le before hc]
    by_cases hmode : (stateBehind before).mode = .escaped
    · rw [ByteScan.behind_of_escaped hmode]
      exact goes_through htext hc c.utf8Size_pos hpass
    · rw [ByteScan.behind_of_ne hmode]
      exact goes_through htext hc (Nat.zero_le _) hpass

/-- The search goes through a text inside quotes, whatever the keyword is. -/
theorem goes_in_quotes {inner : List Char} (htext : text = before ++ (inner ++ rest))
    (h : (stateBehind before).Inside inner) :
    ByteScan.Goes (utf8 text) keyword start (.behind before) (.behind (before ++ inner)) := by
  induction inner generalizing before with
  | nil => rw [List.append_nil]
  | cons c inner ih =>
      obtain ⟨hhere, hinner⟩ := Scan.inside_cons.mp h
      have hgoes : ByteScan.Goes (utf8 text) keyword start (.behind before) (.behind (before ++ [c])) :=
        goes_behind htext (fun _ houtside => absurd houtside hhere)
          fun _ houtside => absurd houtside hhere
      rw [← stateBehind_concat] at hinner
      have hrest := ih (by rw [htext]; simp) hinner
      rw [List.append_assoc] at hrest
      exact hgoes.trans hrest

end Going

end MenuActions.Grammar.TopLevel
