import MenuActions.Grammar.Conditional
import MenuActions.Proofs.Grammar.ByteSearch
import MenuActions.Proofs.Grammar.ConditionTerms
import MenuActions.Proofs.Text.LowerCase
import Mathlib.Data.List.Induction

/-!
# Keywords in bytes

The search on bytes finds a keyword where the search on characters finds it (`findInBytes_eq`).  Keywords are
of ASCII, so that a byte of a longer character is never a part of one, nor of what may stand in front of one.
-/

namespace MenuActions.Grammar.TopLevel

open Text

/-- What a keyword is made of: ASCII characters that are no quotes and no brackets, one at least. -/
structure IsWord (keyword : List Char) : Prop where
  ne_nil : keyword ≠ []
  ascii : IsAscii keyword
  unmarked : ∀ k ∈ keyword, k ∉ ['"', '[', '{', ']', '}']

instance (keyword : List Char) : Decidable (IsWord keyword) :=
  decidable_of_iff (keyword ≠ [] ∧ IsAscii keyword ∧ keyword.all (· ∉ ['"', '[', '{', ']', '}']))
    ⟨fun ⟨hne, hascii, hmarks⟩ => ⟨hne, hascii, List.all_iff_forall_prop.mp hmarks⟩,
      fun h => ⟨h.ne_nil, h.ascii, List.all_iff_forall_prop.mpr h.unmarked⟩⟩

/-! ## Bytes and characters of a keyword -/

theorem toNat_toLower_lt {c : Char} (h : c.toNat < 128) : c.toLower.toNat < 128 := by
  rcases toLower_cases c with ⟨-, hlast, hlower⟩ | ⟨-, hlower⟩
  · omega
  · rwa [hlower]

theorem toLower_of_le {c : Char} (h : 128 ≤ c.toNat) : c.toLower = c := by
  rcases toLower_cases c with ⟨-, hupper, -⟩ | ⟨-, hlower⟩
  · omega
  · exact hlower

/-- A keyword of ASCII is as long in any letter case. -/
theorem byteLength_of_same {keyword written : List Char} (h : IsAscii keyword)
    (hsame : sameIgnoringCase written keyword = true) : byteLength written = byteLength keyword := by
  have hlower : written.map Char.toLower = keyword.map Char.toLower := by
    simpa [sameIgnoringCase] using hsame
  have hwritten : IsAscii written := by
    intro c hc
    obtain ⟨k, hk, heq⟩ := List.mem_map.mp (hlower ▸ List.mem_map_of_mem hc)
    by_contra hwide
    have hlow := toNat_toLower_lt (h k hk)
    rw [heq, toLower_of_le (Nat.le_of_not_lt hwide)] at hlow
    exact hwide hlow
  rw [hwritten.byteLength_eq, h.byteLength_eq, ← List.length_map Char.toLower, hlower,
    List.length_map]

theorem lowerByte_toUInt8 {c : Char} (h : c.toNat < 128) :
    lowerByte c.toUInt8 = c.toLower.toUInt8 := by
  have hupper : ('A'.toUInt8 ≤ c.toUInt8 ∧ c.toUInt8 ≤ 'Z'.toUInt8) ↔
      65 ≤ c.toNat ∧ c.toNat ≤ 90 := by
    rw [UInt8.le_iff_toNat_le, UInt8.le_iff_toNat_le, toNat_toUInt8 h]
    rfl
  rw [← UInt8.toNat_inj, toNat_toUInt8 (toNat_toLower_lt h), lowerByte]
  rcases toLower_cases c with ⟨hfirst, hlast, hlower⟩ | ⟨hother, hlower⟩
  · rw [if_pos (hupper.mpr ⟨hfirst, hlast⟩), UInt8.toNat_add, toNat_toUInt8 h, hlower]
    have : (32 : UInt8).toNat = 32 := rfl
    omega
  · rw [if_neg (fun hall => hother (hupper.mp hall)), toNat_toUInt8 h, hlower]

theorem lowerByte_of_le {b : UInt8} (h : 128 ≤ b.toNat) : lowerByte b = b := by
  rw [lowerByte, if_neg]
  rintro ⟨-, hlast⟩
  have hle : b.toNat ≤ 90 := UInt8.le_iff_toNat_le.mp hlast
  omega

/-- A byte of a longer character is no letter of a keyword. -/
theorem lowerByte_ne {b : UInt8} {k : Char} (hb : 128 ≤ b.toNat) (hk : k.toNat < 128) :
    lowerByte b ≠ lowerByte k.toUInt8 := by
  rw [lowerByte_of_le hb, lowerByte_toUInt8 hk]
  rintro rfl
  rw [toNat_toUInt8 (toNat_toLower_lt hk)] at hb
  have := toNat_toLower_lt hk
  omega

/-- Whether a text begins with a keyword shows in the bytes of both. -/
theorem beginsWith_utf8 {keyword s : List Char} (h : IsAscii keyword) :
    (decide ((utf8 keyword).length ≤ (utf8 s).length) &&
      (((utf8 s).take (utf8 keyword).length).map lowerByte == (utf8 keyword).map lowerByte)) =
      (afterKeyword keyword s).isSome := by
  induction keyword generalizing s with
  | nil => simp [afterKeyword]
  | cons k keyword ih =>
      obtain ⟨hk, hkeyword⟩ := List.forall_mem_cons.mp h
      rw [utf8_cons, utf8EncodeChar_of_lt hk]
      cases s with
      | nil => simp [afterKeyword]
      | cons c s =>
          rw [afterKeyword]
          rcases Nat.lt_or_ge c.toNat 128 with hc | hc
          · have hletter : lowerByte c.toUInt8 = lowerByte k.toUInt8 ↔ k.toLower = c.toLower := by
              rw [lowerByte_toUInt8 hc, lowerByte_toUInt8 hk,
                toUInt8_eq_iff (toNat_toLower_lt hc) (toNat_toLower_lt hk)]
              exact eq_comm
            rw [utf8_cons, utf8EncodeChar_of_lt hc]
            by_cases hsame : k.toLower = c.toLower
            · rw [if_pos hsame, ← ih hkeyword]
              simp [hletter.mpr hsame]
            · rw [if_neg hsame]
              simp [mt hletter.mp hsame]
          · have hother : k.toLower ≠ c.toLower := by
              rw [toLower_of_le hc]
              intro heq
              have := toNat_toLower_lt hk
              rw [heq] at this
              omega
            obtain ⟨b, more, hencode, hb⟩ := exists_byte_of_le hc
            rw [if_neg hother, utf8_cons, hencode]
            simp [lowerByte_ne hb hk]

theorem any_toUInt8 {marks : List Char} {c : Char} (hc : c.toNat < 128)
    (hmarks : IsAscii marks) :
    (marks.any fun d => c.toUInt8 == d.toUInt8) = marks.any fun d => c == d := by
  rw [Bool.eq_iff_iff, List.any_eq_true, List.any_eq_true]
  refine exists_congr fun d => and_congr_right fun hd => ?_
  rw [beq_iff_eq, beq_iff_eq, toUInt8_eq_iff hc (hmarks d hd)]

theorem any_of_le {marks : List Char} {b : UInt8} (hb : 128 ≤ b.toNat)
    (hmarks : IsAscii marks) : (marks.any fun d => b == d.toUInt8) = false := by
  rw [List.any_eq_false]
  intro d hd heq
  rw [beq_iff_eq] at heq
  rw [heq, toNat_toUInt8 (hmarks d hd)] at hb
  have := hmarks d hd
  omega

theorem endsWord_eq_any (c : Char) :
    endsWord c = [' ', '\t', '\n', '\r', '"', ']', '}'].any fun d => c == d := by
  simp [endsWord, isLineBreak, Bool.or_assoc]

/-- What stands in front of a place shows in the byte in front of it. -/
theorem endsWordByte_behind (before : List Char) (rest : List Char) :
    (byteLength before == 0 || ((utf8 (before ++ rest))[byteLength before - 1]?).any endsWordByte) =
      endsWord (stateBehind before).previous := by
  induction before using List.reverseRecOn with
  | nil => rfl
  | append_singleton before c _ =>
      have hprevious : (stateBehind (before ++ [c])).previous = c := by
        rw [stateBehind_concat, Scan.previous_step]
      have hpos : (byteLength (before ++ [c]) == 0) = false := by
        have := one_le_byteLength (s := before ++ [c]) (by simp)
        simp only [beq_eq_false_iff_ne]
        omega
      have hindex : byteLength (before ++ [c]) - 1 = byteLength before + (c.utf8Size - 1) := by
        have := c.utf8Size_pos
        rw [byteLength_append, byteLength_cons, byteLength_nil]
        omega
      rw [hprevious, hpos, Bool.false_or, hindex, List.append_assoc, List.singleton_append]
      rcases Nat.lt_or_ge c.toNat 128 with hc | hc
      · rw [utf8Size_eq_one_iff.mpr hc, Nat.sub_self, Nat.add_zero, getElem?_utf8_of_lt before rest hc,
          Option.any_some, endsWordByte, any_toUInt8 hc (by decide), endsWord_eq_any]
      · -- The last byte of a longer character is none of the bytes in question, nor is the character.
        obtain ⟨b, hb, hle⟩ := getElem?_utf8_of_le before rest hc
          (Nat.sub_lt c.utf8Size_pos Nat.one_pos)
        rw [hb, Option.any_some, endsWordByte, any_of_le hle (by decide), endsWord_eq_any]
        symm
        rw [List.any_eq_false]
        intro d hd heq
        rw [beq_iff_eq] at heq
        have hlow : IsAscii [' ', '\t', '\n', '\r', '"', ']', '}'] := by decide
        have := hlow d hd
        rw [← heq] at this
        omega

/-! ## Both searches -/

section Search

variable {text before rest keyword : List Char} {start : Nat}

/-- Where a byte of a longer character stands, no keyword is found. -/
theorem finds_of_le {scan : ByteScan} {b : UInt8} (hkeyword : IsWord keyword)
    (hbyte : (utf8 text)[scan.index]? = some b) (hb : 128 ≤ b.toNat) :
    scan.finds (utf8 text) (utf8 keyword) start b = false := by
  obtain ⟨k, more, rfl⟩ := List.exists_cons_of_ne_nil hkeyword.ne_nil
  have hk := hkeyword.ascii k List.mem_cons_self
  obtain ⟨hlt, hget⟩ := List.getElem?_eq_some_iff.mp hbyte
  have hdrop : (utf8 text).drop scan.index = b :: (utf8 text).drop (scan.index + 1) := by
    rw [List.drop_eq_getElem_cons hlt, hget]
  simp [ByteScan.finds, utf8EncodeChar_of_lt hk, hdrop, lowerByte_ne hb hk]

/-- A keyword does not begin with a quote or a bracket. -/
theorem afterKeyword_of_isMark {c : Char} (hkeyword : IsWord keyword)
    (hc : c ∈ ['"', '[', '{', ']', '}']) : afterKeyword keyword (c :: rest) = none := by
  obtain ⟨k, more, rfl⟩ := List.exists_cons_of_ne_nil hkeyword.ne_nil
  have hk := hkeyword.unmarked k List.mem_cons_self
  have hlower : ∀ d ∈ ['"', '[', '{', ']', '}'], d.toLower = d ∧ ¬('a' ≤ d ∧ d ≤ 'z') :=
    List.all_iff_forall_prop.mp (by decide)
  rw [afterKeyword, if_neg]
  intro heq
  rw [(hlower c hc).1] at heq
  exact hk (eq_of_toLower_eq (hlower c hc).2 heq ▸ hc)

/-- A keyword begins with a character of one byte. -/
theorem lt_of_afterKeyword {c : Char} {after : List Char} (hkeyword : IsWord keyword)
    (h : afterKeyword keyword (c :: rest) = some after) : c.toNat < 128 := by
  obtain ⟨k, more, rfl⟩ := List.exists_cons_of_ne_nil hkeyword.ne_nil
  have hk := hkeyword.ascii k List.mem_cons_self
  by_contra hc
  rw [afterKeyword, toLower_of_le (Nat.le_of_not_lt hc), if_neg] at h
  · exact absurd h (by simp)
  · rintro rfl
    exact hc (toNat_toLower_lt hk)

/-- Where a character of one byte stands, the keyword is found in bytes if it may begin there and does. -/
theorem finds_behind {c : Char} (start : Nat) (hkeyword : IsWord keyword) (htext : text = before ++ c :: rest)
    (hc : c.toNat < 128) (hmode : (stateBehind before).mode = .outside) :
    (ByteScan.behind before).finds (utf8 text) (utf8 keyword) start c.toUInt8 =
      (decide (start ≤ byteLength before) && ((stateBehind before).admits &&
        (afterKeyword keyword (c :: rest)).isSome)) := by
  have hmark : isMark c.toUInt8 = decide (c ∈ ['"', '[', '{', ']', '}']) := by
    rw [isMark, any_toUInt8 hc (by decide), Bool.eq_iff_iff, decide_eq_true_iff]
    simp
  have hdrop : (utf8 text).drop (byteLength before) = utf8 (c :: rest) := by
    rw [htext, utf8_append, ← length_utf8, List.drop_left]
  have hlength : (utf8 text).length - byteLength before = (utf8 (c :: rest)).length := by
    rw [← hdrop, List.length_drop]
  have hends := endsWordByte_behind before (c :: rest)
  rw [← htext] at hends
  have hbegins := beginsWith_utf8 (s := c :: rest) hkeyword.ascii
  rw [ByteScan.behind_of_ne (by simp [hmode]), ByteScan.finds, Scan.admits]
  simp only [hmode, hmark, hdrop, hlength, hends, bne_self_eq_false, beq_self_eq_true, Bool.not_false,
    Bool.true_and]
  by_cases hin : c ∈ ['"', '[', '{', ']', '}']
  · rw [afterKeyword_of_isMark hkeyword hin]
    simp [hin]
  · rw [← hbegins, Bool.eq_iff_iff]
    simp only [hin, decide_false, Bool.not_false, Bool.and_eq_true]
    tauto

/-- Where no keyword begins, both searches go on. -/
theorem goes_of_not_found {c : Char} (hkeyword : IsWord keyword) (htext : text = before ++ c :: rest)
    (h : start ≤ byteLength before →
      ((stateBehind before).admits && (afterKeyword keyword (c :: rest)).isSome) = false) :
    ByteScan.Goes (utf8 text) (utf8 keyword) start (.behind before) (.behind (before ++ [c])) := by
  refine goes_behind htext (fun hc hmode => ?_) fun _ _ scan b hbyte hb => finds_of_le hkeyword hbyte hb
  rw [finds_behind start hkeyword htext hc hmode]
  by_cases hstart : start ≤ byteLength before
  · rw [h hstart, Bool.and_false]
  · rw [decide_eq_false hstart, Bool.false_and]

/-- From the place of a scan on, both searches find the same. -/
theorem findInBytes_behind (hkeyword : IsWord keyword) (htext : text = before ++ rest)
    (hstart : start ≤ byteLength before) :
    findInBytes (utf8 text) (utf8 keyword) start (.behind before) =
      (findKeyword [keyword] (stateBehind before) rest).map fun found =>
        byteLength before + byteLength found.1 := by
  induction rest generalizing before with
  | nil =>
      have hend : (utf8 text)[(ByteScan.behind before).index]? = none := by
        rw [htext, List.append_nil]
        exact List.getElem?_eq_none (by rw [length_utf8]; exact Nat.le_add_right _ _)
      unfold findInBytes
      split
      · rfl
      · rename_i b hb
        rw [hend] at hb
        exact absurd hb (by simp)
  | cons c rest ih =>
      have hnext : text = (before ++ [c]) ++ rest := by rw [htext]; simp
      by_cases hfound : ((stateBehind before).admits && (afterKeyword keyword (c :: rest)).isSome) = true
      · obtain ⟨hadmits, hsome⟩ := Bool.and_eq_true_iff.mp hfound
        obtain ⟨after, hafter⟩ := Option.isSome_iff_exists.mp hsome
        have hc : c.toNat < 128 := lt_of_afterKeyword hkeyword hafter
        have hmode : (stateBehind before).mode = .outside := by
          simp only [Scan.admits, Bool.and_eq_true, beq_iff_eq] at hadmits
          exact hadmits.1.1
        have hfinds := finds_behind start hkeyword htext hc hmode
        rw [hfound, decide_eq_true hstart, Bool.and_true] at hfinds
        have hbyte : (utf8 text)[(ByteScan.behind before).index]? = some c.toUInt8 := by
          rw [ByteScan.behind_of_ne (by simp [hmode]), htext]
          exact getElem?_utf8_of_lt before rest hc
        rw [ByteScan.findInBytes_of_finds hbyte hfinds, findKeyword, if_pos hadmits]
        simp [hafter, ByteScan.behind_of_ne, hmode]
      · have hnot := Bool.eq_false_iff.mpr hfound
        rw [ByteScan.findInBytes_of_goes (goes_of_not_found hkeyword htext fun _ => hnot),
          ih hnext (by rw [byteLength_append]; omega), stateBehind_concat, findKeyword]
        have hhere : (if (stateBehind before).admits = true then
            [keyword].findSome? fun keyword => (afterKeyword keyword (c :: rest)).map fun after =>
              (keyword, after)
            else none) = none := by
          split
          · rename_i hadmits
            rw [hadmits, Bool.true_and] at hnot
            simp [Option.isSome_eq_false_iff.mp hnot]
          · rfl
        simp only [hhere, Option.map_map]
        refine Option.map_congr fun found _ => ?_
        simp [byteLength_append, byteLength_cons, byteLength_nil, Nat.add_assoc]

/-- The keyword is found in bytes, not in front of the place where the scan stands, at the byte where it is
found by the scan. -/
theorem findInBytes_eq {front tail : List Char} (hkeyword : IsWord keyword)
    (htext : text = front ++ tail) :
    findInBytes (utf8 text) (utf8 keyword) (byteLength front) .first =
      (findKeyword [keyword] (stateBehind front) tail).map fun found =>
        byteLength front + byteLength found.1 := by
  have hgoes : ∀ before middle, front = before ++ middle →
      ByteScan.Goes (utf8 text) (utf8 keyword) (byteLength front) (.behind before) (.behind front) := by
    intro before middle hfront
    induction middle generalizing before with
    | nil => rw [hfront, List.append_nil]
    | cons c middle ih =>
        have hnext := ih (before ++ [c]) (by rw [hfront]; simp)
        have hhere : text = before ++ c :: (middle ++ tail) := by rw [htext, hfront]; simp
        refine .trans (goes_of_not_found hkeyword hhere fun hle => ?_) hnext
        have := c.utf8Size_pos
        rw [hfront, byteLength_append, byteLength_cons] at hle
        omega
  rw [← ByteScan.behind_nil, ByteScan.findInBytes_of_goes (hgoes [] front rfl)]
  exact findInBytes_behind hkeyword htext (Nat.le_refl _)

end Search

end MenuActions.Grammar.TopLevel
