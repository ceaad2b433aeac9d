import MenuActions.Text.Blank

/-!
# Texts as bytes

The bytes of a text in UTF-8, and what can be told from one of them.  A character below 128 is the one byte
of its number.  Every byte of another character is 128 or more, so a byte below 128 is always a character of
its own, at a boundary between characters (`exists_of_low_byte`).
-/

namespace MenuActions.Text

/-- The bytes of a text in UTF-8. -/
def utf8 (s : List Char) : List UInt8 :=
  s.flatMap String.utf8EncodeChar

@[simp] theorem utf8_nil : utf8 [] = [] := rfl

@[simp] theorem utf8_cons (c : Char) (s : List Char) :
    utf8 (c :: s) = String.utf8EncodeChar c ++ utf8 s := rfl

@[simp] theorem utf8_append (s t : List Char) : utf8 (s ++ t) = utf8 s ++ utf8 t :=
  List.flatMap_append

@[simp] theorem length_utf8 (s : List Char) : (utf8 s).length = byteLength s := by
  induction s with
  | nil => rfl
  | cons c s ih =>
      rw [utf8_cons, List.length_append, String.length_utf8EncodeChar, ih, byteLength_cons]

/-! ## Single characters -/

theorem utf8Size_eq_one_iff {c : Char} : c.utf8Size = 1 ↔ c.toNat < 128 := by
  rw [Char.utf8Size_eq_one_iff, UInt32.le_iff_toNat_le]
  exact Nat.lt_succ_iff.symm

theorem utf8EncodeChar_of_lt {c : Char} (h : c.toNat < 128) :
    String.utf8EncodeChar c = [c.toUInt8] :=
  String.utf8EncodeChar_eq_singleton (utf8Size_eq_one_iff.mpr h)

theorem toNat_toUInt8 {c : Char} (h : c.toNat < 128) : c.toUInt8.toNat = c.toNat := by
  have hmod : c.toUInt8.toNat = c.toNat % 2 ^ 8 := UInt32.toNat_toUInt8 c.val
  omega

theorem toUInt8_eq_iff {c d : Char} (hc : c.toNat < 128) (hd : d.toNat < 128) :
    c.toUInt8 = d.toUInt8 ↔ c = d := by
  rw [← UInt8.toNat_inj, toNat_toUInt8 hc, toNat_toUInt8 hd, Char.toNat_inj]

theorem le_toNat_or {x mark : UInt8} (h : 128 ≤ mark.toNat) : 128 ≤ (x ||| mark).toNat := by
  rw [UInt8.toNat_or]
  exact Nat.le_trans h Nat.right_le_or

/-- A character of several bytes has no byte below 128. -/
theorem le_of_mem_utf8EncodeChar {c : Char} {b : UInt8} (h : 128 ≤ c.toNat)
    (hb : b ∈ String.utf8EncodeChar c) : 128 ≤ b.toNat := by
  rcases c.utf8Size_eq with hsize | hsize | hsize | hsize
  · have := utf8Size_eq_one_iff.mp hsize
    omega
  · rw [String.utf8EncodeChar_eq_cons_cons hsize] at hb
    simp only [List.mem_cons, List.not_mem_nil, or_false] at hb
    rcases hb with rfl | rfl <;> exact le_toNat_or (by decide)
  · rw [String.utf8EncodeChar_eq_cons_cons_cons hsize] at hb
    simp only [List.mem_cons, List.not_mem_nil, or_false] at hb
    rcases hb with rfl | rfl | rfl <;> exact le_toNat_or (by decide)
  · rw [String.utf8EncodeChar_eq_cons_cons_cons_cons hsize] at hb
    simp only [List.mem_cons, List.not_mem_nil, or_false] at hb
    rcases hb with rfl | rfl | rfl | rfl <;> exact le_toNat_or (by decide)

theorem exists_byte_of_le {c : Char} (h : 128 ≤ c.toNat) :
    ∃ b more, String.utf8EncodeChar c = b :: more ∧ 128 ≤ b.toNat := by
  obtain ⟨b, more, hencode⟩ : ∃ b more, String.utf8EncodeChar c = b :: more :=
    List.exists_cons_of_length_pos (by
      rw [String.length_utf8EncodeChar]
      exact c.utf8Size_pos)
  exact ⟨b, more, hencode, le_of_mem_utf8EncodeChar h (hencode ▸ List.mem_cons_self)⟩

/-- A text of characters of one byte. -/
def IsAscii (s : List Char) : Prop :=
  ∀ c ∈ s, c.toNat < 128

instance (s : List Char) : Decidable (IsAscii s) :=
  decidable_of_iff (s.all fun c => c.toNat < 128) (by simp [IsAscii])

theorem IsAscii.byteLength_eq {s : List Char} (h : IsAscii s) : byteLength s = s.length := by
  induction s with
  | nil => rfl
  | cons c s ih =>
      obtain ⟨hc, hs⟩ := List.forall_mem_cons.mp h
      rw [byteLength_cons, utf8Size_eq_one_iff.mpr hc, ih hs, List.length_cons, Nat.add_comm]

/-! ## Bytes of a text -/

/-- The bytes of a character stand behind the bytes of the characters in front of it. -/
theorem getElem?_utf8 (before rest : List Char) {c : Char} {n : Nat} (hn : n < c.utf8Size) :
    (utf8 (before ++ c :: rest))[byteLength before + n]? = (String.utf8EncodeChar c)[n]? := by
  have hlength : n < (String.utf8EncodeChar c).length := by
    rw [String.length_utf8EncodeChar]
    exact hn
  rw [utf8_append, utf8_cons, ← length_utf8 before, List.getElem?_append_right (Nat.le_add_right _ _),
    Nat.add_sub_cancel_left, List.getElem?_append_left hlength]

theorem getElem?_utf8_of_lt (before rest : List Char) {c : Char} (hc : c.toNat < 128) :
    (utf8 (before ++ c :: rest))[byteLength before]? = some c.toUInt8 := by
  have hbyte := getElem?_utf8 before rest c.utf8Size_pos
  rw [utf8EncodeChar_of_lt hc] at hbyte
  exact hbyte

theorem getElem?_utf8_of_le (before rest : List Char) {c : Char} {n : Nat} (hc : 128 ≤ c.toNat)
    (hn : n < c.utf8Size) :
    ∃ b, (utf8 (before ++ c :: rest))[byteLength before + n]? = some b ∧ 128 ≤ b.toNat := by
  have hlength : n < (String.utf8EncodeChar c).length := by
    rw [String.length_utf8EncodeChar]
    exact hn
  refine ⟨(String.utf8EncodeChar c)[n], ?_, le_of_mem_utf8EncodeChar hc (List.getElem_mem hlength)⟩
  rw [getElem?_utf8 before rest hn, List.getElem?_eq_getElem hlength]

/-- A byte below 128 is a character, and the text can be cut in front of it. -/
theorem exists_of_low_byte {s : List Char} {i : Nat} {b : UInt8} (h : (utf8 s)[i]? = some b)
    (hb : b.toNat < 128) :
    ∃ before c rest, s = before ++ c :: rest ∧ byteLength before = i ∧ c.toNat < 128 ∧
      c.toUInt8 = b := by
  induction s generalizing i with
  | nil => exact absurd h (by simp)
  | cons c s ih =>
      by_cases hlt : i < c.utf8Size
      · have hbyte := getElem?_utf8 [] s hlt
        rw [List.nil_append, byteLength_nil, Nat.zero_add, h] at hbyte
        have hmem := List.mem_of_getElem? hbyte.symm
        have hc : c.toNat < 128 := Nat.lt_of_not_le fun hwide => by
          have := le_of_mem_utf8EncodeChar hwide hmem
          omega
        rw [utf8Size_eq_one_iff.mpr hc] at hlt
        obtain rfl : 0 = i := by omega
        rw [utf8EncodeChar_of_lt hc, List.mem_singleton] at hmem
        exact ⟨[], c, s, rfl, rfl, hc, hmem.symm⟩
      · rw [utf8_cons, List.getElem?_append_right (by rw [String.length_utf8EncodeChar]; omega),
          String.length_utf8EncodeChar] at h
        obtain ⟨before, d, rest, rfl, hbefore, hd, hbyte⟩ := ih h
        refine ⟨c :: before, d, rest, rfl, ?_, hd, hbyte⟩
        rw [byteLength_cons]
        omega

end MenuActions.Text
