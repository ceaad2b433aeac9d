import MenuActions.Proofs.Grammar.ErrorPosition
import MenuActions.Proofs.Text.Utf8

/-!
# Cutting a text at byte offsets

A text is cut between two byte offsets.  There is something between them exactly if both are boundaries
between characters and the first is not behind the second (`isSome_cut_iff`); otherwise there is nothing, not
even a piece of a character.  `cutFrom` and `cutTo` are the cuts that run to the end and from the start.

`firstIndex` and `lastIndex` give the offset of a character, and a text can be cut there.
-/

namespace MenuActions.Grammar

open Text

/-! ## Cuts -/

/-- The text from a byte offset on, if something begins there. -/
def cutFrom : Nat → List Char → Option (List Char)
  | 0, s => some s
  | _ + 1, [] => none
  | n + 1, c :: s => if c.utf8Size ≤ n + 1 then cutFrom (n + 1 - c.utf8Size) s else none

/-- The text up to a byte offset, if something begins there. -/
def cutTo : Nat → List Char → Option (List Char)
  | 0, _ => some []
  | _ + 1, [] => none
  | n + 1, c :: s =>
      if c.utf8Size ≤ n + 1 then (cutTo (n + 1 - c.utf8Size) s).map (c :: ·) else none

/-- The text between two byte offsets, if something begins at both and the first is not behind the second. -/
def cut (start stop : Nat) (s : List Char) : Option (List Char) :=
  if start ≤ stop then (cutFrom start s).bind (cutTo (stop - start)) else none

section Cuts

variable {s part : List Char} {n start stop : Nat}

theorem cutFrom_append (front rest : List Char) :
    cutFrom (byteLength front) (front ++ rest) = some rest := by
  induction front with
  | nil => rw [byteLength_nil, List.nil_append, cutFrom]
  | cons c front ih =>
      obtain ⟨n, hn⟩ : ∃ n, byteLength (c :: front) = n + 1 :=
        Nat.exists_eq_add_of_le' (one_le_byteLength (by simp))
      rw [hn, List.cons_append, cutFrom, ← hn, byteLength_cons, if_pos (Nat.le_add_right _ _),
        Nat.add_sub_cancel_left, ih]

theorem cutTo_append (front rest : List Char) :
    cutTo (byteLength front) (front ++ rest) = some front := by
  induction front with
  | nil => rw [byteLength_nil, cutTo]
  | cons c front ih =>
      obtain ⟨n, hn⟩ : ∃ n, byteLength (c :: front) = n + 1 :=
        Nat.exists_eq_add_of_le' (one_le_byteLength (by simp))
      rw [hn, List.cons_append, cutTo, ← hn, byteLength_cons, if_pos (Nat.le_add_right _ _),
        Nat.add_sub_cancel_left, ih]
      rfl

theorem cut_append (front mid rest : List Char) :
    cut (byteLength front) (byteLength front + byteLength mid) (front ++ (mid ++ rest)) = some mid := by
  rw [cut, if_pos (Nat.le_add_right _ _), cutFrom_append, Option.bind_some, Nat.add_sub_cancel_left,
    cutTo_append]

theorem cutFrom_of_eq {front rest : List Char} (hs : s = front ++ rest) (hn : byteLength front = n) :
    cutFrom n s = some rest := by
  rw [hs, ← hn, cutFrom_append]

theorem cut_of_eq {front mid rest : List Char} (hs : s = front ++ (mid ++ rest))
    (hstart : byteLength front = start) (hstop : byteLength front + byteLength mid = stop) :
    cut start stop s = some mid := by
  rw [hs, ← hstart, ← hstop, cut_append]

theorem cutFrom_eq_some_iff : cutFrom n s = some part ↔ BeginsAt s n part := by
  constructor
  · intro h
    fun_induction cutFrom n s with
    | case1 s =>
        obtain rfl := Option.some.inj h
        exact ⟨[], rfl, rfl⟩
    | case2 n => exact absurd h (by simp)
    | case3 n c s hle ih =>
        obtain ⟨before, rfl, hbefore⟩ := ih h
        refine ⟨c :: before, rfl, ?_⟩
        rw [byteLength_cons, hbefore]
        omega
    | case4 n c s hlt => exact absurd h (by simp)
  · rintro ⟨before, rfl, rfl⟩
    exact cutFrom_append before part

/-- What is behind a cut is shorter, unless the cut is in front of all. -/
theorem length_lt_of_cutFrom (h : cutFrom (n + 1) s = some part) : part.length < s.length := by
  obtain ⟨before, rfl, hbefore⟩ := cutFrom_eq_some_iff.mp h
  have hne : before ≠ [] := by
    rintro rfl
    exact absurd hbefore (by simp)
  have := List.length_pos_iff.mpr hne
  rw [List.length_append]
  omega

theorem exists_of_cutTo (h : cutTo n s = some part) : ∃ rest, s = part ++ rest ∧ byteLength part = n := by
  fun_induction cutTo n s generalizing part with
  | case1 s =>
      obtain rfl := Option.some.inj h
      exact ⟨s, rfl, rfl⟩
  | case2 n => exact absurd h (by simp)
  | case3 n c s hle ih =>
      obtain ⟨front, hfront, rfl⟩ := Option.map_eq_some_iff.mp h
      obtain ⟨rest, rfl, hlength⟩ := ih hfront
      refine ⟨rest, rfl, ?_⟩
      rw [byteLength_cons, hlength]
      omega
  | case4 n c s hlt => exact absurd h (by simp)

/-- What is a boundary between characters of a string begins something of its text. -/
theorem exists_beginsAt_of_isValid (h : String.Pos.Raw.IsValid (String.ofList s) ⟨n⟩) :
    ∃ rest, BeginsAt s n rest := by
  obtain ⟨before, rest, happend, hposition⟩ := String.Pos.Raw.isValid_iff_exists_append.mp h
  refine ⟨rest.toList, before.toList, ?_, ?_⟩
  · rw [← String.toList_append, ← happend, String.toList_ofList]
  · rw [byteLength_eq_utf8ByteSize, String.ofList_toList]
    exact congrArg String.Pos.Raw.byteIdx hposition.symm

/-- A text can be cut exactly between two boundaries of it, of which the first is not behind the second. -/
theorem isSome_cut_iff :
    (cut start stop s).isSome ↔ start ≤ stop ∧ String.Pos.Raw.IsValid (String.ofList s) ⟨start⟩ ∧
      String.Pos.Raw.IsValid (String.ofList s) ⟨stop⟩ := by
  constructor
  · intro h
    obtain ⟨part, hpart⟩ := Option.isSome_iff_exists.mp h
    unfold cut at hpart
    split at hpart
    · rename_i hle
      obtain ⟨tail, htail, hto⟩ := Option.bind_eq_some_iff.mp hpart
      have hstart := cutFrom_eq_some_iff.mp htail
      obtain ⟨before, rfl, hbefore⟩ := hstart
      obtain ⟨rest, rfl, hlength⟩ := exists_of_cutTo hto
      have hstop : BeginsAt (before ++ (part ++ rest)) stop rest := by
        refine ⟨before ++ part, by rw [List.append_assoc], ?_⟩
        rw [byteLength_append]
        omega
      exact ⟨hle, BeginsAt.isValid ⟨before, rfl, hbefore⟩, hstop.isValid⟩
    · exact absurd hpart (by simp)
  · rintro ⟨hle, hstart, hstop⟩
    obtain ⟨tail, before, hs, rfl⟩ := exists_beginsAt_of_isValid hstart
    obtain ⟨rest, front, hfront, rfl⟩ := exists_beginsAt_of_isValid hstop
    rw [hs] at hfront
    rcases List.append_eq_append_iff.mp hfront with ⟨mid, rfl, rfl⟩ | ⟨mid, rfl, rfl⟩
    · rw [hs, byteLength_append, cut_append]
      rfl
    · have hmid : byteLength mid = 0 := by
        rw [byteLength_append] at hle
        omega
      obtain rfl : mid = [] := by
        by_contra hne
        exact absurd (one_le_byteLength hne) (by omega)
      rw [hs, List.append_nil]
      exact Option.isSome_iff_exists.mpr ⟨[], cut_append front [] tail⟩

example : cut 0 1 "é-".toList = none ∧ cut 2 3 "é-".toList = some ['-'] := by decide

theorem cutTo_eq_cut (n : Nat) (s : List Char) : cutTo n s = cut 0 n s := by
  rw [cut, if_pos (Nat.zero_le n), cutFrom, Option.bind_some, Nat.sub_zero]

theorem cutFrom_eq_cut (n : Nat) (s : List Char) : cutFrom n s = cut n (byteLength s) s := by
  rw [cut]
  cases hfrom : cutFrom n s with
  | none => simp
  | some part =>
      obtain ⟨before, rfl, rfl⟩ := cutFrom_eq_some_iff.mp hfrom
      have hto := cutTo_append part []
      rw [List.append_nil] at hto
      rw [byteLength_append, if_pos (Nat.le_add_right _ _), Nat.add_sub_cancel_left, Option.bind_some, hto]

/-! ## Where a character stands -/

/-- The offset of the first character that has a property. -/
def firstIndex (p : Char → Bool) : List Char → Option Nat
  | [] => none
  | c :: s => if p c then some 0 else (firstIndex p s).map (c.utf8Size + ·)

/-- The offset of the last character that has a property. -/
def lastIndex (p : Char → Bool) : List Char → Option Nat
  | [] => none
  | c :: s =>
      match lastIndex p s with
      | some i => some (c.utf8Size + i)
      | none => if p c then some 0 else none

/-- Up to the first character that has the property, none has it. -/
theorem firstIndex_getD (p : Char → Bool) (s : List Char) :
    (firstIndex p s).getD (byteLength s) = byteLength (s.takeWhile fun c => !p c) := by
  induction s with
  | nil => rfl
  | cons c s ih =>
      rw [firstIndex, List.takeWhile_cons]
      by_cases hc : p c = true
      · simp [hc]
      · simp only [hc, Bool.not_false, if_true, byteLength_cons, ← ih]
        cases firstIndex p s <;> rfl

theorem firstIndex_eq_some {p : Char → Bool} {s rest : List Char} {c : Char}
    (h : s.dropWhile (fun c => !p c) = c :: rest) :
    firstIndex p s = some (byteLength (s.takeWhile fun c => !p c)) := by
  induction s with
  | nil => exact absurd h (by simp)
  | cons d s ih =>
      by_cases hd : p d = true
      · simp [firstIndex, hd]
      · rw [List.dropWhile_cons, if_pos (by simp [hd])] at h
        rw [firstIndex, if_neg hd, ih h, List.takeWhile_cons, if_pos (by simp [hd])]
        rfl

theorem cutTo_firstIndex (p : Char → Bool) (s : List Char) :
    cutTo ((firstIndex p s).getD (byteLength s)) s = some (s.takeWhile fun c => !p c) := by
  have hcut := cutTo_append (s.takeWhile fun c => !p c) (s.dropWhile fun c => !p c)
  rwa [List.takeWhile_append_dropWhile, ← firstIndex_getD] at hcut

theorem cutFrom_firstIndex (p : Char → Bool) (s : List Char) :
    cutFrom ((firstIndex p s).getD (byteLength s)) s = some (s.dropWhile fun c => !p c) := by
  have hcut := cutFrom_append (s.takeWhile fun c => !p c) (s.dropWhile fun c => !p c)
  rwa [List.takeWhile_append_dropWhile, ← firstIndex_getD] at hcut

theorem firstIndex_eq_splitFirst (sep : Char) (s : List Char) :
    firstIndex (· == sep) s = (splitFirst sep s).map fun parts => byteLength parts.1 := by
  induction s with
  | nil => rfl
  | cons c s ih =>
      by_cases hc : c = sep
      · simp [firstIndex, splitFirst, hc]
      · simp only [firstIndex, splitFirst, beq_iff_eq, hc, if_false, ih, Option.map_map]
        rfl

theorem lastIndex_eq_splitLast (sep : Char) (s : List Char) :
    lastIndex (· == sep) s = (splitLast sep s).map fun parts => byteLength parts.1 := by
  induction s with
  | nil => rfl
  | cons c s ih =>
      rw [lastIndex, splitLast, ih]
      cases splitLast sep s with
      | none =>
          by_cases hc : c = sep
          · simp [hc]
          · simp [hc]
      | some parts => rfl

end Cuts

end MenuActions.Grammar
