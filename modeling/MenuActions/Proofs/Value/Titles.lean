import MenuActions.Value.Title
import MenuActions.Proofs.Decimal.Numerals

/-!
# Titles written with their times

The same colons separate the title, the subtitle and the times, and a subtitle may have colons and numbers
of its own.  A title that is written with its three times has at least five pieces, and the last three are
the numbers that were written; so they are the ones that are taken for the times, and the rest is the text.

`reads_rendered`: what is read from any value is read again from its own text, and the titles that come back
from their own text are the `Normal` ones.
-/

namespace MenuActions.Title

open Text

/-- A title as it is read: no colon in the title, no blanks around either text, one of which is not empty,
and times within the bound. -/
structure Normal (t : Title) : Prop where
  colon : ':' ∉ t.title.toList
  title_trimmed : trim t.title.toList = t.title.toList
  subtitle_trimmed : trim t.subtitle.toList = t.subtitle.toList
  shown : ¬(t.title = "" ∧ t.subtitle = "")
  fadeIn_le : t.fadeIn ≤ maxTime
  stay_le : t.stay ≤ maxTime
  fadeOut_le : t.fadeOut ≤ maxTime

/-! ## Reading a text that was written -/

theorem readTimes?_toString {fadeIn stay fadeOut : Nat} (hin : fadeIn ≤ maxTime)
    (hstay : stay ≤ maxTime) (hout : fadeOut ≤ maxTime) :
    readTimes? [(toString fadeIn).toList, (toString stay).toList, (toString fadeOut).toList] =
      some (fadeIn, stay, fadeOut) := by
  simp only [readTimes?, Decimal.trim_toString, Decimal.natUpTo?_toString hin,
    Decimal.natUpTo?_toString hstay, Decimal.natUpTo?_toString hout]
  rfl

/-- Three numbers behind at least two pieces are the times. -/
theorem read?_of_times {value : List Char} {texts numbers : List (List Char)} {times : Nat × Nat × Nat}
    (hpieces : splitAll ':' value = texts ++ numbers) (htexts : 2 ≤ texts.length)
    (hnumbers : numbers.length = 3) (htimes : readTimes? numbers = some times) :
    read? value = ofPieces texts times := by
  have hlength : (texts ++ numbers).length = texts.length + 3 := by
    rw [List.length_append, hnumbers]
  have hcut : (texts ++ numbers).length - 3 = texts.length := by omega
  unfold read?
  simp only [hpieces, hcut, List.drop_left, List.take_left, htimes]
  rw [if_pos (by omega)]

/-- The text of a title and a subtitle in its pieces. -/
theorem ofPieces_splitAll {title subtitle : List Char} (times : Nat × Nat × Nat)
    (htitle : trim title = title) (hsubtitle : trim subtitle = subtitle)
    (hshown : ¬(title = [] ∧ subtitle = [])) :
    ofPieces (title :: splitAll ':' subtitle) times =
      some ⟨String.ofList title, String.ofList subtitle, times.1, times.2.1, times.2.2⟩ := by
  unfold ofPieces
  simp only [List.headD_cons, List.tail_cons, joinWith_splitAll, htitle, hsubtitle]
  rw [if_neg (by simpa using hshown)]

theorem splitAll_render {t : Title} (hcolon : ':' ∉ t.title.toList) :
    splitAll ':' t.render.toList =
      (t.title.toList :: splitAll ':' t.subtitle.toList) ++
        [(toString t.fadeIn).toList, (toString t.stay).toList, (toString t.fadeOut).toList] := by
  have hnumber (n : Nat) : splitAll ':' (toString n).toList = [(toString n).toList] :=
    splitAll_of_not_mem fun hmem => absurd (Decimal.isDigit_of_mem_toString hmem) (by decide)
  have hseparator : ":".toList = [':'] := rfl
  have htext : t.render.toList = t.title.toList ++ ':' :: (t.subtitle.toList ++
      ':' :: ((toString t.fadeIn).toList ++ ':' :: ((toString t.stay).toList ++
        ':' :: (toString t.fadeOut).toList))) := by
    simp only [render, String.toList_append, hseparator, List.append_assoc, List.cons_append,
      List.nil_append]
  -- Only the subtitle has colons of its own to be split at.
  rw [htext, splitAll_append, splitAll_append, splitAll_append, splitAll_append,
    splitAll_of_not_mem hcolon, hnumber, hnumber, hnumber]
  simp

/-- A normal title is read from its text, whatever numbers its subtitle ends in. -/
theorem Normal.read?_render {t : Title} (h : t.Normal) : read? t.render.toList = some t := by
  have htexts : 2 ≤ (t.title.toList :: splitAll ':' t.subtitle.toList).length := by
    obtain ⟨piece, pieces, hpieces⟩ := splitAll_eq_cons ':' t.subtitle.toList
    simp [hpieces]
  have hshown : ¬(t.title.toList = [] ∧ t.subtitle.toList = []) := by
    simpa using h.shown
  rw [read?_of_times (splitAll_render h.colon) htexts rfl
    (readTimes?_toString h.fadeIn_le h.stay_le h.fadeOut_le),
    ofPieces_splitAll _ h.title_trimmed h.subtitle_trimmed hshown, String.ofList_toList,
    String.ofList_toList]

/-! ## What is read is normal -/

theorem readTimes?_le {numbers : List (List Char)} {times : Nat × Nat × Nat}
    (h : readTimes? numbers = some times) :
    times.1 ≤ maxTime ∧ times.2.1 ≤ maxTime ∧ times.2.2 ≤ maxTime := by
  unfold readTimes? at h
  split at h
  · simp only [Option.bind_eq_bind, Option.bind_eq_some_iff, Option.pure_def, Option.some.injEq] at h
    obtain ⟨fadeIn, hin, stay, hstay, fadeOut, hout, rfl⟩ := h
    exact ⟨Decimal.natUpTo?_le hin, Decimal.natUpTo?_le hstay, Decimal.natUpTo?_le hout⟩
  · exact absurd h (by simp)

theorem normal_of_ofPieces {pieces : List (List Char)} {times : Nat × Nat × Nat} {t : Title}
    (hpieces : ∀ piece ∈ pieces, ':' ∉ piece)
    (htimes : times.1 ≤ maxTime ∧ times.2.1 ≤ maxTime ∧ times.2.2 ≤ maxTime)
    (h : ofPieces pieces times = some t) : t.Normal := by
  have hcolon : ':' ∉ trim (pieces.headD []) := by
    intro hmem
    cases pieces with
    | nil => exact absurd (mem_of_mem_trim hmem) List.not_mem_nil
    | cons piece pieces => exact hpieces piece List.mem_cons_self (mem_of_mem_trim hmem)
  unfold ofPieces at h
  dsimp only at h
  split at h
  · exact absurd h (by simp)
  · rename_i hshown
    obtain rfl := Option.some.inj h
    refine ⟨?_, ?_, ?_, ?_, htimes.1, htimes.2.1, htimes.2.2⟩
    · simpa using hcolon
    · simp
    · simp
    · simpa using hshown

/-- Whatever the value, the title that is read from it is normal. -/
theorem normal_of_read? {value : List Char} {t : Title} (h : read? value = some t) : t.Normal := by
  have hpieces : ∀ piece ∈ splitAll ':' value, ':' ∉ piece := fun _ => not_mem_of_mem_splitAll
  unfold read? at h
  dsimp only at h
  split at h
  · rename_i times htimes
    have hread : readTimes? ((splitAll ':' value).drop ((splitAll ':' value).length - 3)) =
        some times := by
      split at htimes
      · exact htimes
      · exact absurd htimes (by simp)
    -- The text pieces in front of the times are pieces of the value still.
    exact normal_of_ofPieces (fun piece hmem => hpieces piece (List.mem_of_mem_take hmem))
      (readTimes?_le hread) h
  · exact normal_of_ofPieces hpieces (by decide) h

/-- Titles come back from their text.  The title that any value is read as is read again from its text with
its times; and of all titles, those come back from their text in which the title has no colon, title and
subtitle have no blanks around them and are not both empty, and the times are within the bound, whatever
colons and numbers the subtitle has. -/
theorem reads_rendered :
    (∀ (value : List Char) (t : Title), read? value = some t → read? t.render.toList = some t) ∧
      ∀ t : Title, read? t.render.toList = some t ↔ t.Normal :=
  ⟨fun _ _ h => (normal_of_read? h).read?_render, fun _ => ⟨normal_of_read?, Normal.read?_render⟩⟩

/-- A subtitle that ends in numbers of its own, and one that is read from a value without times. -/
theorem reads_rendered_numbers :
    read? "Run:1:2:3:10:70:4294967295".toList = some ⟨"Run", "1:2:3", 10, 70, 4294967295⟩ ∧
      read? " Time : 12:30 ".toList = some ⟨"Time", "12:30", 10, 70, 20⟩ ∧
        read? "Time:12:30:10:70:20".toList = some ⟨"Time", "12:30", 10, 70, 20⟩ := by
  have hread : read? " Time : 12:30 ".toList = some ⟨"Time", "12:30", 10, 70, 20⟩ := by decide
  have hrendered : render ⟨"Time", "12:30", 10, 70, 20⟩ = "Time:12:30:10:70:20" := by decide +kernel
  have hrun : render ⟨"Run", "1:2:3", 10, 70, 4294967295⟩ = "Run:1:2:3:10:70:4294967295" := by
    decide +kernel
  have hnormal : Normal ⟨"Run", "1:2:3", 10, 70, 4294967295⟩ :=
    ⟨by decide, by decide, by decide, by decide, by decide, by decide, by decide⟩
  have hagain := reads_rendered.1 _ _ hread
  have hnumbers := (reads_rendered.2 _).mpr hnormal
  rw [hrendered] at hagain
  rw [hrun] at hnumbers
  exact ⟨hnumbers, hread, hagain⟩

end MenuActions.Title
