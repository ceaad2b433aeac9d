import MenuActions.Grammar.Values
import MenuActions.Proofs.Grammar.BlockCuts

/-!
# Lists by cuts

The readers of bracket lists and of the values in the data of an action, on byte offsets.  They give what the
readers of characters give (`listValues_eq`, `dataValues_eq`).
-/

namespace MenuActions.Grammar.Cursor

open Text

/-- A quoted item of a list and the offset behind it and its comma; `base` is the offset of the inside. -/
def quotedItem (inner : List Char) (base pos : Nat) : Cutting ParseError (List Char × Nat) := do
  let (value, stop) ← readQuoted inner base pos
  let next ← skipWhile inner isBlank stop
  match ← peek inner next with
  | none => return (value, next)
  | some ',' => return (value, next + ','.utf8Size)
  | some found => throw (.unexpected found (base + next) .commaOrBracket)

/-- A bare item of a list and the offset behind it and its comma. -/
def bareItem (inner : List Char) (pos : Nat) : Option (List Char × Nat) := do
  let rest ← cutFrom pos inner
  let length := (firstIndex (· == ',') rest).getD (byteLength rest)
  let item ← cutTo length rest
  return (trim item, ← skipChar inner ',' (pos + length))

/-- The items of a list, read from an offset of its inside on. -/
def listItems (inner : List Char) (base pos : Nat) : Cutting ParseError (List (List Char)) := do
  let start ← skipWhile inner isBlank pos
  match ← peek inner start with
  | none => return []
  | some '"' =>
      let (value, stop) ← quotedItem inner base start
      let next ← goOn inner pos stop
      return value :: (← listItems inner base next)
  | some _ =>
      let (item, stop) ← bareItem inner start
      let next ← goOn inner pos stop
      let items ← listItems inner base next
      return if item.isEmpty then items else item :: items
termination_by byteLength inner - pos
decreasing_by
  all_goals
    have := next.property
    omega

/-- The items of a list between brackets. -/
def listValues (text : List Char) : Cutting ParseError (List (List Char)) := do
  let trimmed := trim text
  if trimmed.isEmpty then return []
  else if trimmed.head? ≠ some '[' then return [trimmed]
  else
    let opened := byteLength text - byteLength (trimStart text)
    if trimmed.getLast? ≠ some ']' ∨ byteLength trimmed < 2 then throw (.unclosed ']' opened)
    else
      let inner ← cut 1 (byteLength trimmed - 1) trimmed
      listItems inner (opened + 1) 0

/-- Whether what stands between two brackets begins with one of some characters. -/
def beginsInside (opening closing : Char) (firsts text : List Char) : Option Bool := do
  if text.head? = some opening ∧ text.getLast? = some closing then
    return (trimStart (← cutFrom 1 text)).head?.any firsts.contains
  else return false

/-- The values in the data of an action of the given type. -/
def dataValues (type data : List Char) : Cutting ParseError (List (List Char)) := do
  let data := trim data
  if data.isEmpty then return []
  else if (← typeName data).any (sameIgnoringCase · (trim type)) then blockValues data
  else if ← beginsInside '{' '}' ['-', '}'] data then blockValues data
  else if ← beginsInside '[' ']' ['"', ']'] data then listValues data
  else return [data]

/-! ## What they give -/

section Items

variable {inner rest : List Char}

theorem quotedItem_eq {quoted : List Char} (base : Nat) (h : '"' :: quoted <:+ inner) :
    quotedItem inner base (offsetIn (byteLength inner) ('"' :: quoted)) =
      .of (match Quoted.decode quoted with
        | none => .error (.unterminatedQuote (offsetIn (base + byteLength inner) ('"' :: quoted)))
        | some (value, next) =>
            match trimStart next with
            | [] => .ok (value, byteLength inner)
            | ',' :: more => .ok (value, offsetIn (byteLength inner) more)
            | found :: more => .error
                (.unexpected found (offsetIn (base + byteLength inner) (found :: more)) .commaOrBracket)) := by
  rw [quotedItem, readQuoted_eq base h, offsetIn_add base h]
  cases hquoted : Quoted.decode quoted with
  | none => rfl
  | some parts =>
      obtain ⟨value, next⟩ := parts
      have hbehind := (suffix_of_decode hquoted).trans ((List.suffix_cons '"' quoted).trans h)
      dsimp only
      rw [Cutting.of_ok_bind, skipBlanks_eq hbehind, Cutting.lift_bind]
      cases hnext : trimStart next with
      | nil =>
          rw [peek_eq List.nil_suffix, Cutting.lift_bind]
          rfl
      | cons found more =>
          have hfound := suffix_of_dropWhile hnext hbehind
          rw [peek_eq hfound, Cutting.lift_bind]
          simp only [List.head?_cons]
          by_cases hcomma : found = ','
          · subst hcomma
            rw [offsetIn_cons hfound]
            rfl
          · rw [offsetIn_add base hfound]
            simp only
            rfl

theorem skipChar_comma (h : rest <:+ inner) :
    skipChar inner ',' (offsetIn (byteLength inner) rest) =
      some (offsetIn (byteLength inner) (BracketList.dropComma rest)) := by
  fun_cases BracketList.dropComma rest with
  | case1 rest => exact skipChar_of_head h
  | case2 _ hcomma =>
      refine skipChar_of_ne h fun hhead => ?_
      obtain ⟨more, rfl⟩ := List.head?_eq_some_iff.mp hhead
      exact hcomma more rfl

theorem bareItem_eq (h : rest <:+ inner) :
    bareItem inner (offsetIn (byteLength inner) rest) =
      some (trim (rest.takeWhile (· != ',')),
        offsetIn (byteLength inner) (BracketList.dropComma (rest.dropWhile (· != ',')))) := by
  have hsplit := List.takeWhile_append_dropWhile (p := (· != ',')) (l := rest)
  have hto : cutTo ((firstIndex (· == ',') rest).getD (byteLength rest)) rest =
      some (rest.takeWhile (· != ',')) := cutTo_firstIndex (· == ',') rest
  have hlength : (firstIndex (· == ',') rest).getD (byteLength rest) =
      byteLength (rest.takeWhile (· != ',')) := firstIndex_getD (· == ',') rest
  have hwhole : rest.takeWhile (· != ',') ++ rest.dropWhile (· != ',') <:+ inner := hsplit.symm ▸ h
  have hoffset := offsetIn_append _ hwhole
  rw [hsplit] at hoffset
  rw [bareItem, cutFrom_offsetIn h]
  simp only [Option.bind_eq_bind, Option.bind_some]
  rw [hto, hlength, hoffset, skipChar_comma ((List.dropWhile_suffix _).trans h)]
  rfl

/-- At the end of the inside there are no more items. -/
theorem listItems_end (base : Nat) : listItems inner base (byteLength inner) = .of (.ok []) := by
  have hskip : skipWhile inner isBlank (byteLength inner) = some (byteLength inner) :=
    skipBlanks_eq List.nil_suffix
  have hpeek : peek inner (byteLength inner) = some none := peek_eq List.nil_suffix
  rw [listItems, hskip, Cutting.lift_bind, hpeek, Cutting.lift_bind]
  rfl

theorem listItems_quoted {quoted : List Char} (base : Nat) (h : rest <:+ inner)
    (hstart : trimStart rest = '"' :: quoted) :
    listItems inner base (offsetIn (byteLength inner) rest) = (do
      let (value, stop) ← quotedItem inner base (offsetIn (byteLength inner) ('"' :: quoted))
      let next ← goOn inner (offsetIn (byteLength inner) rest) stop
      return value :: (← listItems inner base next)) := by
  have hvalue := suffix_of_dropWhile hstart h
  conv_lhs => rw [listItems, skipBlanks_eq h, Cutting.lift_bind, hstart, peek_eq hvalue, Cutting.lift_bind]
  rfl

theorem listItems_eq (base : Nat) (h : rest <:+ inner) :
    listItems inner base (offsetIn (byteLength inner) rest) =
      .of (BracketList.readItems (offsetIn (base + byteLength inner)) rest) := by
  fun_induction BracketList.readItems (offsetIn (base + byteLength inner)) rest with
  | case1 rest hstart =>
      rw [listItems, skipBlanks_eq h, Cutting.lift_bind, hstart, peek_eq List.nil_suffix,
        Cutting.lift_bind]
      rfl
  | case2 rest quoted hstart hquoted =>
      rw [listItems_quoted base h hstart, quotedItem_eq base (suffix_of_dropWhile hstart h), hquoted]
      rfl
  | case3 rest quoted hstart value next hquoted hnext =>
      rw [listItems_quoted base h hstart, quotedItem_eq base (suffix_of_dropWhile hstart h), hquoted]
      dsimp only
      rw [hnext]
      exact goOn_map (value :: ·) h (suffix_of_dropWhile hstart (List.suffix_refl rest))
        List.nil_suffix (listItems_end base)
  | case4 rest quoted hstart value next hquoted more hnext ih =>
      have hbehind : more <:+ quoted :=
        (List.suffix_cons ',' more).trans (suffix_of_dropWhile hnext (suffix_of_decode hquoted))
      have hquote := (List.suffix_cons '"' quoted).trans (suffix_of_dropWhile hstart h)
      rw [listItems_quoted base h hstart, quotedItem_eq base (suffix_of_dropWhile hstart h), hquoted]
      dsimp only
      rw [hnext]
      exact goOn_map (value :: ·) h (suffix_of_dropWhile hstart (List.suffix_refl rest)) hbehind
        (ih (hbehind.trans hquote))
  | case5 rest quoted hstart value next hquoted found more hcomma hnext =>
      rw [listItems_quoted base h hstart, quotedItem_eq base (suffix_of_dropWhile hstart h), hquoted]
      dsimp only
      rw [hnext]
      simp only
      rfl
  | case6 rest c bare hquote hstart item ih =>
      have hbare := suffix_of_dropWhile hstart h
      have hbehind := suffix_of_length_lt
        ((suffix_dropComma _).trans (List.dropWhile_suffix (· != ',') (l := c :: bare)))
        (BracketList.length_afterBare c bare)
      have hitems := ih (hbehind.trans ((List.suffix_cons c bare).trans hbare))
      rw [listItems, skipBlanks_eq h, Cutting.lift_bind, hstart, peek_eq hbare, Cutting.lift_bind]
      simp only [List.head?_cons]
      rw [bareItem_eq hbare, Cutting.lift_bind]
      exact goOn_map (fun items => if item.isEmpty then items else item :: items) h
        (suffix_of_dropWhile hstart (List.suffix_refl rest)) hbehind hitems

end Items

theorem listValues_eq (text : List Char) : listValues text = .of (BracketList.values text) := by
  have hopened : byteLength text - byteLength (trimStart text) = byteLength (text.takeWhile isBlank) := by
    have hsplit := List.takeWhile_append_dropWhile (p := isBlank) (l := text)
    conv_lhs => rw [← hsplit, byteLength_append]
    rw [show trimStart _ = text.dropWhile isBlank by rw [hsplit]; rfl, Nat.add_sub_cancel_right]
  unfold listValues BracketList.values
  simp only [hopened]
  cases trim text with
  | nil => rfl
  | cons c inside =>
      by_cases hopen : c = '['
      · subst hopen
        rcases List.eq_nil_or_concat' inside with rfl | ⟨inner, closing, rfl⟩
        · rfl
        · have hlast : ('[' :: (inner ++ [closing])).getLast? = some closing :=
            List.getLast?_concat (l := '[' :: inner)
          simp only [hlast, List.getLast?_concat, List.dropLast_concat]
          rw [if_neg (by simp), if_neg (by simp)]
          by_cases hclosing : closing = ']'
          · subst hclosing
            have hlength : byteLength ('[' :: (inner ++ [']'])) = 1 + byteLength inner + 1 := by
              rw [byteLength_cons, byteLength_append, ← Nat.add_assoc]
              rfl
            have hcut : cut 1 (1 + byteLength inner) ('[' :: (inner ++ [']'])) = some inner :=
              cut_append ['['] inner [']']
            have hitems := listItems_eq (byteLength (text.takeWhile isBlank) + 1) (List.suffix_refl inner)
            rw [offsetIn, Nat.sub_self] at hitems
            have hlong : ¬(some ']' ≠ some ']' ∨ 1 + byteLength inner + 1 < 2) := by
              rintro (hne | hlt)
              · exact hne rfl
              · omega
            rw [hlength, if_neg hlong, Nat.add_sub_cancel, hcut, Cutting.lift_bind, hitems]
            rfl
          · rw [if_pos (Or.inl (by simpa using hclosing))]
            simp [hclosing]
            rfl
      · simp [hopen]
        rfl

theorem beginsInside_cons {opening : Char} (closing : Char) (firsts inside : List Char)
    (h : opening.utf8Size = 1) :
    beginsInside opening closing firsts (opening :: inside) =
      some ((opening :: inside).getLast? == some closing &&
        (trimStart inside).head?.any firsts.contains) := by
  have hcut : cutFrom 1 (opening :: inside) = some inside := by
    have hfrom := cutFrom_append [opening] inside
    rwa [byteLength_cons, h] at hfrom
  rw [beginsInside, hcut, List.head?_cons]
  by_cases hlast : (opening :: inside).getLast? = some closing
  · rw [if_pos ⟨rfl, hlast⟩, beq_iff_eq.mpr hlast]
    rfl
  · rw [if_neg fun hboth => hlast hboth.2, beq_eq_false_iff_ne.mpr hlast]
    rfl

theorem beginsInside_of_ne {opening c : Char} (closing : Char) (firsts inside : List Char)
    (h : c ≠ opening) : beginsInside opening closing firsts (c :: inside) = some false := by
  rw [beginsInside, if_neg (by simp [h])]
  rfl

theorem beginsInside_bare (text : List Char) :
    beginsInside '{' '}' ['-', '}'] text = some (Block.isBare text) := by
  cases text with
  | nil => rfl
  | cons c body =>
      by_cases hopen : c = '{'
      · subst hopen
        have hbody : (trimStart body).head?.any ['-', '}'].contains = Block.opensBody body := by
          unfold Block.opensBody
          cases trimStart body with
          | nil => rfl
          | cons d more => split <;> simp_all
        rw [beginsInside_cons _ _ _ (by decide), hbody]
        rfl
      · rw [beginsInside_of_ne _ _ _ hopen]
        simp [Block.isBare, hopen]

theorem beginsInside_quoted (text : List Char) :
    beginsInside '[' ']' ['"', ']'] text = some (BracketList.isQuoted text) := by
  cases text with
  | nil => rfl
  | cons c inside =>
      by_cases hopen : c = '['
      · subst hopen
        rw [beginsInside_cons _ _ _ (by decide), BracketList.isQuoted]
        refine congrArg some (congrArg (_ && ·) ?_)
        cases trimStart inside with
        | nil => rfl
        | cons d more => split <;> simp_all
      · rw [beginsInside_of_ne _ _ _ hopen]
        simp [BracketList.isQuoted, hopen]

theorem hasType_eq (type text : List Char) :
    Block.hasType type text = (Block.typeName? text).any (sameIgnoringCase · (trim type)) := by
  unfold Block.hasType
  cases Block.typeName? text <;> rfl

theorem dataValues_eq (type data : List Char) : dataValues type data = .of (readValues type data) := by
  simp only [dataValues, readValues, hasType_eq, typeName_eq, beginsInside_bare, beginsInside_quoted,
    Cutting.lift_bind, blockValues_eq, listValues_eq]
  cases (trim data).isEmpty with
  | true => rfl
  | false =>
      cases (Block.typeName? (trim data)).any (sameIgnoringCase · (trim type)) with
      | true => rfl
      | false =>
          cases Block.isBare (trim data) with
          | true => rfl
          | false => cases BracketList.isQuoted (trim data) <;> rfl

end MenuActions.Grammar.Cursor
