import V120.Common.Cells
import V120.Common.TextCursor
import V120.Common.Numerals

/-!
# Editing a line

`editline` of `helpers.c` edits a string in place, in an array of which it may use so many bytes. It is
compared with an editor that keeps the text on both sides of the cursor. The insertion moves what is right
of the cursor, with the byte in front of the cursor, back by one; at the start of the line this is the byte
in front of the array, which is overwritten by the new character.

A key is the number that `ttgetc` returns. The locale is that of C, and a key that is not a character is
not printable.
-/

namespace V120.Tui

open V120.Common

/-- `isprint`. -/
def isprint (c : ℤ) : Bool := 0x20 ≤ c && c ≤ 0x7e

/-- What the `switch` of `editline` tells apart, apart from the keys that end the line. -/
inductive EditKey where
  | backspace
  | delete
  | left
  | right
  | other
  deriving DecidableEq

/-- The `switch` of `editline`: `0177`, `KEY_BACKSPACE` and `TO_CTRL('H')`, `KEY_DC`, `KEY_LEFT` and
`KEY_RIGHT`. -/
def editKeyOf (c : ℤ) : EditKey :=
  if c = 0x7f ∨ c = 263 ∨ c = 8 then .backspace
  else if c = 330 then .delete
  else if c = 260 then .left
  else if c = 261 then .right
  else .other

/-- A key that ends the line: one of those that the caller names, the end of the line, or escape. -/
def exitKey (exits : List Octet) (c : ℤ) : Bool :=
  exits.any (fun p => c == p.toInt) || c == 0x0a || c == 0x1b

/-- The array with the cursor and the end of the string. -/
structure LineEdit where
  s : Cells Octet
  tpos : ℤ
  tail : ℤ
  deriving DecidableEq

/-- What the `switch` does with a key that does not end the line. -/
def switchKey (n c : ℤ) (e : LineEdit) : Option LineEdit :=
  match editKeyOf c with
  | .backspace =>
    if 0 < e.tpos then
      (Cells.pull (e.tail - e.tpos).toNat (e.tpos - 1) e.s).map fun s => ⟨s, e.tpos - 1, e.tail - 1⟩
    else some e
  | .delete =>
    if e.tpos < e.tail then
      (Cells.pull (e.tail - e.tpos).toNat e.tpos e.s).map fun s => ⟨s, e.tpos, e.tail - 1⟩
    else some e
  | .left => some (if 0 < e.tpos then { e with tpos := e.tpos - 1 } else e)
  | .right => some (if e.tpos < e.tail then { e with tpos := e.tpos + 1 } else e)
  | .other =>
    if ¬ isprint c then some e
    else if n - 1 ≤ e.tail then some e
    else do
      let s ← Cells.push (e.tail - e.tpos + 1).toNat e.tail e.s
      let s ← s.write e.tpos (BitVec.ofInt 8 c)
      some ⟨s, e.tpos + 1, e.tail + 1⟩

/-- One turn of the loop with a key that does not end the line. -/
def editKey (n c : ℤ) (e : LineEdit) : Option LineEdit := do
  let e ← switchKey n c e
  let s ← e.s.write e.tail 0
  some { e with s := s }

/-- Where the loop stands when the keys end: it has returned with a key, and not read the others, or it waits
for the next key. -/
inductive EditEnd where
  | returned (ret : ℤ) (e : LineEdit) (keys : List ℤ)
  | waiting (e : LineEdit)
  deriving DecidableEq

/-- The loop of `editline`. -/
def editLoop (n : ℤ) (exits : List Octet) : List ℤ → LineEdit → Option EditEnd
  | [], e => some (.waiting e)
  | c :: keys, e =>
    if exitKey exits c then some (.returned c e keys) else (editKey n c e).bind (editLoop n exits keys)

/-- `strlen`, unless the string does not end in the array. -/
def strlen (s : List Octet) : Option ℕ := s.findIdx? (· == 0)

/-- `editline`; `*cpos` is `tpos` at the end. There is no answer when it writes outside of the array. -/
def editline (n : ℤ) (exits : List Octet) (cpos : ℤ) (keys : List ℤ) (s : Cells Octet) : Option EditEnd := do
  let length ← strlen s.cells
  let tail : ℤ := length
  let tpos := if tail < cpos then tail else if cpos < 0 then 0 else cpos
  editLoop n exits keys ⟨s, tpos, tail⟩

/-- A key at the text with its cursor, for texts that are shorter than so many characters. -/
def idealKey (n c : ℤ) (t : TextCursor Octet) : TextCursor Octet :=
  match editKeyOf c with
  | .backspace => t.backspace
  | .delete => t.delete
  | .left => t.back
  | .right => t.forth
  | .other => if isprint c ∧ (t.text.length : ℤ) < n - 1 then t.insert (BitVec.ofInt 8 c) else t

/-- Keys one after the other. -/
def idealKeys (n : ℤ) (keys : List ℤ) (t : TextCursor Octet) : TextCursor Octet :=
  keys.foldl (fun t c => idealKey n c t) t

/-- The text with the cursor at a place, or at the end of the text nearest to it. -/
def idealStart (text : List Octet) (cpos : ℤ) : TextCursor Octet := .ofText text (min cpos.toNat text.length)

/-- What a text with its cursor looks like in memory, between the byte in front of the array and the bytes
behind the text. -/
def held (before : Octet) (behind : List Octet) (t : TextCursor Octet) : LineEdit :=
  ⟨⟨before, t.text ++ behind⟩, t.cursor, t.text.length⟩

/-- A text with its cursor in memory, from its parts. -/
theorem held_mk (before : Octet) (behind left right : List Octet) :
    held before behind ⟨left, right⟩ =
      ⟨⟨before, left.reverse ++ (right ++ behind)⟩, left.length, left.length + right.length⟩ := by
  have hlength : ((TextCursor.text ⟨left, right⟩).length : ℤ) = left.length + right.length := by
    rw [TextCursor.length_text, Nat.cast_add]
  rw [held, hlength, TextCursor.text, List.append_assoc, TextCursor.cursor]

variable {n c : ℤ} {before : Octet}

/-- The `switch` leaves a text with its cursor in memory, with some byte at the place of the `'\0'`, in an
array of the same size. -/
def SwitchesTo (n c : ℤ) (before : Octet) (rest : List Octet) (t t' : TextCursor Octet) : Prop :=
  ∃ y rest', switchKey n c (held before (0 :: rest) t) = some (held before (y :: rest') t') ∧
    t'.text.length + rest'.length = t.text.length + rest.length

/-- The turn ends with the `'\0'`. -/
theorem SwitchesTo.editKey {rest : List Octet} {t t' : TextCursor Octet} (h : SwitchesTo n c before rest t t') :
    ∃ rest', editKey n c (held before (0 :: rest) t) = some (held before (0 :: rest') t') ∧
      t'.text.length + rest'.length = t.text.length + rest.length := by
  obtain ⟨y, rest', hswitch, hsize⟩ := h
  have hwrite : (held before (y :: rest') t').s.write (held before (y :: rest') t').tail 0 =
      some (held before (0 :: rest') t').s := Cells.write_append before t'.text rest' y 0
  refine ⟨rest', ?_, hsize⟩
  simp only [Tui.editKey, hswitch, Option.bind_eq_bind, Option.bind_some, hwrite]
  rfl

/-- A key that changes nothing. -/
theorem switchesTo_same {rest : List Octet} {t : TextCursor Octet}
    (h : switchKey n c (held before (0 :: rest) t) = some (held before (0 :: rest) t)) :
    SwitchesTo n c before rest t t :=
  ⟨0, rest, h, rfl⟩

/-- Backspace. -/
theorem switch_backspace (hkey : editKeyOf c = .backspace) (rest : List Octet) (t : TextCursor Octet) :
    SwitchesTo n c before rest t t.backspace := by
  obtain ⟨left, right⟩ := t
  cases left with
  | nil =>
    apply switchesTo_same
    simp only [switchKey, hkey]
    exact if_neg (Int.lt_irrefl 0)
  | cons x left =>
    have hcursor : 0 < ((x :: left).length : ℤ) := Int.natCast_pos.mpr (Nat.succ_pos _)
    have hplace : ((x :: left).length : ℤ) - 1 = left.reverse.length := by
      rw [List.length_reverse, List.length_cons]
      omega
    have htail : ((x :: left).length : ℤ) + right.length - 1 = left.length + right.length := by
      rw [List.length_cons]
      omega
    have hturns : (((x :: left).length : ℤ) + right.length - (x :: left).length).toNat = right.length := by
      omega
    obtain ⟨y, hpull⟩ := Cells.pull_append before left.reverse right (0 :: rest) x
    refine ⟨y, 0 :: rest, ?_, ?_⟩
    · simp only [switchKey, hkey, held_mk, TextCursor.backspace, if_pos hcursor, hturns, hplace, htail,
        List.reverse_cons, List.append_assoc, List.singleton_append, hpull, Option.map_some]
      rw [List.length_reverse]
    · simp only [TextCursor.length_text, TextCursor.backspace, List.length_cons]
      omega

/-- Delete; the `'\0'` is pulled along. -/
theorem switch_delete (hkey : editKeyOf c = .delete) (rest : List Octet) (t : TextCursor Octet) :
    SwitchesTo n c before rest t t.delete := by
  obtain ⟨left, right⟩ := t
  cases right with
  | nil =>
    apply switchesTo_same
    simp only [switchKey, hkey, held_mk, List.length_nil, Nat.cast_zero, Int.add_zero]
    exact if_neg (Int.lt_irrefl _)
  | cons x right =>
    have hcursor : (left.length : ℤ) < left.length + (x :: right).length := by
      rw [List.length_cons]
      omega
    have htail : (left.length : ℤ) + (x :: right).length - 1 = left.length + right.length := by
      rw [List.length_cons]
      omega
    have hturns : ((left.length : ℤ) + (x :: right).length - left.length).toNat =
        (right ++ [0]).length := by
      rw [List.length_append, List.length_cons, List.length_singleton]
      omega
    have hplace : (left.length : ℤ) = left.reverse.length := congrArg Nat.cast List.length_reverse.symm
    obtain ⟨y, hpull⟩ := Cells.pull_append before left.reverse (right ++ [0]) rest x
    rw [List.append_assoc, List.append_assoc, ← hplace] at hpull
    refine ⟨0, y :: rest, ?_, ?_⟩
    · simp only [switchKey, hkey, held_mk, TextCursor.delete, if_pos hcursor, hturns, htail]
      exact congrArg (Option.map _) hpull
    · simp only [TextCursor.length_text, TextCursor.delete, List.length_cons]
      omega

/-- The cursor moves to the left. -/
theorem switch_left (hkey : editKeyOf c = .left) (rest : List Octet) (t : TextCursor Octet) :
    SwitchesTo n c before rest t t.back := by
  obtain ⟨left, right⟩ := t
  refine ⟨0, rest, ?_, ?_⟩
  · cases left with
    | nil =>
      simp only [switchKey, hkey]
      exact congrArg some (if_neg (Int.lt_irrefl 0))
    | cons x left =>
      have hcursor : 0 < ((x :: left).length : ℤ) := Int.natCast_pos.mpr (Nat.succ_pos _)
      have hplace : ((x :: left).length : ℤ) - 1 = left.length := by
        rw [List.length_cons]
        omega
      have htail : ((x :: left).length : ℤ) + right.length = left.length + (x :: right).length := by
        rw [List.length_cons, List.length_cons]
        omega
      simp only [switchKey, hkey, held_mk, TextCursor.back, if_pos hcursor, hplace, htail, List.reverse_cons,
        List.append_assoc]
      rfl
  · rw [TextCursor.text_back]

/-- The cursor moves to the right. -/
theorem switch_right (hkey : editKeyOf c = .right) (rest : List Octet) (t : TextCursor Octet) :
    SwitchesTo n c before rest t t.forth := by
  obtain ⟨left, right⟩ := t
  refine ⟨0, rest, ?_, ?_⟩
  · cases right with
    | nil =>
      have hcursor : ¬ (left.length : ℤ) < left.length + ([] : List Octet).length := by
        rw [List.length_nil]
        omega
      simp only [switchKey, hkey, held_mk, TextCursor.forth, if_neg hcursor]
    | cons x right =>
      have hcursor : (left.length : ℤ) < left.length + (x :: right).length := by
        rw [List.length_cons]
        omega
      have htail : (left.length : ℤ) + (x :: right).length = (x :: left).length + right.length := by
        rw [List.length_cons, List.length_cons]
        omega
      have hplace : (left.length : ℤ) + 1 = (x :: left).length := rfl
      simp only [switchKey, hkey, held_mk, TextCursor.forth]
      rw [if_pos hcursor, hplace, htail, List.reverse_cons, List.append_assoc]
      rfl
  · rw [TextCursor.text_forth]

/-- A key that inserts a character: what is behind the `'\0'` stays, whether there is something or not. -/
theorem switchKey_insert (hkey : editKeyOf c = .other) (hprint : isprint c = true) (before : Octet)
    (rest left right : List Octet) (hshort : (left.length : ℤ) + right.length < n - 1) :
    switchKey n c (held before (0 :: rest) ⟨left, right⟩) =
      some ⟨⟨before, left.reverse ++ BitVec.ofInt 8 c :: (right ++ rest)⟩, left.length + 1,
        left.length + right.length + 1⟩ := by
  have hnot : ¬ n - 1 ≤ (left.length : ℤ) + right.length := by omega
  have hturns : ((left.length : ℤ) + right.length - left.length + 1).toNat = right.length + 1 := by omega
  have hplace : (left.length : ℤ) = left.reverse.length := congrArg Nat.cast List.length_reverse.symm
  obtain ⟨gap, hpush⟩ := Cells.push_append before left.reverse right rest 0
  have hwrite := Cells.write_append before left.reverse (right ++ rest) gap (BitVec.ofInt 8 c)
  rw [← hplace] at hpush hwrite
  simp only [switchKey, hkey, hprint, held_mk, if_neg hnot, hturns, hpush, Option.bind_eq_bind,
    Option.bind_some, hwrite]
  exact if_neg (not_not_intro trivial)

/-- A key that inserts a character, when there is room for it. -/
theorem switch_insert (hkey : editKeyOf c = .other) (hprint : isprint c = true) {rest : List Octet}
    {t : TextCursor Octet} (hshort : (t.text.length : ℤ) < n - 1) (hroom : rest ≠ []) :
    SwitchesTo n c before rest t (t.insert (BitVec.ofInt 8 c)) := by
  obtain ⟨left, right⟩ := t
  obtain ⟨y, rest, rfl⟩ := List.exists_cons_of_ne_nil hroom
  rw [TextCursor.length_text_mk, Nat.cast_add] at hshort
  have htail : (left.length : ℤ) + right.length + 1 = (BitVec.ofInt 8 c :: left).length + right.length := by
    rw [List.length_cons]
    omega
  refine ⟨y, rest, ?_, ?_⟩
  · rw [switchKey_insert hkey hprint before _ left right hshort, TextCursor.insert, held_mk, htail,
      List.reverse_cons, List.append_assoc]
    rfl
  · rw [TextCursor.length_text_insert, List.length_cons]
    omega

/-- A key at a text with its cursor in memory, with an array that has as many bytes as it is said to have. -/
theorem editKey_held (c : ℤ) (before : Octet) {rest : List Octet} {t : TextCursor Octet}
    (hroom : n ≤ t.text.length + rest.length + 1) :
    ∃ rest', editKey n c (held before (0 :: rest) t) = some (held before (0 :: rest') (idealKey n c t)) ∧
      (idealKey n c t).text.length + rest'.length = t.text.length + rest.length := by
  apply SwitchesTo.editKey
  cases hkey : editKeyOf c with
  | backspace =>
    rw [idealKey, hkey]
    exact switch_backspace hkey rest t
  | delete =>
    rw [idealKey, hkey]
    exact switch_delete hkey rest t
  | left =>
    rw [idealKey, hkey]
    exact switch_left hkey rest t
  | right =>
    rw [idealKey, hkey]
    exact switch_right hkey rest t
  | other =>
    by_cases hinsert : isprint c ∧ (t.text.length : ℤ) < n - 1
    · have hmore : rest ≠ [] := by
        rintro rfl
        rw [List.length_nil] at hroom
        omega
      simp only [idealKey, hkey, if_pos hinsert]
      exact switch_insert hkey hinsert.1 hinsert.2 hmore
    · simp only [idealKey, hkey, if_neg hinsert]
      apply switchesTo_same
      by_cases hprint : isprint c = true
      · have hfull : n - 1 ≤ (held before (0 :: rest) t).tail :=
          Int.not_lt.mp fun hshort => hinsert ⟨hprint, hshort⟩
        simp only [switchKey, hkey, if_pos hfull, ite_self]
      · simp only [switchKey, hkey, if_pos hprint]

/-- Keys that do not end the line leave a text with its cursor in memory, and the others are still to be
read. -/
theorem editLoop_held {exits : List Octet} {keys : List ℤ} (hkeys : ∀ c ∈ keys, exitKey exits c = false)
    (before : Octet) {rest : List Octet} {t : TextCursor Octet}
    (hroom : n ≤ t.text.length + rest.length + 1) :
    ∃ rest', (∀ more, editLoop n exits (keys ++ more) (held before (0 :: rest) t) =
        editLoop n exits more (held before (0 :: rest') (idealKeys n keys t))) ∧
      (idealKeys n keys t).text.length + rest'.length = t.text.length + rest.length := by
  induction keys generalizing rest t with
  | nil => exact ⟨rest, fun _ => rfl, rfl⟩
  | cons c keys ih =>
    obtain ⟨hc, hkeys⟩ := List.forall_mem_cons.mp hkeys
    obtain ⟨rest₁, hkey, hsize⟩ := editKey_held c before hroom
    have hroom' : n ≤ (idealKey n c t).text.length + rest₁.length + 1 := by omega
    obtain ⟨rest', hloop, hsize'⟩ := ih hkeys hroom'
    refine ⟨rest', fun more => ?_, hsize'.trans hsize⟩
    rw [List.cons_append, editLoop, hc, if_neg Bool.false_ne_true, hkey, Option.bind_some, hloop more]
    rfl

/-- A printable character is not `'\0'`. -/
theorem ofInt_ne_zero_of_isprint (hprint : isprint c = true) : BitVec.ofInt 8 c ≠ 0 := by
  rw [isprint, Bool.and_eq_true, decide_eq_true_iff, decide_eq_true_iff] at hprint
  intro hzero
  have hvalue : (BitVec.ofInt 8 c).toNat = 0 := congrArg BitVec.toNat hzero
  rw [BitVec.toNat_ofInt] at hvalue
  omega

/-- A key does not put a `'\0'` into the text. -/
theorem idealKey_nul (n c : ℤ) {t : TextCursor Octet} (h : 0 ∉ t.text) : 0 ∉ (idealKey n c t).text := by
  rw [idealKey]
  cases editKeyOf c with
  | backspace => exact fun hmem => h (t.backspace_sublist.subset hmem)
  | delete => exact fun hmem => h (t.delete_sublist.subset hmem)
  | left => rwa [TextCursor.text_back]
  | right => rwa [TextCursor.text_forth]
  | other =>
    dsimp only
    split
    case isTrue hinsert =>
      rw [TextCursor.mem_text_insert, not_or]
      exact ⟨(ofInt_ne_zero_of_isprint hinsert.1).symm, h⟩
    case isFalse => exact h

/-- A key does not make the text longer than it may be. -/
theorem idealKey_length {n m : ℤ} (hn : n - 1 ≤ m) (c : ℤ) {t : TextCursor Octet}
    (h : (t.text.length : ℤ) ≤ m) : ((idealKey n c t).text.length : ℤ) ≤ m := by
  rw [idealKey]
  cases editKeyOf c with
  | backspace =>
    have hle := t.backspace_sublist.length_le
    dsimp only
    omega
  | delete =>
    have hle := t.delete_sublist.length_le
    dsimp only
    omega
  | left => rwa [TextCursor.text_back]
  | right => rwa [TextCursor.text_forth]
  | other =>
    dsimp only
    split
    case isTrue hinsert =>
      rw [TextCursor.length_text_insert]
      omega
    case isFalse => exact h

/-- Several keys bring no `'\0'` into the text. -/
theorem idealKeys_nul (n : ℤ) (keys : List ℤ) {t : TextCursor Octet} (h : 0 ∉ t.text) :
    0 ∉ (idealKeys n keys t).text := by
  induction keys generalizing t with
  | nil => exact h
  | cons c keys ih => exact ih (idealKey_nul n c h)

/-- The text stays as short as it has to be. -/
theorem idealKeys_length {n m : ℤ} (hn : n - 1 ≤ m) (keys : List ℤ) {t : TextCursor Octet}
    (h : (t.text.length : ℤ) ≤ m) : ((idealKeys n keys t).text.length : ℤ) ≤ m := by
  induction keys generalizing t with
  | nil => exact h
  | cons c keys ih => exact ih (idealKey_length hn c h)

/-- A call of `editline` begins with the string in the array, and the cursor in it. -/
theorem editline_eq (n : ℤ) (exits : List Octet) (cpos : ℤ) (keys : List ℤ) (before : Octet)
    {text : List Octet} (hnul : 0 ∉ text) (rest : List Octet) :
    editline n exits cpos keys ⟨before, text ++ 0 :: rest⟩ =
      editLoop n exits keys (held before (0 :: rest) (idealStart text cpos)) := by
  have hlength : strlen (text ++ 0 :: rest) = some text.length := by
    apply findIdx?_append_cons
    · intro c hc
      exact beq_false_of_ne fun hzero => hnul (hzero ▸ hc)
    · rfl
  have hcursor : (if (text.length : ℤ) < cpos then (text.length : ℤ) else if cpos < 0 then 0 else cpos) =
      (idealStart text cpos).cursor := by
    rw [idealStart, TextCursor.cursor_ofText (Nat.min_le_right _ _)]
    split
    · omega
    · split <;> omega
  rw [editline, hlength, Option.bind_eq_bind, Option.bind_some]
  dsimp only
  rw [hcursor, held, idealStart, TextCursor.text_ofText]

/-- The array and the cursor show a text with its cursor: the string in the array is the text, it ends inside
of the bytes that may be used, and the cursor is in it. -/
structure Refines (n : ℤ) (e : LineEdit) (t : TextCursor Octet) : Prop where
  string : ∃ rest, e.s.cells = t.text ++ 0 :: rest
  nul : 0 ∉ t.text
  tpos : e.tpos = t.cursor
  inside : 0 ≤ e.tpos ∧ e.tpos ≤ t.text.length ∧ (t.text.length : ℤ) ≤ n - 1

/-- The keys of the ideal editor show in memory. -/
theorem refines_idealKeys {n : ℤ} (keys : List ℤ) (before : Octet) (rest : List Octet)
    {t : TextCursor Octet} (hnul : 0 ∉ t.text) (hshort : (t.text.length : ℤ) ≤ n - 1) :
    Refines n (held before (0 :: rest) (idealKeys n keys t)) (idealKeys n keys t) :=
  ⟨⟨rest, rfl⟩, idealKeys_nul n keys hnul, rfl, Int.natCast_nonneg _,
    Int.ofNat_le.mpr (TextCursor.cursor_le _), idealKeys_length le_rfl keys hshort⟩

/-- `editline` does what the ideal editor does, key by key, whatever is in front of the array: while it waits
for the next key, and when an exit key has ended the line. -/
theorem editline_refines {n : ℤ} {text rest : List Octet} (hnul : 0 ∉ text) (hshort : (text.length : ℤ) < n)
    (hroom : n ≤ (text ++ 0 :: rest).length) (before : Octet) (exits : List Octet) (cpos : ℤ) {keys : List ℤ}
    (hkeys : ∀ c ∈ keys, exitKey exits c = false) {last : ℤ} (hlast : exitKey exits last = true)
    (more : List ℤ) :
    (∀ typed, typed <+: keys → ∃ e, editline n exits cpos typed ⟨before, text ++ 0 :: rest⟩ =
        some (.waiting e) ∧ Refines n e (idealKeys n typed (idealStart text cpos))) ∧
      ∃ e, editline n exits cpos (keys ++ last :: more) ⟨before, text ++ 0 :: rest⟩ =
        some (.returned last e more) ∧ Refines n e (idealKeys n keys (idealStart text cpos)) := by
  have htext : (idealStart text cpos).text = text := TextCursor.text_ofText _ _
  have hstart : 0 ∉ (idealStart text cpos).text := by rwa [htext]
  have hbound : ((idealStart text cpos).text.length : ℤ) ≤ n - 1 := by
    rw [htext]
    omega
  have hsize : n ≤ (idealStart text cpos).text.length + rest.length + 1 := by
    rw [List.length_append, List.length_cons] at hroom
    rw [htext]
    omega
  constructor
  · intro typed htyped
    obtain ⟨rest', hloop, -⟩ :=
      editLoop_held (fun c hc => hkeys c (htyped.subset hc)) before hsize
    refine ⟨_, ?_, refines_idealKeys typed before rest' hstart hbound⟩
    have hwaiting := hloop []
    rw [List.append_nil] at hwaiting
    rw [editline_eq n exits cpos typed before hnul rest, hwaiting]
    rfl
  · obtain ⟨rest', hloop, -⟩ := editLoop_held hkeys before hsize
    refine ⟨_, ?_, refines_idealKeys keys before rest' hstart hbound⟩
    rw [editline_eq n exits cpos _ before hnul rest, hloop, editLoop, if_pos hlast]

/-- An empty line of three bytes: `A`, `B`, the cursor to the left, `C` for which there is no room, backspace,
and the end of the line. -/
theorem editline_refines_short :
    (0 : Octet) ∉ ([] : List Octet) ∧ (([] : List Octet).length : ℤ) < 3 ∧
      (3 : ℤ) ≤ (([] : List Octet) ++ 0 :: [0, 0]).length ∧
      (∀ c ∈ [65, 66, 260, 67, 8], exitKey [] c = false) ∧ exitKey [] 10 = true ∧
      (∀ typed, typed <+: [65, 66, 260, 67, 8] → ∃ e, editline 3 [] 0 typed ⟨0x78, [] ++ 0 :: [0, 0]⟩ =
          some (.waiting e) ∧ Refines 3 e (idealKeys 3 typed (idealStart [] 0))) ∧
      ∃ e, editline 3 [] 0 ([65, 66, 260, 67, 8] ++ 10 :: []) ⟨0x78, [] ++ 0 :: [0, 0]⟩ =
        some (.returned 10 e []) ∧ Refines 3 e (idealKeys 3 [65, 66, 260, 67, 8] (idealStart [] 0)) :=
  ⟨by decide, by decide, by decide, by decide, by decide,
    editline_refines (by decide) (by decide) (by decide) 0x78 [] 0 (by decide) (by decide) []⟩

end V120.Tui
