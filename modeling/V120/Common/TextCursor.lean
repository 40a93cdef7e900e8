import Mathlib.Data.List.Basic

/-!
# A text with a cursor

The text of a line editor is what is left and what is right of its cursor. The left part is kept with the
character nearest to the cursor first, so that every operation looks at the ends next to the cursor.
-/

namespace V120.Common

/-- A text with a cursor in it. -/
structure TextCursor (A : Type*) where
  left : List A
  right : List A
  deriving DecidableEq

namespace TextCursor

variable {A : Type*}

/-- The text without the cursor. -/
def text (t : TextCursor A) : List A := t.left.reverse ++ t.right

/-- How many characters are left of the cursor. -/
def cursor (t : TextCursor A) : ℕ := t.left.length

/-- A text with the cursor at a place. -/
def ofText (text : List A) (cursor : ℕ) : TextCursor A := ⟨(text.take cursor).reverse, text.drop cursor⟩

/-- Put a character at the cursor, which moves behind it. -/
def insert (x : A) (t : TextCursor A) : TextCursor A := ⟨x :: t.left, t.right⟩

/-- Remove the character left of the cursor. -/
def backspace : TextCursor A → TextCursor A
  | ⟨[], right⟩ => ⟨[], right⟩
  | ⟨_ :: left, right⟩ => ⟨left, right⟩

/-- Remove the character right of the cursor. -/
def delete : TextCursor A → TextCursor A
  | ⟨left, []⟩ => ⟨left, []⟩
  | ⟨left, _ :: right⟩ => ⟨left, right⟩

/-- Move the cursor to the left. -/
def back : TextCursor A → TextCursor A
  | ⟨[], right⟩ => ⟨[], right⟩
  | ⟨x :: left, right⟩ => ⟨left, x :: right⟩

/-- Move the cursor to the right. -/
def forth : TextCursor A → TextCursor A
  | ⟨left, []⟩ => ⟨left, []⟩
  | ⟨left, x :: right⟩ => ⟨x :: left, right⟩

/-- The length of the text. -/
theorem length_text (t : TextCursor A) : t.text.length = t.left.length + t.right.length := by
  rw [text, List.length_append, List.length_reverse]

/-- The length of the text, from its parts. -/
theorem length_text_mk (left right : List A) : (text ⟨left, right⟩).length = left.length + right.length :=
  length_text _

/-- The cursor is in the text or behind it. -/
theorem cursor_le (t : TextCursor A) : t.cursor ≤ t.text.length := by
  rw [length_text]
  exact Nat.le_add_right _ _

/-- The characters of the text. -/
theorem mem_text {t : TextCursor A} {x : A} : x ∈ t.text ↔ x ∈ t.left ∨ x ∈ t.right := by
  rw [text, List.mem_append, List.mem_reverse]

/-- The text is the one the cursor was put in. -/
theorem text_ofText (line : List A) (cursor : ℕ) : (ofText line cursor).text = line := by
  rw [text, ofText, List.reverse_reverse, List.take_append_drop]

/-- The cursor is where it was put. -/
theorem cursor_ofText {line : List A} {cursor : ℕ} (h : cursor ≤ line.length) :
    (ofText line cursor).cursor = cursor := by
  rw [TextCursor.cursor, ofText, List.length_reverse, List.length_take, Nat.min_eq_left h]

/-- The inserted character is new. -/
theorem mem_text_insert {t : TextCursor A} {x y : A} : y ∈ (t.insert x).text ↔ y = x ∨ y ∈ t.text := by
  rw [mem_text, mem_text, insert, List.mem_cons, or_assoc]

/-- There is one more. -/
theorem length_text_insert (t : TextCursor A) (x : A) : (t.insert x).text.length = t.text.length + 1 := by
  rw [length_text, length_text, insert, List.length_cons]
  exact Nat.succ_add _ _

/-- A character is removed left of the cursor, if there is one. -/
theorem backspace_sublist (t : TextCursor A) : t.backspace.text.Sublist t.text := by
  obtain ⟨left, right⟩ := t
  cases left with
  | nil => exact List.Sublist.refl _
  | cons x left =>
    rw [backspace, text, text, List.reverse_cons]
    exact (List.sublist_append_left _ _).append_right right

/-- A character is removed right of the cursor, if there is one. -/
theorem delete_sublist (t : TextCursor A) : t.delete.text.Sublist t.text := by
  obtain ⟨left, right⟩ := t
  cases right with
  | nil => exact List.Sublist.refl _
  | cons x right =>
    rw [delete, text, text]
    exact (List.sublist_cons_self x right).append_left _

/-- The cursor moves in the same text. -/
theorem text_back (t : TextCursor A) : t.back.text = t.text := by
  obtain ⟨left, right⟩ := t
  cases left with
  | nil => rfl
  | cons x left =>
    rw [back, text, text, List.reverse_cons, List.append_assoc]
    rfl

/-- Moving the cursor to the right keeps the text. -/
theorem text_forth (t : TextCursor A) : t.forth.text = t.text := by
  obtain ⟨left, right⟩ := t
  cases right with
  | nil => rfl
  | cons x right =>
    rw [forth, text, text, List.reverse_cons, List.append_assoc]
    rfl

end TextCursor

end V120.Common
