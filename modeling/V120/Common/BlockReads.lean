import Mathlib.Data.List.GetD
import Mathlib.Data.Nat.Notation

/-!
# Reading a file block by block

A file is read from its start on, and its end is only noticed by a read that comes up short. A buffer
that is reused for every block holds, behind a short one, what the reads before left there.
-/

namespace V120.Common

variable {A : Type*}

/-- A file being read: what is left of it, and whether a read came up short. -/
structure InputStream (A : Type*) where
  rest : List A
  eof : Bool

/-- A file that was just opened. -/
def InputStream.ofContent (content : List A) : InputStream A := ⟨content, false⟩

/-- Read up to so many items. -/
def InputStream.read (size : ℕ) (stream : InputStream A) : List A × InputStream A :=
  (stream.rest.take size, ⟨stream.rest.drop size, stream.eof || decide (stream.rest.length < size)⟩)

/-- A buffer once items were read into it from its start on. -/
def fill {size : ℕ} (items : List A) (buf : Fin size → A) : Fin size → A := fun i => items.getD i (buf i)

/-- One block of a file. -/
def blockAt (size : ℕ) (content : List A) (k : ℕ) : List A := (content.drop (size * k)).take size

/-- A buffer that is read into again and again, before one of the reads. -/
def bufferBefore {size : ℕ} (content : List A) (buf : Fin size → A) : ℕ → Fin size → A
  | 0 => buf
  | k + 1 => fill (blockAt size content k) (bufferBefore content buf k)

/-- A block has its items from the file. -/
theorem getElem?_blockAt {size : ℕ} (content : List A) (k : ℕ) {i : ℕ} (hi : i < size) :
    (blockAt size content k)[i]? = content[size * k + i]? := by
  rw [blockAt, List.getElem?_take_of_lt hi, List.getElem?_drop]

/-- A buffer holds what was read, and behind that what it held before. -/
theorem bufferBefore_succ {size : ℕ} (content : List A) (buf : Fin size → A) (k : ℕ) (i : Fin size) :
    bufferBefore content buf (k + 1) i = content.getD (size * k + i) (bufferBefore content buf k i) := by
  rw [bufferBefore, fill, List.getD_eq_getElem?_getD, List.getD_eq_getElem?_getD,
    getElem?_blockAt content k i.isLt]

/-- Where the file goes on, the buffer holds the file. -/
theorem bufferBefore_inside {size : ℕ} (content : List A) (buf : Fin size → A) {k : ℕ} {i : Fin size}
    (hi : size * k + i < content.length) : bufferBefore content buf (k + 1) i = content[size * k + i] := by
  rw [bufferBefore_succ, List.getD_eq_getElem _ _ hi]

/-- Behind the end of the file the buffer holds what it held before. -/
theorem bufferBefore_behind {size : ℕ} (content : List A) (buf : Fin size → A) {k : ℕ} {i : Fin size}
    (hi : content.length ≤ size * k + i) :
    bufferBefore content buf (k + 1) i = bufferBefore content buf k i := by
  rw [bufferBefore_succ, List.getD_eq_default _ _ hi]

/-- Files that agree from the start of a block on have the same block there. -/
theorem blockAt_congr {size : ℕ} {content content' : List A} {k : ℕ}
    (h : ∀ i, size * k ≤ i → content[i]? = content'[i]?) : blockAt size content k = blockAt size content' k := by
  apply List.ext_getElem?
  intro i
  by_cases hi : i < size
  · rw [getElem?_blockAt _ _ hi, getElem?_blockAt _ _ hi, h _ (Nat.le_add_right _ _)]
  · rw [blockAt, blockAt, List.getElem?_eq_none, List.getElem?_eq_none]
    · exact Nat.le_trans (List.length_take_le _ _) (Nat.le_of_not_lt hi)
    · exact Nat.le_trans (List.length_take_le _ _) (Nat.le_of_not_lt hi)

end V120.Common
