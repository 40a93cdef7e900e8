import V120.Common.Texts

/-!
# Cells of an array in memory

An array that is read and written through a pointer, with the one cell in front of it: loops that walk
back to the start of an array come to look at it. A place is counted from the start of the array; there
is no answer to a read of any other cell outside of the array, nor to a write of one.
-/

namespace V120.Common

/-- An array, and the cell in front of it, which belongs to something else. -/
structure Cells (A : Type*) where
  before : A
  cells : List A
  deriving DecidableEq

namespace Cells

variable {A : Type*}

/-- The cell at a place. -/
def read (m : Cells A) (i : ℤ) : Option A :=
  if i = -1 then some m.before else if i < 0 then none else m.cells[i.toNat]?

/-- The array with another cell at a place. -/
def write (m : Cells A) (i : ℤ) (x : A) : Option (Cells A) :=
  if 0 ≤ i ∧ i < m.cells.length then some { m with cells := m.cells.set i.toNat x } else none

/-- `for (; ...; ++i) s[i] = s[i + 1]`, for so many turns. -/
def pull : ℕ → ℤ → Cells A → Option (Cells A)
  | 0, _, m => some m
  | turns + 1, i, m => do
    let x ← m.read (i + 1)
    let m ← m.write i x
    pull turns (i + 1) m

/-- `for (; ...; --i) s[i] = s[i - 1]`, for so many turns. -/
def push : ℕ → ℤ → Cells A → Option (Cells A)
  | 0, _, m => some m
  | turns + 1, i, m => do
    let x ← m.read (i - 1)
    let m ← m.write i x
    push turns (i - 1) m

/-- A turn of the first loop. -/
theorem pull_succ {m m' : Cells A} {i : ℤ} {x : A} (turns : ℕ) (hread : m.read (i + 1) = some x)
    (hwrite : m.write i x = some m') : pull (turns + 1) i m = pull turns (i + 1) m' := by
  simp only [pull, hread, hwrite, Option.bind_eq_bind, Option.bind_some]

/-- A turn of the second loop. -/
theorem push_succ {m m' : Cells A} {i : ℤ} {x : A} (turns : ℕ) (hread : m.read (i - 1) = some x)
    (hwrite : m.write i x = some m') : push (turns + 1) i m = push turns (i - 1) m' := by
  simp only [push, hread, hwrite, Option.bind_eq_bind, Option.bind_some]

/-- There is no write behind the array. -/
theorem write_of_length_le {m : Cells A} {i : ℤ} (h : (m.cells.length : ℤ) ≤ i) (x : A) : m.write i x = none :=
  if_neg fun hinside => Int.not_lt.mpr h hinside.2

variable (before : A) (left right rest : List A)

/-- The cell behind the left part. -/
theorem read_append (x : A) : (Cells.mk before (left ++ x :: right)).read left.length = some x := by
  have hplace : ¬ (left.length : ℤ) = -1 := by omega
  rw [read, if_neg hplace, if_neg (by omega), Int.toNat_natCast, List.getElem?_append_right le_rfl,
    Nat.sub_self]
  rfl

/-- The last cell of the left part, or the one in front of the array. -/
theorem exists_read_append : ∃ x, (Cells.mk before (left ++ right)).read (left.length - 1) = some x := by
  cases left using List.reverseRecOn with
  | nil => exact ⟨before, rfl⟩
  | append_singleton left x =>
    refine ⟨x, ?_⟩
    have hplace : ((left ++ [x]).length : ℤ) - 1 = left.length := by
      rw [List.length_append, List.length_singleton]
      omega
    rw [hplace, List.append_assoc]
    exact read_append before left right x

/-- A write behind the left part. -/
theorem write_append (x y : A) : (Cells.mk before (left ++ x :: right)).write left.length y =
    some ⟨before, left ++ y :: right⟩ := by
  have hinside : 0 ≤ (left.length : ℤ) ∧ (left.length : ℤ) < (left ++ x :: right).length := by
    rw [List.length_append, List.length_cons]
    omega
  rw [write, if_pos hinside, Int.toNat_natCast, List.set_append_right _ _ le_rfl, Nat.sub_self]
  rfl

/-- The cells behind the left part are pulled over its next one; the last of them stays behind. -/
theorem pull_append (x : A) : ∃ y, pull right.length left.length ⟨before, left ++ x :: (right ++ rest)⟩ =
    some ⟨before, left ++ (right ++ y :: rest)⟩ := by
  induction right generalizing left x with
  | nil => exact ⟨x, rfl⟩
  | cons z right ih =>
    have hnext : (left.length : ℤ) + 1 = (left ++ [x]).length := by
      rw [List.length_append, List.length_singleton]
      rfl
    have hread : (Cells.mk before (left ++ x :: z :: (right ++ rest))).read (left.length + 1) = some z := by
      rw [hnext, List.append_cons left x]
      exact read_append before (left ++ [x]) (right ++ rest) z
    obtain ⟨y, hpull⟩ := ih (left ++ [z]) z
    refine ⟨y, ?_⟩
    rw [List.length_append, List.length_singleton, List.append_assoc, List.append_assoc] at hpull
    rw [List.length_cons, List.cons_append, pull_succ _ hread (write_append before left _ x z)]
    exact hpull

/-- The cells behind the left part are pushed back by one, and a cell stays in the gap; the one behind
them is lost. -/
theorem push_append (z : A) :
    ∃ gap, push (right.length + 1) (left.length + right.length) ⟨before, left ++ (right ++ z :: rest)⟩ =
      some ⟨before, left ++ gap :: (right ++ rest)⟩ := by
  induction right using List.reverseRecOn generalizing z rest with
  | nil =>
    obtain ⟨gap, hread⟩ := exists_read_append before left (z :: rest)
    have hplace : (left.length : ℤ) + (([] : List A).length : ℤ) = left.length := add_zero _
    refine ⟨gap, ?_⟩
    rw [hplace, List.nil_append]
    exact push_succ 0 hread (write_append before left rest z gap)
  | append_singleton right x ih =>
    obtain ⟨gap, hpush⟩ := ih (x :: rest) x
    refine ⟨gap, ?_⟩
    have hplace : (left.length : ℤ) + ((right ++ [x]).length : ℤ) = (left ++ (right ++ [x])).length := by
      rw [← Nat.cast_add]
      exact congrArg Nat.cast List.length_append.symm
    have hnext : ((left ++ (right ++ [x])).length : ℤ) - 1 = (left ++ right).length := by
      rw [← List.append_assoc, List.length_append, List.length_singleton]
      omega
    have hread : (Cells.mk before (left ++ ((right ++ [x]) ++ z :: rest))).read
        ((left ++ (right ++ [x])).length - 1) = some x := by
      rw [hnext, List.append_assoc right, ← List.append_assoc left]
      exact read_append before (left ++ right) (z :: rest) x
    have hwrite := write_append before (left ++ (right ++ [x])) rest z x
    rw [List.append_assoc left, List.append_assoc left, List.append_assoc right _ (x :: rest)] at hwrite
    have hturns : (right ++ [x]).length = right.length + 1 := List.length_append
    rw [hplace, hturns, push_succ _ hread hwrite, hnext, List.length_append, Nat.cast_add,
      List.append_assoc right]
    exact hpush

end Cells

end V120.Common
