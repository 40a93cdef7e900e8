import V120.Common.Texts

/-!
# Values in memory

A value is as many octets of memory as it is long, the least significant one first. A store changes its own
octets only, and what was stored is loaded, as much of it as there is room for.
-/

namespace V120.Common

/-- The value of so many octets from an offset on. -/
def valueAt {w : ℕ} : ℕ → (ℕ → Octet) → ℕ → BitVec w
  | 0, _, _ => 0
  | size + 1, memory, offs => (memory offs).setWidth w ||| valueAt size memory (offs + 1) <<< 8

/-- The memory with so many octets of a value from an offset on. -/
def withValue {w : ℕ} (size : ℕ) (memory : ℕ → Octet) (offs : ℕ) (v : BitVec w) : ℕ → Octet := fun i =>
  if offs ≤ i ∧ i < offs + size then v.extractLsb' (8 * (i - offs)) 8 else memory i

variable {w size : ℕ} {memory memory' : ℕ → Octet} {offs : ℕ} {v : BitVec w}

/-- A store changes its octets. -/
theorem withValue_inside {i : ℕ} (hi : i < size) :
    withValue size memory offs v (offs + i) = v.extractLsb' (8 * i) 8 := by
  rw [withValue, if_pos ⟨Nat.le_add_right _ _, Nat.add_lt_add_left hi _⟩, Nat.add_sub_cancel_left]

/-- A store changes no octet outside its place. -/
theorem withValue_outside {i : ℕ} (hi : i < offs ∨ offs + size ≤ i) :
    withValue size memory offs v i = memory i := by
  apply if_neg
  omega

/-- A value depends on its octets only. -/
theorem valueAt_congr {offs' : ℕ} (h : ∀ i < size, memory' (offs' + i) = memory (offs + i)) :
    (valueAt size memory' offs' : BitVec w) = valueAt size memory offs := by
  induction size generalizing offs offs' with
  | zero => rfl
  | succ size ih =>
    have hfirst : memory' offs' = memory offs := h 0 (Nat.succ_pos _)
    have hrest : (valueAt size memory' (offs' + 1) : BitVec w) = valueAt size memory (offs + 1) := by
      apply ih
      intro i hi
      rw [Nat.add_assoc, Nat.add_comm 1 i, Nat.add_assoc, Nat.add_comm 1 i]
      exact h (i + 1) (Nat.succ_lt_succ hi)
    rw [valueAt, valueAt, hfirst, hrest]

/-- The bits of a value are those of its octets. -/
theorem getLsbD_valueAt (hsize : 8 * size ≤ w) {b : ℕ} (hb : b < 8 * size) :
    (valueAt size memory offs : BitVec w).getLsbD b = (memory (offs + b / 8)).getLsbD (b % 8) := by
  induction size generalizing offs b with
  | zero => omega
  | succ size ih =>
    rw [valueAt, BitVec.getLsbD_or, BitVec.getLsbD_setWidth, BitVec.getLsbD_shiftLeft]
    by_cases hlow : b < 8
    · have hoctet : b / 8 = 0 := Nat.div_eq_of_lt hlow
      have hword : b < w := by omega
      rw [hoctet, Nat.mod_eq_of_lt hlow]
      simp only [hlow, hword, decide_true, Bool.not_true, Bool.and_false, Bool.false_and, Bool.or_false,
        Bool.true_and, Nat.add_zero]
    · have hrest : (valueAt size memory (offs + 1) : BitVec w).getLsbD (b - 8) =
          (memory (offs + 1 + (b - 8) / 8)).getLsbD ((b - 8) % 8) := ih (by omega) (by omega)
      have hoctet : b / 8 = (b - 8) / 8 + 1 := by omega
      have hbit : (b - 8) % 8 = b % 8 := by omega
      have hnone : (memory offs).getLsbD b = false := BitVec.getLsbD_of_ge _ _ (Nat.not_lt.mp hlow)
      rw [hrest, hbit, hnone, hoctet, Nat.add_assoc, Nat.add_comm 1]
      have hword : b < w := by omega
      simp only [hword, hlow, decide_true, decide_false, Bool.and_false, Bool.false_or, Bool.not_false,
        Bool.true_and]

/-- Above its octets a value has no bits. -/
theorem getLsbD_valueAt_ge {b : ℕ} (hb : 8 * size ≤ b) :
    (valueAt size memory offs : BitVec w).getLsbD b = false := by
  induction size generalizing offs b with
  | zero => exact BitVec.getLsbD_zero
  | succ size ih =>
    have hfirst : (memory offs).getLsbD b = false := BitVec.getLsbD_of_ge _ _ (by omega)
    rw [valueAt, BitVec.getLsbD_or, BitVec.getLsbD_setWidth, BitVec.getLsbD_shiftLeft, hfirst,
      ih (by omega), Bool.and_false, Bool.and_false, Bool.or_false]

/-- Octets that are those of a value give it back. -/
theorem valueAt_eq (hsize : 8 * size ≤ w) (h : ∀ i < size, memory (offs + i) = v.extractLsb' (8 * i) 8) :
    valueAt size memory offs = (v.setWidth (8 * size)).setWidth w := by
  apply BitVec.eq_of_getLsbD_eq
  intro b hb
  rw [BitVec.getLsbD_setWidth, BitVec.getLsbD_setWidth]
  by_cases hinside : b < 8 * size
  · rw [getLsbD_valueAt hsize hinside, h _ (by omega), BitVec.getLsbD_extractLsb']
    have hbit : b % 8 < 8 := Nat.mod_lt _ (by decide)
    simp only [hbit, hb, hinside, decide_true, Bool.true_and]
    congr 1
    exact Nat.div_add_mod b 8
  · rw [getLsbD_valueAt_ge (Nat.not_lt.mp hinside)]
    simp only [hinside, decide_false, Bool.false_and, Bool.and_false]

/-- What was stored is loaded, as much of it as there is room for. -/
theorem valueAt_withValue (hsize : 8 * size ≤ w) :
    valueAt size (withValue size memory offs v) offs = (v.setWidth (8 * size)).setWidth w :=
  valueAt_eq hsize fun _ => withValue_inside

/-- A value beside the store is as it was. -/
theorem valueAt_withValue_of_disjoint {other : ℕ} (h : other + size ≤ offs ∨ offs + size ≤ other) :
    (valueAt size (withValue size memory offs v) other : BitVec w) = valueAt size memory other := by
  apply valueAt_congr
  intro i hi
  apply withValue_outside
  omega

/-- A value has no more than its octets. -/
theorem toNat_valueAt_lt (size : ℕ) (memory : ℕ → Octet) (offs : ℕ) :
    (valueAt size memory offs : BitVec w).toNat < 2 ^ (8 * size) := by
  apply Nat.lt_pow_two_of_testBit
  intro b hb
  exact getLsbD_valueAt_ge hb

end V120.Common
