import Mathlib.Data.Nat.Notation

/-!
# Fields of a flat record

A C struct or union seen as one block of bits: a field is a range of bits, and two fields
may overlap. Writing a field leaves every bit outside it alone, so fields at disjoint ranges
are independent and a short message overwrites a prefix of the block.
-/

namespace V120.Common

variable {w : ℕ}

/-- The field of `len` bits that starts at bit `start`. -/
def field (start len : ℕ) (record : BitVec w) : BitVec len := record.extractLsb' start len

/-- Overwrite the field that starts at bit `start`. -/
def setField {len : ℕ} (start : ℕ) (value : BitVec len) (record : BitVec w) : BitVec w :=
  (record &&& ~~~((BitVec.allOnes len).setWidth w <<< start)) ||| (value.setWidth w <<< start)

/-- A written field shows its new bits, and every other bit is the old one. -/
theorem getLsbD_setField {len : ℕ} (start : ℕ) (value : BitVec len) (record : BitVec w) (i : ℕ) :
    (setField start value record).getLsbD i =
      if start ≤ i ∧ i < start + len ∧ i < w then value.getLsbD (i - start)
      else record.getLsbD i := by
  have hbit : (setField start value record).getLsbD i =
      (record.getLsbD i && (decide (i < w) && !(!decide (i < start) && decide (i - start < len))) ||
        (decide (i < w) && !decide (i < start) && value.getLsbD (i - start))) := by
    by_cases hw : i < w
    · simp [setField, hw]
    · simp [setField, hw]
  rw [hbit]
  by_cases hin : start ≤ i ∧ i < start + len ∧ i < w
  · have hlow : ¬ i < start := by omega
    have hlen : i - start < len := by omega
    rw [if_pos hin]
    simp [hin.2.2, hlow, hlen]
  · rw [if_neg hin]
    by_cases hw : i < w
    · by_cases hlow : i < start
      · simp [hw, hlow]
      · have hlen : ¬ i - start < len := by omega
        simp [hw, hlow, hlen, BitVec.getLsbD_of_ge value _ (Nat.le_of_not_lt hlen)]
    · simp [hw, BitVec.getLsbD_of_ge record i (Nat.le_of_not_lt hw)]

/-- A field inside the block reads back as it was written. -/
theorem field_setField_same {len : ℕ} (start : ℕ) (value : BitVec len) (record : BitVec w)
    (h : start + len ≤ w) : field start len (setField start value record) = value := by
  apply BitVec.eq_of_getLsbD_eq
  intro i hi
  rw [field, BitVec.getLsbD_extractLsb', getLsbD_setField, if_pos (by omega),
    Nat.add_sub_cancel_left, decide_eq_true hi, Bool.true_and]

/-- Writing one field leaves a disjoint one alone. -/
theorem field_setField_disjoint {len : ℕ} (start start' len' : ℕ) (value : BitVec len)
    (record : BitVec w) (h : start' + len' ≤ start ∨ start + len ≤ start') :
    field start' len' (setField start value record) = field start' len' record := by
  apply BitVec.eq_of_getLsbD_eq
  intro i hi
  rw [field, field, BitVec.getLsbD_extractLsb', BitVec.getLsbD_extractLsb', getLsbD_setField,
    if_neg (by omega)]

/-- A mask of one bit is a power of two. -/
theorem bit_eq_twoPow (i : ℕ) : (1 : BitVec w) <<< i = BitVec.twoPow w i :=
  (BitVec.twoPow_eq w i).symm

/-- Testing one bit of a mask. -/
theorem and_bit_ne_zero_iff (mask : BitVec w) (i : ℕ) :
    mask &&& ((1 : BitVec w) <<< i) ≠ 0 ↔ mask.getLsbD i = true := by
  rw [bit_eq_twoPow, BitVec.and_twoPow]
  cases hbit : mask.getLsbD i with
  | false => simp
  | true =>
    have hlt : i < w := BitVec.lt_of_getLsbD hbit
    have hne : BitVec.twoPow w i ≠ 0 := by
      intro hzero
      have hsame := congrArg (fun bits => bits.getLsbD i) hzero
      simp [hlt] at hsame
    simpa using hne

/-- The bits of a mask of one bit. -/
theorem getLsbD_bit (i j : ℕ) : ((1 : BitVec w) <<< i).getLsbD j = (decide (j < w) && decide (i = j)) := by
  rw [bit_eq_twoPow, BitVec.getLsbD_twoPow]
  by_cases hij : i = j <;> simp [hij]

/-- A mask of one bit keeps its bit in another width. -/
theorem setWidth_bit {v i : ℕ} (hi : i < w) : ((1 : BitVec w) <<< i).setWidth v = (1 : BitVec v) <<< i := by
  apply BitVec.eq_of_getLsbD_eq
  intro j hj
  rw [BitVec.getLsbD_setWidth, getLsbD_bit, getLsbD_bit]
  by_cases hij : i = j
  · simp [← hij, hi]
  · simp [hij]

/-- The parts of an appended number are its own. -/
theorem append_inj_iff {v : ℕ} (x x' : BitVec w) (y y' : BitVec v) :
    x ++ y = x' ++ y' ↔ x = x' ∧ y = y' := by
  constructor
  · intro h
    have hbit (i : ℕ) : (x ++ y).getLsbD i = (x' ++ y').getLsbD i := congrArg (BitVec.getLsbD · i) h
    simp only [BitVec.getLsbD_append] at hbit
    constructor
    · apply BitVec.eq_of_getLsbD_eq
      intro i _
      have hhigh := hbit (i + v)
      rwa [if_neg (by omega), if_neg (by omega), Nat.add_sub_cancel] at hhigh
    · apply BitVec.eq_of_getLsbD_eq
      intro i hi
      have hlow := hbit i
      rwa [if_pos hi, if_pos hi] at hlow
  · rintro ⟨rfl, rfl⟩
    rfl

variable {a b c : ℕ}

/-- Three fields as one number. -/
def packed (x : BitVec a) (y : BitVec b) (z : BitVec c) : BitVec (a + b + c) := x ++ y ++ z

/-- Packed fields are equal when each field is. -/
theorem packed_inj_iff (x x' : BitVec a) (y y' : BitVec b) (z z' : BitVec c) :
    packed x y z = packed x' y' z' ↔ x = x' ∧ y = y' ∧ z = z' := by
  rw [packed, packed, append_inj_iff, append_inj_iff, and_assoc]

/-- The bits that packed fields share are those that the fields share. -/
theorem packed_and (x x' : BitVec a) (y y' : BitVec b) (z z' : BitVec c) :
    packed x y z &&& packed x' y' z' = packed (x &&& x') (y &&& y') (z &&& z') := by
  rw [packed, packed, BitVec.and_append, BitVec.and_append]
  rfl

end V120.Common
