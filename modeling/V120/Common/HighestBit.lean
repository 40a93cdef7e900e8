import V120.Common.BitFields
import Mathlib.Algebra.Ring.Nat
import Mathlib.Data.Int.Notation
import Mathlib.Data.Nat.Log

/-!
# The highest bit by halving

A search for the highest bit of a word halves the window the bit must lie in. When the upper half
of the window holds a bit, the half's width is counted and the word is shifted down by it; otherwise
only the lower half is left. What has been counted and the logarithm of what is left always add up
to the logarithm of the word.
-/

namespace V120.Common

variable {w : ℕ}

/-- The upper half of a window of `2 * s` bits. -/
def upperHalf (w s : ℕ) : BitVec w := (BitVec.allOnes s).setWidth w <<< s

/-- Count `s` and shift by it when one of the masked bits is set. -/
def countShift (mask : BitVec w) (s : ℕ) (found : ℤ × BitVec w) : ℤ × BitVec w :=
  if found.2 &&& mask ≠ 0 then (found.1 + s, found.2 >>> s) else found

/-- Search a window of `2 ^ k` bits, halving it `k` times. -/
def halvings : ℕ → ℤ × BitVec w → ℤ × BitVec w
  | 0, found => found
  | k + 1, found => halvings k (countShift (upperHalf w (2 ^ k)) (2 ^ k) found)

/-- What is left of `x` fits in a window of `n` bits, and what was counted makes up for what was
shifted out. -/
structure Searching (x : BitVec w) (n : ℕ) (found : ℤ × BitVec w) : Prop where
  nonzero : found.2 ≠ 0
  inside : found.2.toNat < 2 ^ n
  log2 : found.1 + found.2.toNat.log2 = x.toNat.log2

/-- The bits of the upper half. -/
theorem getLsbD_upperHalf (s i : ℕ) :
    (upperHalf w s).getLsbD i = decide (s ≤ i ∧ i < 2 * s ∧ i < w) := by
  rw [upperHalf, BitVec.getLsbD_shiftLeft, BitVec.getLsbD_setWidth, BitVec.getLsbD_allOnes]
  by_cases hw : i < w
  · by_cases hlow : s ≤ i
    · have hshifted : i - s < w := by omega
      have hhalf : i - s < s ↔ i < 2 * s := by omega
      simp [hw, hlow, hshifted, hhalf]
    · simp [hw, hlow]
  · simp [hw]

/-- A word has no bit from `n` on when it is below `2 ^ n`. -/
theorem getLsbD_of_toNat_lt {x : BitVec w} {n : ℕ} (h : x.toNat < 2 ^ n) {i : ℕ} (hi : n ≤ i) :
    x.getLsbD i = false :=
  Nat.testBit_lt_two_pow (Nat.lt_of_lt_of_le h (Nat.pow_le_pow_right Nat.zero_lt_two hi))

/-- Testing the upper half of the window compares the word with the half. -/
theorem and_upperHalf_ne_zero_iff {x : BitVec w} {s : ℕ} (hx : x.toNat < 2 ^ (2 * s)) :
    x &&& upperHalf w s ≠ 0 ↔ 2 ^ s ≤ x.toNat := by
  constructor
  · intro hne
    apply Nat.le_of_not_lt
    intro hlt
    apply hne
    apply BitVec.eq_of_getLsbD_eq
    intro i _
    have hempty : (0 : BitVec w).getLsbD i = false := BitVec.getLsbD_zero
    rw [BitVec.getLsbD_and, getLsbD_upperHalf, hempty]
    by_cases hlow : s ≤ i
    · rw [getLsbD_of_toNat_lt hlt hlow, Bool.false_and]
    · simp [hlow]
  · intro hle hzero
    apply Nat.not_lt_of_le hle
    apply Nat.lt_pow_two_of_testBit
    intro i hlow
    by_cases hinside : i < 2 * s ∧ i < w
    · have hbit := congrArg (BitVec.getLsbD · i) hzero
      rw [BitVec.getLsbD_and, getLsbD_upperHalf, decide_eq_true ⟨hlow, hinside⟩,
        Bool.and_true] at hbit
      exact hbit.trans BitVec.getLsbD_zero
    · rcases Nat.lt_or_ge i (2 * s) with hwindow | hbeyond
      · exact BitVec.getLsbD_of_ge x i (by omega)
      · exact getLsbD_of_toNat_lt hx hbeyond

/-- Shifting out `s` bits below the highest one takes `s` from the logarithm. -/
theorem log2_shiftRight {x s : ℕ} (h : 2 ^ s ≤ x) : s + (x >>> s).log2 = x.log2 := by
  have hx : x ≠ 0 := Nat.ne_of_gt (Nat.lt_of_lt_of_le (Nat.two_pow_pos s) h)
  have hbelow : s ≤ x.log2 := (Nat.le_log2 hx).mpr h
  have hshift : (x >>> s).log2 = x.log2 - s := by
    rw [Nat.shiftRight_eq_div_pow, Nat.log2_eq_log_two, Nat.log_div_base_pow,
      ← Nat.log2_eq_log_two]
  omega

/-- A search starts with the whole word. -/
theorem Searching.start {x : BitVec w} (h : x ≠ 0) : Searching x w (0, x) :=
  ⟨h, x.isLt, Int.zero_add _⟩

/-- One halving. -/
theorem Searching.countShift {x : BitVec w} {s : ℕ} {found : ℤ × BitVec w}
    (h : Searching x (2 * s) found) :
    Searching x s (countShift (upperHalf w s) s found) := by
  have htest := and_upperHalf_ne_zero_iff h.inside
  have hlog2 := h.log2
  unfold Common.countShift
  by_cases hhigh : 2 ^ s ≤ found.2.toNat
  · rw [if_pos (htest.mpr hhigh)]
    have hshift : (found.2 >>> s).toNat = found.2.toNat >>> s := BitVec.toNat_ushiftRight _ _
    have hdiv : found.2.toNat >>> s = found.2.toNat / 2 ^ s := Nat.shiftRight_eq_div_pow _ _
    constructor
    · intro hzero
      have hempty := congrArg BitVec.toNat hzero
      rw [hshift, hdiv] at hempty
      exact Nat.ne_of_gt (Nat.div_pos hhigh (Nat.two_pow_pos s)) hempty
    · have hwindow : (2 : ℕ) ^ (2 * s) = 2 ^ s * 2 ^ s := by rw [Nat.two_mul, Nat.pow_add]
      have hinside := h.inside
      rw [hwindow] at hinside
      rw [hshift, hdiv]
      exact (Nat.div_lt_iff_lt_mul (Nat.two_pow_pos s)).mpr hinside
    · have hcount := log2_shiftRight hhigh
      rw [hshift]
      omega
  · rw [if_neg (mt htest.mp hhigh)]
    exact ⟨h.nonzero, Nat.lt_of_not_le hhigh, hlog2⟩

/-- A search is over when the window is a single bit. -/
theorem Searching.counted {x : BitVec w} {found : ℤ × BitVec w} (h : Searching x 1 found) :
    found.1 = x.toNat.log2 := by
  have hone : found.2.toNat = 1 := by
    have hinside := h.inside
    have hnonzero : found.2.toNat ≠ 0 := fun hzero => h.nonzero (BitVec.eq_of_toNat_eq hzero)
    omega
  have hlog2 := h.log2
  have hlast : Nat.log2 1 = 0 := Nat.log2_two_pow (n := 0)
  rw [hone, hlast] at hlog2
  omega

/-- Halving a window of `2 ^ k` bits until one bit is left. -/
theorem Searching.halvings {x : BitVec w} (k : ℕ) {found : ℤ × BitVec w}
    (h : Searching x (2 ^ k) found) : (halvings k found).1 = x.toNat.log2 := by
  induction k generalizing found with
  | zero => exact h.counted
  | succ k ih =>
    apply ih
    apply Searching.countShift
    rwa [Nat.pow_succ, Nat.mul_comm] at h

/-- The value of a mask of one bit. -/
theorem toNat_bit {i : ℕ} (hi : i < w) : ((1 : BitVec w) <<< i).toNat = 2 ^ i := by
  rw [bit_eq_twoPow, BitVec.toNat_twoPow]
  exact Nat.mod_eq_of_lt (Nat.pow_lt_pow_right Nat.one_lt_two hi)

end V120.Common
