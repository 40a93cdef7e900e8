import V120.Common.Horner
import V120.Tui.Rnm
import Mathlib.Data.BitVec
import Mathlib.Data.Int.ModEq

/-!
# The sign of a hash

`hashstring` evaluates a polynomial in 31 whose coefficients are the characters, modulo 2^64, and takes
the opposite of a negative number. The smallest `long` has none, so it stays negative.
-/

namespace V120.Tui

open V120.Common

/-- The characters of a string as numbers. -/
def signedChars (s : List Octet) : List ℤ := s.map BitVec.toInt

/-- The polynomial of `hashstring` without a limit on its size. -/
def hashPolynomial (s : List Octet) : ℤ := positional 31 (signedChars s)

/-- `hash % RNM_HASH_SIZE`, where `%` rounds toward zero. -/
def bucketIndex (hash : BitVec 64) : ℤ := hash.toInt.tmod rnmHashSize

/-- `NIL_HASH`. -/
def nilHash : BitVec 64 := -1

/-- The loop of `hashstring` evaluates the polynomial modulo 2^64. -/
theorem foldl_hash (s : List Octet) :
    s.foldl (fun hash c => 31 * hash + c.signExtend 64) (0 : BitVec 64) =
      BitVec.ofInt 64 (hashPolynomial s) := by
  have hchars : s.map (BitVec.signExtend 64) = (signedChars s).map (Int.castRingHom (BitVec 64)) := by
    rw [signedChars, List.map_map]
    rfl
  calc s.foldl (fun hash c => 31 * hash + c.signExtend 64) (0 : BitVec 64)
      = (s.map (BitVec.signExtend 64)).foldl (fun hash c => 31 * hash + c) 0 := by rw [List.foldl_map]
    _ = positional 31 ((signedChars s).map (Int.castRingHom (BitVec 64))) := by
        rw [foldl_horner, zero_mul, zero_add, hchars]
    _ = Int.castRingHom (BitVec 64) (positional 31 (signedChars s)) := by
        rw [← positional_map, map_ofNat]
    _ = BitVec.ofInt 64 (hashPolynomial s) := rfl

/-- The smallest `long` is the one number that stays negative. -/
theorem toInt_hashstring_neg_iff (s : List Octet) :
    (hashstring s).toInt < 0 ↔ BitVec.ofInt 64 (hashPolynomial s) = BitVec.intMin 64 := by
  rw [hashstring, foldl_hash]
  generalize BitVec.ofInt 64 (hashPolynomial s) = hash
  constructor
  · intro hnegative
    by_contra hother
    split at hnegative
    case isTrue hslt =>
      rw [BitVec.toInt_neg_of_ne_intMin hother] at hnegative
      have hbelow : hash.toInt < 0 := BitVec.slt_iff_toInt_lt.mp hslt
      omega
    case isFalse hslt =>
      exact hslt (BitVec.slt_iff_toInt_lt.mpr hnegative)
  · rintro rfl
    decide

/-- The smallest `long` is the value of the polynomials that leave 2^63 modulo 2^64. -/
theorem ofInt_eq_intMin_iff (n : ℤ) :
    BitVec.ofInt 64 n = BitVec.intMin 64 ↔ n ≡ 2 ^ 63 [ZMOD 2 ^ 64] := by
  rw [← BitVec.toNat_inj, BitVec.toNat_ofInt, Int.ModEq]
  have hvalue : (BitVec.intMin 64).toNat = 2 ^ 63 := by decide
  rw [hvalue]
  omega

/-- What the table of names relies on: the hash of a string is not negative, its bucket is one of the
table, and it is not the mark of an empty entry. -/
structure ProperHash (s : List Octet) : Prop where
  nonneg : 0 ≤ (hashstring s).toInt
  bucketNonneg : 0 ≤ bucketIndex (hashstring s)
  bucketLt : bucketIndex (hashstring s) < rnmHashSize
  notNil : hashstring s ≠ nilHash

/-- All of it follows from the sign. -/
theorem ProperHash.of_nonneg {s : List Octet} (h : 0 ≤ (hashstring s).toInt) : ProperHash s := by
  constructor
  · exact h
  · exact Int.tmod_nonneg _ h
  · exact Int.tmod_lt_of_pos _ (by decide)
  · intro hnil
    rw [hnil] at h
    exact absurd h (by decide)

/-- The bucket of the table is then the one that is computed. -/
theorem ProperHash.bucketOf {s : List Octet} (h : ProperHash s) :
    ((bucketOf (hashstring s) : ℕ) : ℤ) = bucketIndex (hashstring s) := by
  have hnonneg := h.nonneg
  rw [BitVec.toInt_eq_toNat_cond] at hnonneg
  have hvalue : (hashstring s).toInt = (hashstring s).toNat :=
    BitVec.toInt_eq_toNat_of_lt (by omega)
  rw [bucketIndex, hvalue]
  exact (Int.ofNat_tmod _ _).symm

/-- `hashstring` returns a proper hash exactly when the polynomial does not leave 2^63 modulo 2^64. -/
theorem hashstring_proper_iff (s : List Octet) :
    ProperHash s ↔ ¬ hashPolynomial s ≡ 2 ^ 63 [ZMOD 2 ^ 64] := by
  rw [← ofInt_eq_intMin_iff, ← toInt_hashstring_neg_iff, Int.not_lt]
  exact ⟨ProperHash.nonneg, ProperHash.of_nonneg⟩

/-- The string `7jykwhuswmnjf` has the smallest `long` for its hash, and the bucket -63. -/
theorem hashstring_smallest : ¬ ProperHash
    [0x37, 0x6a, 0x79, 0x6b, 0x77, 0x68, 0x75, 0x73, 0x77, 0x6d, 0x6e, 0x6a, 0x66] := by
  intro hproper
  exact absurd hproper.nonneg (by decide)

end V120.Tui
