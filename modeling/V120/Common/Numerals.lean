import Mathlib.Data.Nat.Digits.Lemmas
import V120.Common.Texts

/-!
# Numerals at the start of a text

A numeral that begins with a digit ends at the first character that is no digit of any base, so what is
behind that character does not matter. Decimal numerals are read back by `strtoul`.
-/

namespace V120.Common

/-- `isblank`. -/
def isblank (c : Octet) : Bool := c == 0x20 || c == 0x09

/-- `isdigit`. -/
def isdigit (c : Octet) : Bool := 0x30 ≤ c && c ≤ 0x39

/-- `toupper`. -/
def toupper (c : Octet) : Octet := if 0x61 ≤ c ∧ c ≤ 0x7a then c - 0x20 else c

/-- The value of `strtol`, in base 0: a numeral out of the range of `long` is its nearest end. -/
def strtol (text : List Octet) : BitVec 64 :=
  let start := (text.takeWhile isspace).length
  let sign := (text.drop start).head?
  let start := if sign = some 0x2d ∨ sign = some 0x2b then start + 1 else start
  let base := basePrefix (text.drop start)
  let value := (digitsAt base.1 (text.drop (start + base.2))).foldl (fun value digit => value * base.1 + digit) 0
  if sign = some 0x2d then BitVec.ofInt 64 (-(min value (2 ^ 63) : ℕ))
  else BitVec.ofNat 64 (min value (2 ^ 63 - 1))

/-- The digits end before a character that is none. -/
theorem digitsAt_append_stop (base : ℕ) (word : List Octet) {c : Octet} (hc : digitValue c = none)
    (rest : List Octet) : digitsAt base (word ++ c :: rest) = digitsAt base word := by
  induction word with
  | nil => simp only [List.nil_append, digitsAt, hc]
  | cons d word ih =>
    rw [List.cons_append, digitsAt, digitsAt, ih]

/-- A digit is neither a space nor a sign. -/
theorem isspace_of_isdigit {c : Octet} (h : isdigit c = true) :
    isspace c = false ∧ c ≠ 0x2d ∧ c ≠ 0x2b := by
  revert c
  decide

/-- The base of a numeral does not depend on what is behind it. -/
theorem basePrefix_append_stop (d : Octet) (word : List Octet) {c : Octet} (hc : digitValue c = none)
    (rest : List Octet) : basePrefix (d :: word ++ c :: rest) = basePrefix (d :: word) := by
  cases word with
  | nil =>
    -- the character behind a single digit is not the `x` of a prefix
    have hx : c ≠ 120#8 ∧ c ≠ 88#8 := by
      constructor <;> rintro rfl <;> exact absurd hc (by decide)
    simp [basePrefix, hx.1, hx.2]
  | cons e word =>
    have hdigits := digitsAt_append_stop 16 word hc rest
    simp only [basePrefix, List.cons_append, List.head?_cons, List.getElem?_cons_succ,
      List.getElem?_cons_zero, List.drop_succ_cons, List.drop_zero, hdigits]

/-- A prefix is part of the numeral. -/
theorem basePrefix_le (text : List Octet) : (basePrefix text).2 ≤ text.length := by
  rw [basePrefix]
  split
  · split
    · rename_i hprefix
      cases text with
      | nil => simp at hprefix
      | cons d text =>
        cases text with
        | nil => simp at hprefix
        | cons e text => simp
    · exact Nat.zero_le _
  · exact Nat.zero_le _

/-- What `strtoul` makes of a text that begins with a digit. -/
theorem strtoul_digit {d : Octet} (hd : isdigit d = true) (word : List Octet) :
    strtoul (d :: word) =
      let base := basePrefix (d :: word)
      let digits := digitsAt base.1 ((d :: word).drop base.2)
      let value := digits.foldl (fun value digit => value * base.1 + digit) 0
      if digits = [] then ⟨0, 0, false⟩
      else if 2 ^ 64 ≤ value then ⟨-1, base.2 + digits.length, true⟩
      else ⟨BitVec.ofNat 64 value, base.2 + digits.length, false⟩ := by
  obtain ⟨hspace, hminus, hplus⟩ := isspace_of_isdigit hd
  have hstart : ((d :: word).takeWhile isspace).length = 0 := by
    rw [List.takeWhile_cons_of_neg (by rw [hspace]; decide), List.length_nil]
  have hminus : some d ≠ some 0x2d := fun h => hminus (Option.some.inj h)
  have hplus : some d ≠ some 0x2b := fun h => hplus (Option.some.inj h)
  simp only [strtoul, hstart, List.drop_zero, List.head?_cons, hminus, hplus, or_self, if_false, Nat.zero_add]

/-- A numeral that begins with a digit ends before a character that is no digit. -/
theorem strtoul_append_stop {d : Octet} (hd : isdigit d = true) (word : List Octet) {c : Octet}
    (hc : digitValue c = none) (rest : List Octet) :
    strtoul (d :: word ++ c :: rest) = strtoul (d :: word) := by
  have hbase := basePrefix_append_stop d word hc rest
  have hdrop : (d :: word ++ c :: rest).drop (basePrefix (d :: word)).2 =
      (d :: word).drop (basePrefix (d :: word)).2 ++ c :: rest :=
    List.drop_append_of_le_length (basePrefix_le (d :: word))
  rw [List.cons_append] at hbase hdrop ⊢
  rw [strtoul_digit hd, strtoul_digit hd, hbase]
  simp only [hdrop, digitsAt_append_stop _ _ hc]

/-- A number in decimal, without leading zeros. -/
def decimal (n : ℕ) : List Octet :=
  if n = 0 then [0x30] else (Nat.digits 10 n).reverse.map fun digit => BitVec.ofNat 8 (0x30 + digit)

/-- The characters of a decimal numeral are digits. -/
theorem isdigit_decimal {n : ℕ} {c : Octet} (hc : c ∈ decimal n) : isdigit c = true := by
  have hdigit : ∀ digit < 10, isdigit (BitVec.ofNat 8 (0x30 + digit)) = true := by decide
  rw [decimal] at hc
  split at hc
  · obtain rfl := List.mem_singleton.mp hc
    decide
  · obtain ⟨digit, hmem, rfl⟩ := List.mem_map.mp hc
    exact hdigit digit (Nat.digits_lt_base (by decide) (List.mem_reverse.mp hmem))

/-- The value of a decimal digit. -/
theorem digitValue_decimal : ∀ digit < 10, digitValue (BitVec.ofNat 8 (0x30 + digit)) = some digit := by
  decide

/-- The digits of a numeral made of digits are these digits. -/
theorem digitsAt_map {base : ℕ} (hbase : base ≤ 10) (digits : List ℕ)
    (hdigits : ∀ digit ∈ digits, digit < base) :
    digitsAt base (digits.map fun digit => BitVec.ofNat 8 (0x30 + digit)) = digits := by
  induction digits with
  | nil => rfl
  | cons digit digits ih =>
    obtain ⟨hdigit, hdigits⟩ := List.forall_mem_cons.mp hdigits
    rw [List.map_cons, digitsAt, digitValue_decimal digit (Nat.lt_of_lt_of_le hdigit hbase)]
    simp only [if_pos hdigit, ih hdigits]

/-- A decimal numeral is not empty. -/
theorem exists_decimal (n : ℕ) : ∃ d word, decimal n = d :: word ∧ isdigit d = true := by
  cases hn : decimal n with
  | cons d word => exact ⟨d, word, rfl, isdigit_decimal (hn ▸ List.mem_cons_self)⟩
  | nil =>
    rw [decimal] at hn
    split at hn
    · exact absurd hn (List.cons_ne_nil _ _)
    · rename_i hzero
      rw [List.map_eq_nil_iff, List.reverse_eq_nil_iff, Nat.digits_eq_nil_iff_eq_zero] at hn
      exact absurd hn hzero

/-- `strtoul` reads a decimal numeral back. -/
theorem strtoul_decimal {n : ℕ} (hn : n < 2 ^ 64) : (strtoul (decimal n)).value = BitVec.ofNat 64 n := by
  by_cases hzero : n = 0
  · subst hzero
    rfl
  · have hdecimal : decimal n = (Nat.digits 10 n).reverse.map fun digit => BitVec.ofNat 8 (0x30 + digit) := by
      rw [decimal, if_neg hzero]
    have hlt : ∀ digit ∈ (Nat.digits 10 n).reverse, digit < 10 := fun digit h =>
      Nat.digits_lt_base (by decide) (List.mem_reverse.mp h)
    have hvalue : (Nat.digits 10 n).reverse.foldl (fun value digit => value * 10 + digit) 0 = n := by
      rw [List.foldl_reverse]
      conv_rhs => rw [← Nat.ofDigits_digits 10 n, Nat.ofDigits_eq_foldr]
      exact congrArg (fun f => List.foldr f 0 (Nat.digits 10 n)) (by funext digit value; push_cast; ring)
    have hnonempty : (Nat.digits 10 n).reverse ≠ [] :=
      List.reverse_ne_nil_iff.mpr (Nat.digits_ne_nil_iff_ne_zero.mpr hzero)
    obtain ⟨d, word, hd, hdigit⟩ := exists_decimal n
    -- the first digit is not the `0` of an octal numeral
    have hbase : basePrefix (decimal n) = (10, 0) := by
      have hlast := Nat.getLast_digit_ne_zero 10 hzero
      have hdigit := hlt _ (List.mem_reverse.mpr (List.getLast_mem (Nat.digits_ne_nil_iff_ne_zero.mpr hzero)))
      rw [basePrefix, if_neg]
      rw [hdecimal, List.head?_map, List.head?_reverse, List.getLast?_eq_getLast_of_ne_nil
        (Nat.digits_ne_nil_iff_ne_zero.mpr hzero), Option.map_some]
      intro hhead
      have hvalue := digitValue_decimal _ hdigit
      rw [Option.some.inj hhead] at hvalue
      exact hlast (Option.some.inj hvalue).symm
    have hdigits : digitsAt 10 (decimal n) = (Nat.digits 10 n).reverse := by
      rw [hdecimal, digitsAt_map le_rfl _ hlt]
    rw [hd] at hbase hdigits ⊢
    rw [strtoul_digit hdigit, hbase]
    simp only [List.drop_zero, hdigits, if_neg hnonempty, hvalue, if_neg (Nat.not_le.mpr hn)]

/-- A digit, which is a capital letter behind 9. -/
def hexDigit (digit : ℕ) : Octet := BitVec.ofNat 8 (if digit < 10 then 0x30 + digit else 0x37 + digit)

/-- The last digits of a number, so many of them. -/
def hexDigits : ℕ → ℕ → List ℕ
  | 0, _ => []
  | width + 1, n => hexDigits width (n / 16) ++ [n % 16]

/-- A number in hexadecimal, with so many digits behind `0x`. -/
def hexadecimal (width n : ℕ) : List Octet := 0x30 :: 0x78 :: (hexDigits width n).map hexDigit

/-- There are so many. -/
theorem length_hexDigits (width n : ℕ) : (hexDigits width n).length = width := by
  induction width generalizing n with
  | zero => rfl
  | succ width ih => rw [hexDigits, List.length_append, ih, List.length_singleton]

/-- Each of them is one. -/
theorem hexDigits_lt {width n digit : ℕ} (h : digit ∈ hexDigits width n) : digit < 16 := by
  induction width generalizing n with
  | zero => exact absurd h List.not_mem_nil
  | succ width ih =>
    rcases List.mem_append.mp h with hhigh | hlow
    · exact ih hhigh
    · exact List.mem_singleton.mp hlow ▸ Nat.mod_lt n (by decide)

/-- The hexadecimal digits of a number have its value. -/
theorem foldl_hexDigits {width n : ℕ} (hn : n < 16 ^ width) :
    (hexDigits width n).foldl (fun value digit => value * 16 + digit) 0 = n := by
  induction width generalizing n with
  | zero => exact (Nat.lt_one_iff.mp hn).symm
  | succ width ih =>
    have hhigh : n / 16 < 16 ^ width := Nat.div_lt_of_lt_mul (by rw [Nat.mul_comm]; exact hn)
    rw [hexDigits, List.foldl_append, ih hhigh, List.foldl_cons, List.foldl_nil]
    exact Nat.div_add_mod' n 16

/-- A hexadecimal digit is a letter or digit with its value. -/
theorem hexDigit_spec : ∀ digit < 16, isalnum (hexDigit digit) = true ∧ digitValue (hexDigit digit) = some digit := by
  decide

/-- The digits of a numeral made of hexadecimal digits are these digits. -/
theorem digitsAt_map_hexDigit (digits : List ℕ) (hdigits : ∀ digit ∈ digits, digit < 16) :
    digitsAt 16 (digits.map hexDigit) = digits := by
  induction digits with
  | nil => rfl
  | cons digit digits ih =>
    obtain ⟨hdigit, hdigits⟩ := List.forall_mem_cons.mp hdigits
    rw [List.map_cons, digitsAt, (hexDigit_spec digit hdigit).2]
    simp only [if_pos hdigit, ih hdigits]

/-- `strtoul` reads a hexadecimal numeral back. -/
theorem isNumeral_hexadecimal {width n : ℕ} (hwidth : 0 < width) (hn : n < 16 ^ width) (hshort : n < 2 ^ 64) :
    IsNumeral (hexadecimal width n) (BitVec.ofNat 64 n) := by
  have hdigits : digitsAt 16 ((hexDigits width n).map hexDigit) = hexDigits width n :=
    digitsAt_map_hexDigit _ fun digit => hexDigits_lt
  have hsome : hexDigits width n ≠ [] := by
    rw [← List.length_pos_iff, length_hexDigits]
    exact hwidth
  have hprefix : basePrefix (hexadecimal width n) = (16, 2) := by
    simp [basePrefix, hexadecimal, hdigits, hsome]
  refine ⟨fun c hc => ?_, List.cons_ne_nil _ _, ?_⟩
  · rcases List.mem_cons.mp hc with rfl | hc
    · rfl
    · obtain ⟨digit, hdigit, rfl⟩ := List.mem_map.mp hc
      exact (hexDigit_spec digit (hexDigits_lt hdigit)).1
  · rw [hexadecimal] at hprefix
    rw [hexadecimal, strtoul_digit (by decide), hprefix]
    simp only [List.drop_succ_cons, List.drop_zero, hdigits, if_neg hsome, foldl_hexDigits hn,
      if_neg (Nat.not_le.mpr hshort), List.length_cons, List.length_map, length_hexDigits, Nat.add_comm 2]

end V120.Common
