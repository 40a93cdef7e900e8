import Mathlib.Algebra.BigOperators.Ring.Finset
import Mathlib.Data.List.TakeWhile

/-!
# Words and numerals of a text

A text is cut into words at its spaces, and a word may be a numeral as `strtoul` reads them in base 0:
the characters before its digits say in which base they are. The locale is `"C"`, and an `unsigned long`
has 64 bits.
-/

namespace V120.Common

section Words

variable {A : Type*} (space : A → Bool)

/-- The words of a text, which are separated by spaces. -/
def words (text : List A) : List (List A) := (text.splitOnP space).filter (!·.isEmpty)

variable {space}

/-- There is no word in an empty text. -/
theorem words_nil : words space ([] : List A) = [] := rfl

/-- A space before the first word. -/
theorem words_cons_space {c : A} (hspace : space c = true) (text : List A) :
    words space (c :: text) = words space text := by
  rw [words, List.splitOnP_cons_eq_if_modifyHead, if_pos hspace]
  rfl

/-- The spaces before the first word. -/
theorem words_dropWhile (text : List A) : words space (text.dropWhile space) = words space text := by
  induction text with
  | nil => rfl
  | cons c text ih =>
    by_cases hspace : space c = true
    · rw [List.dropWhile_cons_of_pos hspace, ih, words_cons_space hspace]
    · rw [List.dropWhile_cons_of_neg hspace]

/-- A single word. -/
theorem words_word {word : List A} (hne : word ≠ []) (hword : ∀ c ∈ word, space c = false) :
    words space word = [word] := by
  rw [words, List.splitOnP_eq_singleton hword]
  cases word with
  | nil => exact absurd rfl hne
  | cons c word => rfl

/-- A word and the space behind it. -/
theorem words_word_space {word : List A} (hne : word ≠ []) (hword : ∀ c ∈ word, space c = false) {c : A}
    (hspace : space c = true) (text : List A) :
    words space (word ++ c :: text) = word :: words space text := by
  rw [words, List.splitOnP_append_cons_of_forall_mem hword c hspace]
  cases word with
  | nil => exact absurd rfl hne
  | cons c word => rfl

/-- A character at which a search has stopped. -/
theorem stop_dropWhile {p : A → Bool} {text : List A} {c : A} (h : (text.dropWhile p).head? = some c) :
    p c = false := by
  have hstop := List.head?_dropWhile_not p text
  rwa [h] at hstop

/-- A search that stops at a character behind others that it passes. -/
theorem findIdx?_append_cons {p : A → Bool} {passed : List A} {c : A}
    (hpassed : ∀ d ∈ passed, p d = false) (hc : p c = true) (more : List A) :
    (passed ++ c :: more).findIdx? p = some passed.length := by
  rw [List.findIdx?_append, List.findIdx?_eq_none_iff.mpr hpassed, List.findIdx?_cons, hc]
  exact congrArg some (Nat.zero_add _)

/-- A text with a word in it, taken apart at its first word. -/
structure FirstWord (space : A → Bool) (text word behind : List A) : Prop where
  nonempty : word ≠ []
  solid : ∀ c ∈ word, space c = false
  split : text.dropWhile space = word ++ behind
  ends : ∀ c, behind.head? = some c → space c = true

/-- A text without a word is nothing but spaces, and any other has a first word. -/
theorem firstWord_cases (space : A → Bool) (text : List A) :
    text.dropWhile space = [] ∨ ∃ word behind, FirstWord space text word behind := by
  cases htext : text.dropWhile space with
  | nil => exact Or.inl rfl
  | cons c rest =>
    right
    have hhead : space c = false := stop_dropWhile (congrArg List.head? htext)
    have hpos : (!space c) = true := by rw [hhead]; rfl
    refine ⟨(c :: rest).takeWhile (!space ·), (c :: rest).dropWhile (!space ·), ?_, fun d hd => ?_, ?_,
      fun d hd => ?_⟩
    · rw [List.takeWhile_cons_of_pos (p := fun d => !space d) hpos]
      exact List.cons_ne_nil _ _
    · have hnot := List.mem_takeWhile_imp (p := fun d => !space d) hd
      rwa [Bool.not_eq_true'] at hnot
    · exact htext.trans List.takeWhile_append_dropWhile.symm
    · have hnot := stop_dropWhile (p := fun d => !space d) hd
      rwa [Bool.not_eq_false'] at hnot

/-- A text of nothing but spaces has no word. -/
theorem words_spaces {text : List A} (h : text.dropWhile space = []) : words space text = [] := by
  rw [← words_dropWhile, h, words_nil]

namespace FirstWord

variable {text word behind : List A}

/-- The other words are behind the space at which the first one ends. -/
theorem words (h : FirstWord space text word behind) :
    words space text = word :: Common.words space behind.tail := by
  rw [← words_dropWhile, h.split]
  cases hbehind : behind with
  | nil => rw [List.append_nil, words_word h.nonempty h.solid, List.tail_nil, words_nil]
  | cons c rest =>
    exact words_word_space h.nonempty h.solid (h.ends c (congrArg List.head? hbehind)) rest

/-- There is less behind a word. -/
theorem shorter (h : FirstWord space text word behind) : behind.tail.length < text.length := by
  have hskipped := List.length_dropWhile_le (p := space) text
  have hword := List.length_pos_iff.mpr h.nonempty
  rw [h.split, List.length_append] at hskipped
  rw [List.length_tail]
  omega

end FirstWord

end Words

/-- A character. -/
abbrev Octet := BitVec 8

/-- The bytes of a word. -/
def octets (word : List Char) : List Octet := word.map fun c => BitVec.ofNat 8 c.toNat

/-- `isspace`. -/
def isspace (c : Octet) : Bool := c == 0x20 || 0x09 ≤ c && c ≤ 0x0d

/-- `isalnum`. -/
def isalnum (c : Octet) : Bool :=
  0x30 ≤ c && c ≤ 0x39 || 0x41 ≤ c && c ≤ 0x5a || 0x61 ≤ c && c ≤ 0x7a

/-- A letter or digit is not a space. -/
theorem isspace_of_isalnum {c : Octet} (h : isalnum c = true) : isspace c = false := by
  revert c
  decide

/-- The value of a digit; the letters go on behind 9. -/
def digitValue (c : Octet) : Option ℕ :=
  if 0x30 ≤ c ∧ c ≤ 0x39 then some (c.toNat - 0x30)
  else if 0x41 ≤ c ∧ c ≤ 0x5a then some (c.toNat - 0x41 + 10)
  else if 0x61 ≤ c ∧ c ≤ 0x7a then some (c.toNat - 0x61 + 10)
  else none

/-- The digits in this base at the start of a text. -/
def digitsAt (base : ℕ) : List Octet → List ℕ
  | [] => []
  | c :: text =>
    match digitValue c with
    | none => []
    | some digit => if digit < base then digit :: digitsAt base text else []

/-- The base of a numeral, and how many characters come before its digits: `0x` before a hexadecimal
digit, while the `0` of an octal numeral is a digit itself. -/
def basePrefix (text : List Octet) : ℕ × ℕ :=
  if text.head? = some 0x30 then
    if (text[1]? = some 0x78 ∨ text[1]? = some 0x58) ∧ digitsAt 16 (text.drop 2) ≠ [] then (16, 2)
    else (8, 0)
  else (10, 0)

/-- What `strtoul` makes of a text: the value, where it stopped, and whether it left `ERANGE` in `errno`. -/
structure Strtoul where
  value : BitVec 64
  endptr : ℕ
  erange : Bool

/-- `strtoul` and `strtoull`, in base 0. -/
def strtoul (text : List Octet) : Strtoul :=
  let start := (text.takeWhile isspace).length
  let sign := (text.drop start).head?
  let start := if sign = some 0x2d ∨ sign = some 0x2b then start + 1 else start
  let base := basePrefix (text.drop start)
  let digits := digitsAt base.1 (text.drop (start + base.2))
  let value := digits.foldl (fun value digit => value * base.1 + digit) 0
  let endptr := start + base.2 + digits.length
  if digits = [] then ⟨0, 0, false⟩
  else if 2 ^ 64 ≤ value then ⟨-1, endptr, true⟩
  else if sign = some 0x2d then ⟨-(BitVec.ofNat 64 value), endptr, false⟩
  else ⟨BitVec.ofNat 64 value, endptr, false⟩

/-- The string in a buffer, which ends before the first `'\0'`. -/
def cString (buffer : List Octet) : List Octet := buffer.takeWhile (· != 0)

/-- A string behind which its `'\0'` was stored. -/
theorem cString_append_nul {text : List Octet} (h : ∀ c ∈ text, c ≠ 0) : cString (text ++ [0]) = text := by
  rw [cString, List.takeWhile_append_of_pos fun c hc => bne_iff_ne.mpr (h c hc)]
  exact List.append_nil text

/-- A word that is a numeral as a whole: nothing but letters and digits, apart from a sign before them. -/
structure IsNumeral (word : List Octet) (value : BitVec 64) : Prop where
  tail : ∀ c ∈ word.tail, isalnum c = true
  nonempty : word ≠ []
  strtoul : strtoul word = ⟨value, word.length, false⟩

/-- There is no `'\0'` in a numeral. -/
theorem IsNumeral.ne_nul {word : List Octet} {value : BitVec 64} (h : IsNumeral word value) :
    ∀ c ∈ word, c ≠ 0 := by
  cases hword : word with
  | nil => exact fun c hc => absurd hc List.not_mem_nil
  | cons c rest =>
    have htail := h.tail
    have hstrtoul := congrArg Strtoul.endptr h.strtoul
    rw [hword] at htail hstrtoul
    refine List.forall_mem_cons.mpr ⟨fun hnul => ?_, fun d hd hnul => ?_⟩
    · rw [hnul] at hstrtoul
      exact absurd hstrtoul (Nat.succ_ne_zero _).symm
    · have halnum := htail d hd
      rw [hnul] at halnum
      exact absurd halnum (by decide)

end V120.Common
