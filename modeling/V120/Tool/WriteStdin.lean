import V120.Common.BlockReads
import V120.Tool.ReadWrite
import V120.Vme.Translation
import Mathlib.Data.List.Forall2

/-!
# Where the units on the standard input go

`v120 write` without values opens its region before it knows how many units there are, asks for a region
of no length, and stores the units one behind the other from the base of the region on. Which pages are
mapped then depends on the address: behind one that is not at the start of a page there is still a page
to be mapped and configured, while nothing is configured for the others.
-/

namespace V120.Tool

open V120.Common V120.Vme

/-- The loop of `gettok` stores a word that fits and takes the character behind it. -/
theorem tokenLoop_word {room : ℕ} {more behind : List Octet} (hmore : ∀ c ∈ more, isalnum c = true)
    (hbehind : ∀ c, behind.head? = some c → isalnum c = false) (hroom : more.length ≤ room) :
    tokenLoop room (more ++ behind) = (more, behind.head?, behind.tail) := by
  induction more generalizing room with
  | nil =>
    cases behind with
    | nil => cases room <;> rfl
    | cons c rest =>
      have hstop := hbehind c rfl
      cases room with
      | zero => rfl
      | succ room =>
        rw [List.nil_append, tokenLoop, hstop]
        rfl
  | cons c more ih =>
    obtain ⟨hc, hmore⟩ := List.forall_mem_cons.mp hmore
    cases room with
    | zero => exact absurd hroom (Nat.not_succ_le_zero _)
    | succ room =>
      rw [List.cons_append, tokenLoop, if_pos hc, ih hmore (Nat.le_of_succ_le_succ hroom)]

/-- A word that is too long fills the buffer. -/
theorem length_tokenLoop {room : ℕ} {more : List Octet} (behind : List Octet)
    (hmore : ∀ c ∈ more, isalnum c = true) (hroom : room ≤ more.length) :
    (tokenLoop room (more ++ behind)).1.length = room := by
  induction more generalizing room with
  | nil =>
    obtain rfl := Nat.le_zero.mp hroom
    cases behind <;> rfl
  | cons c more ih =>
    obtain ⟨hc, hmore⟩ := List.forall_mem_cons.mp hmore
    cases room with
    | zero => rfl
    | succ room =>
      rw [List.cons_append, tokenLoop, if_pos hc, List.length_cons, ih hmore (Nat.le_of_succ_le_succ hroom)]

/-- There is no token in an input of spaces. -/
theorem gettok_spaces {len : ℕ} {stdin : List Octet} (h : stdin.dropWhile isspace = []) :
    gettok len stdin = ⟨1, [], []⟩ := by
  rw [gettok, h]

/-- `gettok` finds a word of letters and digits that leaves room for the `'\0'`. -/
theorem gettok_word {len : ℕ} {stdin word behind : List Octet} (h : FirstWord isspace stdin word behind)
    (htail : ∀ c ∈ word.tail, isalnum c = true) (hshort : word.length < len) :
    gettok len stdin = ⟨0, word ++ [0], behind.tail⟩ := by
  have hbehind (c : Octet) (hc : behind.head? = some c) : isalnum c = false := by
    have hspace := h.ends c hc
    by_contra halnum
    rw [isspace_of_isalnum (Bool.not_eq_false _ |>.mp halnum)] at hspace
    exact Bool.false_ne_true hspace
  have hall : behind.head?.all isspace = true := by
    rw [Option.all_eq_true]
    exact h.ends
  obtain ⟨c, more, rfl⟩ := List.exists_cons_of_ne_nil h.nonempty
  rw [List.length_cons] at hshort
  rw [List.tail_cons] at htail
  rw [gettok, h.split, List.cons_append]
  dsimp only
  rw [tokenLoop_word htail hbehind (by omega)]
  dsimp only
  rw [if_pos hall]

/-- The `'\0'` behind any other word of letters and digits is behind the buffer. -/
theorem gettok_overrun {len : ℕ} {stdin word behind : List Octet} (h : FirstWord isspace stdin word behind)
    (htail : ∀ c ∈ word.tail, isalnum c = true) (hpositive : 0 < len) (hlong : len ≤ word.length) :
    (gettok len stdin).stored.length = len + 1 := by
  obtain ⟨c, more, rfl⟩ := List.exists_cons_of_ne_nil h.nonempty
  rw [List.length_cons] at hlong
  rw [List.tail_cons] at htail
  have hroom : len - 1 ≤ more.length := by omega
  have hfull := length_tokenLoop behind htail hroom
  rw [gettok, h.split, List.cons_append]
  dsimp only
  rw [List.length_append, List.length_cons, hfull, List.length_singleton]
  omega

/-- Store units one behind the other. -/
def placeUnits (rw : UnitAccess) : List (BitVec 32) → Pointer → List Store
  | [], _ => []
  | unit :: units, dst => rw.put dst unit :: placeUnits rw units (dst + BitVec.ofNat 64 rw.size)

/-- Each unit has its place. -/
theorem getElem?_placeUnits (rw : UnitAccess) (units : List (BitVec 32)) (dst : Pointer) (i : ℕ) :
    (placeUnits rw units dst)[i]? = units[i]?.map (rw.put (dst + BitVec.ofNat 64 (i * rw.size))) := by
  induction units generalizing dst i with
  | nil => rfl
  | cons unit units ih =>
    cases i with
    | zero => rw [placeUnits, Nat.zero_mul, List.getElem?_cons_zero, List.getElem?_cons_zero,
        BitVec.add_zero, Option.map_some]
    | succ i => rw [placeUnits, List.getElem?_cons_succ, List.getElem?_cons_succ, ih, BitVec.add_assoc,
        ← BitVec.ofNat_add, Nat.succ_mul, Nat.add_comm (i * rw.size)]

/-- A word that is a unit. -/
def Spells (word : List Octet) (unit : BitVec 32) : Prop :=
  ∃ value, IsNumeral word value ∧ unit = value.setWidth 32

/-- Whether there is room for a word and its `'\0'` in the buffer. -/
def fitsBuffer (word : List Octet) : Bool := decide (word.length < stdinBufsize)

/-- The words at the start of the input that fit into the buffer. -/
def readableWords (stdin : List Octet) : List (List Octet) := (words isspace stdin).takeWhile fitsBuffer

/-- With a clean `errno` the units are stored up to the first word that is too long. -/
theorem writeStdinAsciiLoop_stores (rw : UnitAccess) {turns : ℕ} {stdin : List Octet}
    {units : List (BitVec 32)} (hunits : List.Forall₂ Spells (words isspace stdin) units)
    (hturns : stdin.length < turns) (dst : Pointer) (count : ℤ) :
    (writeStdinAsciiLoop rw turns stdin dst count 0).stores =
      placeUnits rw (units.take (readableWords stdin).length) dst := by
  induction turns generalizing stdin units dst count with
  | zero => exact absurd hturns (Nat.not_lt_zero _)
  | succ turns ih =>
    rw [writeStdinAsciiLoop, readableWords]
    rcases firstWord_cases isspace stdin with hspaces | ⟨word, behind, hfirst⟩
    · rw [gettok_spaces hspaces, words_spaces hspaces]
      rfl
    · rw [hfirst.words] at hunits ⊢
      obtain ⟨unit, units, ⟨value, hnumeral, rfl⟩, hothers, rfl⟩ := List.forall₂_cons_left_iff.mp hunits
      have hpositive := List.length_pos_iff.mpr hfirst.nonempty
      by_cases hshort : word.length < stdinBufsize
      · have hrest := hfirst.shorter
        have hroom : ¬ stdinBufsize < (word ++ [(0 : Octet)]).length := by
          rw [List.length_append, List.length_singleton]
          omega
        have hconverted : ¬ (word.length = 0 ∨ strtoulErrno ⟨value, word.length, false⟩ 0 ≠ 0) :=
          not_or.mpr ⟨Nat.ne_of_gt hpositive, fun h => h rfl⟩
        rw [gettok_word hfirst hnumeral.tail hshort,
          List.takeWhile_cons_of_pos (p := fitsBuffer) (decide_eq_true hshort)]
        dsimp only
        rw [if_neg hroom, if_neg fun h => h rfl, cString_append_nul hnumeral.ne_nul, hnumeral.strtoul,
          if_neg hconverted]
        exact congrArg (List.cons _) (ih hothers (by omega) _ _)
      · have hstored := gettok_overrun hfirst hnumeral.tail (by decide) (Nat.le_of_not_lt hshort)
        rw [List.takeWhile_cons_of_neg (p := fitsBuffer) fun h => hshort (of_decide_eq_true h)]
        dsimp only
        rw [if_pos (hstored ▸ Nat.lt_succ_self _)]
        rfl

/-- With any other `errno` nothing is stored. -/
theorem writeStdinAsciiLoop_stale (rw : UnitAccess) (turns : ℕ) (stdin : List Octet) (dst : Pointer)
    (count : ℤ) {errno : ℤ} (hstale : errno ≠ 0) : (writeStdinAsciiLoop rw turns stdin dst count errno).stores = [] := by
  have herange : erange ≠ 0 := by decide
  cases turns with
  | zero => rfl
  | succ turns =>
    have hany (v : Strtoul) : strtoulErrno v errno ≠ 0 := by
      rw [strtoulErrno]
      split_ifs
      · exact herange
      · exact hstale
    rw [writeStdinAsciiLoop]
    dsimp only
    split_ifs with _ _ hconverted
    · rfl
    · rfl
    · rfl
    · exact absurd (Or.inr (hany _)) hconverted

/-- The unit sizes, and what is promised of the functions for them. -/
structure UnitAccess.Regular (rw : UnitAccess) : Prop where
  size : rw.size = 1 ∨ rw.size = 2 ∨ rw.size = 4
  put : ∀ dst v, (rw.put dst v).dst = dst ∧ (rw.put dst v).size = rw.size
  getb : ∀ src, rw.getb src = hostValue (src.take rw.size)

/-- There are functions for every data width. -/
theorem setUpDwidth_regular (args : V120Args) : (setUpDwidth args).Regular := by
  have hbyte : byteAccess.Regular := ⟨Or.inl rfl, fun _ _ => ⟨rfl, rfl⟩, fun _ => rfl⟩
  have hword : wordAccess.Regular := ⟨Or.inr (Or.inl rfl), fun _ _ => ⟨rfl, rfl⟩, fun _ => rfl⟩
  have hdword : dwordAccess.Regular := ⟨Or.inr (Or.inr rfl), fun _ _ => ⟨rfl, rfl⟩, fun _ => rfl⟩
  unfold setUpDwidth
  cases args.dwidth with
  | d8eo => exact hbyte
  | d8o => exact hbyte
  | d16 =>
    dsimp only
    split_ifs
    · exact hdword
    · exact hword
  | d32 => exact hdword

/-- The buffer holds a whole number of units. -/
theorem UnitAccess.Regular.buffer {rw : UnitAccess} (h : rw.Regular) :
    0 < rw.size ∧ rw.size * (stdinBufsize / rw.size) = stdinBufsize := by
  rcases h.size with hsize | hsize | hsize <;> rw [hsize] <;> exact ⟨by decide, by decide⟩

/-- The units of a binary input, which is nothing but these. -/
structure BinaryUnits (size : ℕ) (stdin : List Octet) (units : List (BitVec 32)) : Prop where
  length : stdin.length = size * units.length
  unit : ∀ i unit, units[i]? = some unit → unit = hostValue (blockAt size stdin i)

/-- The units in a buffer are stored one behind the other. -/
theorem putUnits_eq (rw : UnitAccess) (count : ℕ) (pbuf : List Octet) (dst : Pointer) :
    putUnits rw count pbuf dst =
      placeUnits rw ((List.range count).map fun i => rw.getb (pbuf.drop (rw.size * i))) dst := by
  induction count generalizing pbuf dst with
  | zero => rfl
  | succ count ih =>
    rw [putUnits, ih, List.range_succ_eq_map, List.map_cons, List.map_map, placeUnits]
    refine congrArg (List.cons _) (congrArg (fun units => placeUnits rw units _) ?_)
    refine List.map_congr_left fun i _ => ?_
    rw [List.drop_drop, Function.comp_apply, Nat.mul_succ, Nat.add_comm]

/-- The units in the buffer are those of the input. -/
theorem BinaryUnits.take {rw : UnitAccess} (hrw : rw.Regular) {stdin : List Octet} {units : List (BitVec 32)}
    (h : BinaryUnits rw.size stdin units) {count : ℕ} (hcount : count ≤ units.length)
    (hroom : count ≤ stdinBufsize / rw.size) :
    ((List.range count).map fun i => rw.getb ((stdin.take stdinBufsize).drop (rw.size * i))) =
      units.take count := by
  obtain ⟨hpositive, hbuffer⟩ := hrw.buffer
  apply List.ext_getElem?
  intro i
  by_cases hi : i < count
  · have hunit := h.unit i (units[i]) (List.getElem?_eq_getElem (Nat.lt_of_lt_of_le hi hcount))
    have hend : rw.size * i + rw.size ≤ stdinBufsize := by
      calc rw.size * i + rw.size = rw.size * (i + 1) := (Nat.mul_succ _ _).symm
        _ ≤ rw.size * (stdinBufsize / rw.size) := Nat.mul_le_mul_left _ (Nat.le_trans hi hroom)
        _ = stdinBufsize := hbuffer
    have hroomUnit : min rw.size (stdinBufsize - rw.size * i) = rw.size := Nat.min_eq_left (by omega)
    rw [List.getElem?_take_of_lt hi, List.getElem?_map, List.getElem?_range hi, Option.map_some,
      List.getElem?_eq_getElem (Nat.lt_of_lt_of_le hi hcount), hunit, hrw.getb, List.drop_take,
      List.take_take, hroomUnit, blockAt]
  · rw [List.getElem?_eq_none, List.getElem?_eq_none]
    · rw [List.length_take]
      omega
    · rw [List.length_map, List.length_range]
      omega

/-- Nothing is found in an empty input, however often it is looked for. -/
theorem writeStdinBinaryLoop_nil {rw : UnitAccess} (hrw : rw.Regular) (errno : ℤ) (turns : ℕ) (dst : Pointer)
    (total : ℤ) : writeStdinBinaryLoop rw errno turns [] dst total = ⟨[], errno, .running⟩ := by
  obtain ⟨-, hbuffer⟩ := hrw.buffer
  have hnone : 0 / rw.size ≠ stdinBufsize / rw.size := fun hzero => by
    rw [Nat.zero_div] at hzero
    rw [← hzero, Nat.mul_zero] at hbuffer
    exact absurd hbuffer (by decide)
  induction turns generalizing dst total with
  | zero => rfl
  | succ turns ih =>
    rw [writeStdinBinaryLoop]
    dsimp only
    rw [List.take_nil, List.length_nil, if_pos hnone, List.drop_nil, ih, Nat.zero_div]
    rfl

/-- A binary input that does not fill the buffer is stored, and waited for without an end. -/
theorem writeStdinBinaryLoop_short {rw : UnitAccess} (hrw : rw.Regular) (errno : ℤ) (turns : ℕ)
    {stdin : List Octet} (hshort : stdin.length < stdinBufsize) (dst : Pointer) (total : ℤ) :
    writeStdinBinaryLoop rw errno (turns + 1) stdin dst total =
      ⟨putUnits rw (stdin.length / rw.size) stdin dst, errno, .running⟩ := by
  obtain ⟨-, hbuffer⟩ := hrw.buffer
  have hcount : stdin.length / rw.size < stdinBufsize / rw.size :=
    Nat.div_lt_of_lt_mul (hbuffer.symm ▸ hshort)
  rw [writeStdinBinaryLoop]
  dsimp only
  rw [hbuffer, List.take_of_length_le (Nat.le_of_lt hshort), List.drop_of_length_le (Nat.le_of_lt hshort),
    if_pos (Nat.ne_of_lt hcount), writeStdinBinaryLoop_nil hrw, List.append_nil]

/-- The units of a binary input are stored up to the end of the first buffer. -/
theorem v120WriteStdinBinary_stores {rw : UnitAccess} (hrw : rw.Regular) {stdin : List Octet}
    {units : List (BitVec 32)} (hunits : BinaryUnits rw.size stdin units) (dst : Pointer) (errno : ℤ) :
    (v120WriteStdinBinary rw stdin dst errno).stores =
      placeUnits rw (units.take (stdinBufsize / rw.size)) dst := by
  obtain ⟨hpositive, hbuffer⟩ := hrw.buffer
  have hlength := hunits.length
  rw [v120WriteStdinBinary]
  by_cases hshort : stdin.length < stdinBufsize
  · have hcount : stdin.length / rw.size = units.length := by
      rw [hlength, Nat.mul_div_cancel_left _ hpositive]
    have hfew : units.length ≤ stdinBufsize / rw.size :=
      (Nat.le_div_iff_mul_le hpositive).mpr (by rw [Nat.mul_comm, ← hlength]; exact Nat.le_of_lt hshort)
    have htaken := hunits.take hrw (Nat.le_refl _) hfew
    rw [List.take_of_length_le (Nat.le_of_lt hshort), List.take_of_length_le (Nat.le_refl _)] at htaken
    rw [writeStdinBinaryLoop_short hrw errno 1 hshort, hcount, List.take_of_length_le hfew]
    dsimp only
    rw [putUnits_eq, htaken]
  · have hmany : stdinBufsize / rw.size ≤ units.length := by
      refine Nat.div_le_of_le_mul ?_
      rw [← hlength]
      exact Nat.le_of_not_lt hshort
    have hfull : (stdin.take stdinBufsize).length / rw.size = stdinBufsize / rw.size := by
      rw [List.length_take, Nat.min_eq_left (Nat.le_of_not_lt hshort)]
    rw [writeStdinBinaryLoop]
    dsimp only
    rw [hbuffer, hfull, if_neg fun h => h rfl]
    dsimp only
    rw [putUnits_eq, hunits.take hrw hmany (Nat.le_refl _)]

end V120.Tool
