import V120.Common.HostOrder
import V120.Common.Numerals
import V120.Tool.StdinReports
import V120.Tool.UnitBounds

/-!
# What is read can be written

`v120 read` prints each unit that it loads in hexadecimal, or stores its octets on the standard output as they
are. `v120 write` takes the text back, from the standard input or the command line: a block of units that was
read is written unit by unit, and nothing else is.
-/

namespace V120.Tool

open V120.Common V120.Vme

/-- The memory of the host, with the VME window in it. -/
abbrev HostMemory := Pointer → Octet

/-- The unit that a load finds. -/
def Load.value (memory : HostMemory) (load : Load) : BitVec 32 :=
  valueAt load.size (fun i => memory (load.src + BitVec.ofNat 64 i)) 0

/-- The memory behind a store. -/
def Store.apply (memory : HostMemory) (store : Store) : HostMemory := fun p =>
  if (p - store.dst).toNat < store.size then store.value.extractLsb' (8 * (p - store.dst).toNat) 8 else memory p

/-- `print_byte`, `print_word` and `print_dword`, which all print every digit. -/
def printUnit (size : ℕ) (v : BitVec 32) : List Octet := hexadecimal (2 * size) v.toNat

/-- `printb_byte`, `printb_word` and `printb_dword`. -/
def printbUnit (size : ℕ) (v : BitVec 32) : List Octet :=
  (List.range size).map fun i => v.extractLsb' (8 * i) 8

/-- The `for` loop of `v120_read` over a text, from a turn on. -/
def printUnits (size : ℕ) : ℕ → List (BitVec 32) → List Octet
  | _, [] => []
  | i, v :: units => (if i = 0 then [] else [0x20]) ++ printUnit size v ++ printUnits size (i + 1) units

/-- What `v120_read` leaves on the standard output. -/
def ReadRun.stdout {σ : Type*} (run : ReadRun σ) (args : V120Args) (memory : HostMemory) : List Octet :=
  let size := (setUpDwidth args).size
  let units := run.loads.map (Load.value memory)
  if run.status ≠ exitSuccess then []
  else if args.binary then units.flatMap (printbUnit size)
  else printUnits size 0 units ++ [0x0a]

/-- Units of a width. -/
def Narrow (size : ℕ) (units : List (BitVec 32)) : Prop := ∀ v ∈ units, v.toNat < 2 ^ (8 * size)

/-- What is loaded is as narrow as the load. -/
theorem narrow_value {size : ℕ} (memory : HostMemory) {loads : List Load} (h : ∀ load ∈ loads, load.size = size) :
    Narrow size (loads.map (Load.value memory)) := by
  intro v hv
  obtain ⟨load, hload, rfl⟩ := List.mem_map.mp hv
  have hsize := h load hload
  subst hsize
  exact toNat_valueAt_lt _ _ _

section Text

variable {size : ℕ} {v : BitVec 32} {units : List (BitVec 32)}

/-- A unit is printed as a numeral. -/
theorem isNumeral_printUnit (hsize : 0 < size) (hv : v.toNat < 2 ^ (8 * size)) :
    IsNumeral (printUnit size v) (v.setWidth 64) := by
  have hwidth : v.toNat < 16 ^ (2 * size) := by
    rw [show 16 ^ (2 * size) = 2 ^ (8 * size) by rw [Nat.pow_mul, Nat.pow_mul]]
    exact hv
  have hshort : v.toNat < 2 ^ 64 := Nat.lt_trans v.isLt (by decide)
  exact BitVec.ofNat_toNat 64 v ▸ isNumeral_hexadecimal (by omega) hwidth hshort

/-- A numeral has a digit more than twice the size, and one more still. -/
theorem length_printUnit (size : ℕ) (v : BitVec 32) : (printUnit size v).length = 2 * size + 2 := by
  rw [printUnit, hexadecimal, List.length_cons, List.length_cons, List.length_map, length_hexDigits]

/-- A numeral is a word. -/
theorem firstWord_printUnit (v : BitVec 32) (hsize : 0 < size) (hv : v.toNat < 2 ^ (8 * size))
    {behind : List Octet} (hbehind : ∀ c, behind.head? = some c → isspace c = true) :
    FirstWord isspace (printUnit size v ++ behind) (printUnit size v) behind := by
  have htail := (isNumeral_printUnit hsize hv).tail
  refine ⟨List.cons_ne_nil _ _, fun c hc => ?_, rfl, hbehind⟩
  rcases List.mem_cons.mp hc with rfl | hc
  · rfl
  · exact isspace_of_isalnum (htail c hc)

/-- Behind the first unit the turn makes no difference. -/
theorem printUnits_succ (size i : ℕ) (units : List (BitVec 32)) :
    printUnits size (i + 1) units = printUnits size 1 units := by
  induction units generalizing i with
  | nil => rfl
  | cons v units ih =>
    rw [printUnits, printUnits, ih (i + 1), ih 1, if_neg (Nat.succ_ne_zero i), if_neg Nat.one_ne_zero]

/-- The text of units, of which there is nothing when there are none. -/
def lineOf (size : ℕ) (units : List (BitVec 32)) : List Octet :=
  if units = [] then [] else printUnits size 0 units ++ [0x0a]

/-- Behind a unit there is one space, or the end of the line. -/
theorem printUnits_behind (size : ℕ) (units : List (BitVec 32)) :
    (∀ c, (printUnits size 1 units ++ [0x0a]).head? = some c → isspace c = true) ∧
      (printUnits size 1 units ++ [0x0a]).tail = lineOf size units := by
  cases units with
  | nil =>
    refine ⟨fun c hc => ?_, rfl⟩
    obtain rfl := Option.some.inj hc
    rfl
  | cons v units =>
    refine ⟨fun c hc => ?_, ?_⟩
    · obtain rfl := Option.some.inj hc
      rfl
    · rw [lineOf, if_neg (List.cons_ne_nil _ _), printUnits, printUnits, printUnits_succ size 1]
      rfl

/-- The line of some units is the first numeral with the line of the others behind a space. -/
theorem lineOf_cons (size : ℕ) (v : BitVec 32) (units : List (BitVec 32)) :
    lineOf size (v :: units) = printUnit size v ++ (printUnits size 1 units ++ [0x0a]) := by
  rw [lineOf, if_neg (List.cons_ne_nil _ _), printUnits, if_pos rfl, List.nil_append, List.append_assoc]

/-- `v120_write_stdin_ascii` takes the line back. -/
theorem writeStdinAsciiLoop_lineOf (rw : UnitAccess) (hpositive : 0 < size) (hsize : size ≤ 4)
    (hnarrow : Narrow size units) {turns : ℕ} (hturns : units.length < turns) (dst : Pointer) (count : ℤ) :
    writeStdinAsciiLoop rw turns (lineOf size units) dst count 0 =
      ⟨placeUnits rw units dst, 0, .returned (count + units.length)⟩ := by
  induction units generalizing turns dst count with
  | nil =>
    cases turns with
    | zero => exact absurd hturns (Nat.not_lt_zero _)
    | succ turns =>
      have hempty : gettok stdinBufsize (lineOf size []) = ⟨1, [], []⟩ := rfl
      rw [writeStdinAsciiLoop, hempty]
      dsimp only
      rw [if_neg (by decide), if_pos (by decide), List.length_nil, Int.natCast_zero, Int.add_zero, placeUnits]
  | cons v units ih =>
    cases turns with
    | zero => exact absurd hturns (Nat.not_lt_zero _)
    | succ turns =>
      obtain ⟨hv, hnarrow⟩ := List.forall_mem_cons.mp hnarrow
      obtain ⟨hspace, hrest⟩ := printUnits_behind size units
      have hnumeral := isNumeral_printUnit hpositive hv
      have hshort : (printUnit size v).length < stdinBufsize := by
        rw [length_printUnit, stdinBufsize]
        omega
      have hroom : ¬ stdinBufsize < (printUnit size v ++ [(0 : Octet)]).length := by
        rw [List.length_append, List.length_singleton]
        omega
      have hunit : ((v.setWidth 64).setWidth 32 : BitVec 32) = v := by
        rw [BitVec.setWidth_setWidth_of_le _ (by decide), BitVec.setWidth_eq]
      have hconverted : ¬ ((printUnit size v).length = 0 ∨
          strtoulErrno ⟨v.setWidth 64, (printUnit size v).length, false⟩ 0 ≠ 0) := by
        rw [length_printUnit]
        exact not_or.mpr ⟨Nat.succ_ne_zero _, fun h => h rfl⟩
      rw [lineOf_cons, writeStdinAsciiLoop,
        gettok_word (firstWord_printUnit v hpositive hv hspace) hnumeral.tail hshort]
      dsimp only
      rw [if_neg hroom, if_neg fun h => h rfl, cString_append_nul hnumeral.ne_nul, hnumeral.strtoul,
        if_neg hconverted, hrest]
      have hmore := ih hnarrow (Nat.lt_of_succ_lt_succ hturns) (dst + BitVec.ofNat 64 rw.size) (count + 1)
      refine (congrArg (Written.after _) hmore).trans ?_
      rw [Written.after, hunit, placeUnits, List.length_cons, Int.natCast_succ, Int.add_assoc, Int.add_comm 1]

/-- The whole text, which is a line without units too. -/
theorem v120WriteStdin_printUnits (rw : UnitAccess) (hpositive : 0 < size) (hsize : size ≤ 4)
    (hnarrow : Narrow size units) (dst : Pointer) :
    v120WriteStdin rw (printUnits size 0 units ++ [0x0a]) dst false 0 =
      ⟨placeUnits rw units dst, 0, .returned (if units = [] then exitFailure else exitSuccess)⟩ := by
  cases units with
  | nil => rfl
  | cons v units =>
    have hline : printUnits size 0 (v :: units) ++ [0x0a] = lineOf size (v :: units) :=
      (if_neg (List.cons_ne_nil v units)).symm
    have hlong (units : List (BitVec 32)) : units.length ≤ (lineOf size units).length := by
      induction units with
      | nil => exact Nat.zero_le _
      | cons v units ih =>
        have htail := congrArg List.length (printUnits_behind size units).2
        rw [List.length_tail] at htail
        rw [lineOf_cons, List.length_append, length_printUnit, List.length_cons]
        omega
    have hloop := writeStdinAsciiLoop_lineOf rw hpositive hsize hnarrow
      (Nat.lt_succ_of_le (hlong (v :: units))) dst 0
    have hcount : ¬ (0 + ((v :: units).length : ℤ) ≤ 0) := by
      rw [List.length_cons]
      omega
    rw [hline, v120WriteStdin, if_neg Bool.false_ne_true, v120WriteStdinAscii, hloop]
    dsimp only
    rw [if_neg hcount, if_neg (List.cons_ne_nil v units)]

/-- `v120_write_args` takes the numerals back as well. -/
theorem v120WriteArgs_printUnit (rw : UnitAccess) (hpositive : 0 < size) (hnarrow : Narrow size units)
    (dst : Pointer) :
    v120WriteArgs rw (units.map (printUnit size)) dst 0 = ⟨placeUnits rw units dst, 0, .returned exitSuccess⟩ := by
  induction units generalizing dst with
  | nil => rfl
  | cons v units ih =>
    obtain ⟨hv, hnarrow⟩ := List.forall_mem_cons.mp hnarrow
    have hnumeral := isNumeral_printUnit hpositive hv
    have hconverted : ¬ ((printUnit size v).length = 0 ∨
        strtoulErrno ⟨v.setWidth 64, (printUnit size v).length, false⟩ 0 ≠ 0) := by
      rw [length_printUnit]
      exact not_or.mpr ⟨Nat.succ_ne_zero _, fun h => h rfl⟩
    have hunit : ((v.setWidth 64).setWidth 32 : BitVec 32) = v := by
      rw [BitVec.setWidth_setWidth_of_le _ (by decide), BitVec.setWidth_eq]
    rw [List.map_cons, v120WriteArgs, hnumeral.strtoul]
    dsimp only
    rw [if_neg hconverted]
    refine (congrArg (Written.after _) (ih hnarrow (dst + BitVec.ofNat 64 rw.size))).trans ?_
    rw [Written.after, hunit, placeUnits]

end Text

section Memory

variable {rw : UnitAccess} {memory : HostMemory}

/-- The functions for a width store as much of a value as they have octets. -/
structure UnitAccess.Stores (rw : UnitAccess) : Prop extends UnitAccess.Regular rw where
  value : ∀ dst v i, i < rw.size → (rw.put dst v).value.extractLsb' (8 * i) 8 = v.extractLsb' (8 * i) 8

/-- The functions for every width store as much of a value as they have octets. -/
theorem setUpDwidth_stores (args : V120Args) : (setUpDwidth args).Stores := by
  refine ⟨setUpDwidth_regular args, fun dst v i hi => ?_⟩
  have hcut (width : ℕ) (hi : 8 * i + 8 ≤ width) :
      ((v.setWidth width).setWidth 32).extractLsb' (8 * i) 8 = v.extractLsb' (8 * i) 8 := by
    apply BitVec.eq_of_getLsbD_eq
    intro b hb
    have hin : 8 * i + b < width := by omega
    simp only [BitVec.getLsbD_extractLsb', BitVec.getLsbD_setWidth, hb, hin, decide_true, Bool.true_and]
    by_cases hword : 8 * i + b < 32
    · simp only [hword, decide_true, Bool.true_and]
    · simp only [hword, decide_false, Bool.false_and]
      exact (BitVec.getLsbD_of_ge _ _ (Nat.not_lt.mp hword)).symm
  revert hi
  unfold setUpDwidth
  cases args.dwidth with
  | d8eo => exact fun hi => hcut 8 (by simp only [byteAccess] at hi; omega)
  | d8o => exact fun hi => hcut 8 (by simp only [byteAccess] at hi; omega)
  | d16 =>
    dsimp only
    split_ifs
    · exact fun _ => rfl
    · exact fun hi => hcut 16 (by simp only [wordAccess] at hi; omega)
  | d32 => exact fun _ => rfl

/-- The memory when units were stored one behind the other. -/
def storedUnits (rw : UnitAccess) (units : List (BitVec 32)) (dst : Pointer) (memory : HostMemory) : HostMemory :=
  (placeUnits rw units dst).foldl Store.apply memory

/-- The offset of a pointer behind another. -/
theorem toNat_add_sub {k : ℕ} (dst : Pointer) (hk : k < 2 ^ 64) :
    (dst + BitVec.ofNat 64 k - dst).toNat = k := by
  rw [BitVec.add_comm, BitVec.add_sub_cancel, BitVec.toNat_ofNat, Nat.mod_eq_of_lt hk]

/-- A unit that is stored first. -/
theorem apply_put (hrw : rw.Stores) (dst : Pointer) (v : BitVec 32) {k : ℕ} (hk : k < 2 ^ 64) :
    Store.apply memory (rw.put dst v) (dst + BitVec.ofNat 64 k) =
      if k < rw.size then v.extractLsb' (8 * k) 8 else memory (dst + BitVec.ofNat 64 k) := by
  obtain ⟨hdst, hsize⟩ := hrw.put dst v
  rw [Store.apply, hdst, hsize, toNat_add_sub dst hk]
  split_ifs with hin
  · exact hrw.value dst v k hin
  · rfl

/-- Behind the units the memory is as it was. -/
theorem storedUnits_outside (hrw : rw.Stores) (units : List (BitVec 32)) (dst : Pointer) {k : ℕ}
    (hbehind : units.length * rw.size ≤ k) (hk : k < 2 ^ 64) :
    storedUnits rw units dst memory (dst + BitVec.ofNat 64 k) = memory (dst + BitVec.ofNat 64 k) := by
  induction units generalizing dst memory k with
  | nil => rfl
  | cons v units ih =>
    rw [List.length_cons, Nat.succ_mul] at hbehind
    obtain ⟨rest, rfl⟩ := Nat.exists_eq_add_of_le (Nat.le_trans (Nat.le_add_left _ _) hbehind)
    have hnext : dst + BitVec.ofNat 64 (rw.size + rest) = dst + BitVec.ofNat 64 rw.size + BitVec.ofNat 64 rest := by
      rw [BitVec.ofNat_add, BitVec.add_assoc]
    have hfirst : Store.apply memory (rw.put dst v) (dst + BitVec.ofNat 64 (rw.size + rest)) =
        memory (dst + BitVec.ofNat 64 (rw.size + rest)) := by
      rw [apply_put hrw dst v hk, if_neg (Nat.not_lt.mpr (Nat.le_add_right _ _))]
    rw [storedUnits, placeUnits, List.foldl_cons, ← hfirst, hnext]
    exact ih (dst + BitVec.ofNat 64 rw.size) (by omega) (by omega)

/-- Each unit is where it belongs. -/
theorem storedUnits_inside (hrw : rw.Stores) {units : List (BitVec 32)} (dst : Pointer)
    (hfits : units.length * rw.size ≤ 2 ^ 64) {i : ℕ} {v : BitVec 32} (hv : units[i]? = some v) {j : ℕ}
    (hj : j < rw.size) :
    storedUnits rw units dst memory (unitAt dst rw.size i + BitVec.ofNat 64 j) = v.extractLsb' (8 * j) 8 := by
  have hsize : rw.size ≤ 4 := by
    rcases hrw.size with h | h | h <;> omega
  induction units generalizing dst memory i with
  | nil => cases hv
  | cons unit units ih =>
    rw [List.length_cons, Nat.succ_mul] at hfits
    rw [storedUnits, placeUnits, List.foldl_cons]
    cases i with
    | zero =>
      obtain rfl := Option.some.inj hv
      have hdst : unitAt dst rw.size 0 = dst := by
        rw [unitAt, Nat.zero_mul]
        exact BitVec.add_zero dst
      -- counted from the next unit on, the octet is behind all others
      have hround : BitVec.ofNat 64 (rw.size + (2 ^ 64 - rw.size + j)) = BitVec.ofNat 64 j := by
        apply BitVec.eq_of_toNat_eq
        rw [BitVec.toNat_ofNat, BitVec.toNat_ofNat]
        omega
      have hbehind : dst + BitVec.ofNat 64 j =
          dst + BitVec.ofNat 64 rw.size + BitVec.ofNat 64 (2 ^ 64 - rw.size + j) := by
        rw [BitVec.add_assoc, ← BitVec.ofNat_add, hround]
      rw [hdst]
      calc ((placeUnits rw units (dst + BitVec.ofNat 64 rw.size)).foldl Store.apply
            (Store.apply memory (rw.put dst unit))) (dst + BitVec.ofNat 64 j)
          = Store.apply memory (rw.put dst unit) (dst + BitVec.ofNat 64 j) := by
            rw [hbehind]
            exact storedUnits_outside hrw units (dst + BitVec.ofNat 64 rw.size) (by omega) (by omega)
        _ = unit.extractLsb' (8 * j) 8 := by rw [apply_put hrw dst unit (by omega), if_pos hj]
    | succ i =>
      rw [unitAt_succ]
      exact ih (dst + BitVec.ofNat 64 rw.size) (by omega) hv

/-- Units that were stored are loaded, as much of them as there is room for. -/
theorem value_storedUnits (hrw : rw.Stores) {units : List (BitVec 32)} (dst : Pointer)
    (hfits : units.length * rw.size ≤ 2 ^ 64) (hnarrow : Narrow rw.size units) :
    (readUnits rw.size units.length dst).map (Load.value (storedUnits rw units dst memory)) = units := by
  have hsize : 8 * rw.size ≤ 32 := by
    rcases hrw.size with h | h | h <;> omega
  rw [readUnits_eq, List.map_map]
  apply List.ext_getElem?
  intro i
  rw [List.getElem?_map]
  by_cases hi : i < units.length
  · rw [List.getElem?_range hi, Option.map_some, List.getElem?_eq_getElem hi, Function.comp_apply, Load.value]
    have hoctets : ∀ j < rw.size, storedUnits rw units dst memory (unitAt dst rw.size i + BitVec.ofNat 64 (0 + j)) =
        (units[i]).extractLsb' (8 * j) 8 := by
      intro j hj
      rw [Nat.zero_add]
      exact storedUnits_inside hrw dst hfits (List.getElem?_eq_getElem hi) hj
    have hv := hnarrow units[i] (List.getElem_mem hi)
    rw [valueAt_eq hsize hoctets]
    refine congrArg some (BitVec.eq_of_toNat_eq ?_)
    rw [BitVec.toNat_setWidth, BitVec.toNat_setWidth, Nat.mod_eq_of_lt hv, Nat.mod_eq_of_lt (units[i]).isLt]
  · rw [List.getElem?_eq_none (by rw [List.length_range]; omega), List.getElem?_eq_none (by omega), Option.map_none]

end Memory

section Commands

variable {σ : Type*} {os : Os σ} {d16 : V120Pd}

/-- A run of `v120_read` that succeeds loads the units of a block. -/
theorem exists_readUnits {args : V120Args} {argv : List (List Octet)} {region : VmeRegion}
    {uninitialised : BitVec 32} {u : Unopened σ}
    (h : (v120Read os d16 args argv region uninitialised u).status = exitSuccess) :
    ∃ count src, count < 2 ^ 31 ∧
      (v120Read os d16 args argv region uninitialised u).loads = readUnits (setUpDwidth args).size count src := by
  have hfailed : exitFailure ≠ exitSuccess := by decide
  cases argv with
  | nil => exact absurd h hfailed
  | cons text more =>
    rw [v120Read] at h ⊢
    dsimp only at h ⊢
    split_ifs at h ⊢
    · exact absurd h hfailed
    · generalize (readCount more _).1 = counted at h ⊢
      cases counted with
      | none => exact absurd h hfailed
      | some nunits =>
        dsimp only at h ⊢
        generalize rwOpenVme os d16 args _ _ region uninitialised _ = answer at h ⊢
        obtain left | ⟨placed, w⟩ := answer
        · exact absurd h hfailed
        · dsimp only at h ⊢
          split_ifs at h ⊢
          · exact absurd h hfailed
          · refine ⟨nunits.toInt.toNat, placed.base, ?_, rfl⟩
            have hlt := BitVec.toInt_lt (x := nunits)
            omega

/-- What `v120 read` printed in hexadecimal is stored by `v120 write` with units as wide, whether it is on the
standard input or on the command line: each unit is read again behind the base it was written to, and the memory
behind the block is as it was. Only a text without a unit is refused on the standard input. -/
theorem read_write_read {args args' : V120Args} (htext : args.binary = false)
    (hwidth : (setUpDwidth args').size = (setUpDwidth args).size) {argv : List (List Octet)} {region : VmeRegion}
    {uninitialised : BitVec 32} {u : Unopened σ}
    (hread : (v120Read os d16 args argv region uninitialised u).status = exitSuccess)
    (memory memory' : HostMemory) (dst : Pointer) :
    let run := v120Read os d16 args argv region uninitialised u
    let units := run.loads.map (Load.value memory)
    let written := v120WriteStdin (setUpDwidth args') (run.stdout args memory) dst false 0
    let given := v120WriteArgs (setUpDwidth args') (units.map (printUnit (setUpDwidth args).size)) dst 0
    let memory'' := written.stores.foldl Store.apply memory'
    written.outcome = .returned (if units = [] then exitFailure else exitSuccess) ∧
      given.stores = written.stores ∧ given.outcome = .returned exitSuccess ∧
      (readUnits (setUpDwidth args').size units.length dst).map (Load.value memory'') = units ∧
      ∀ k, units.length * (setUpDwidth args').size ≤ k → k < 2 ^ 64 →
        memory'' (dst + BitVec.ofNat 64 k) = memory' (dst + BitVec.ofNat 64 k) := by
  intro run units written given memory''
  have hrw := setUpDwidth_stores args'
  have hsize : (setUpDwidth args').size = 1 ∨ (setUpDwidth args').size = 2 ∨ (setUpDwidth args').size = 4 := hrw.size
  obtain ⟨count, src, hcount, hloads⟩ := exists_readUnits hread
  have hloads' : run.loads = readUnits (setUpDwidth args').size count src := hwidth ▸ hloads
  have hlength : units.length = count := by
    change (run.loads.map (Load.value memory)).length = count
    rw [List.length_map, hloads', readUnits_eq, List.length_map, List.length_range]
  have hnarrow : Narrow (setUpDwidth args').size units := by
    apply narrow_value
    intro load hload
    rw [hloads', readUnits_eq] at hload
    obtain ⟨i, -, rfl⟩ := List.mem_map.mp hload
    rfl
  have hstdout : run.stdout args memory = printUnits (setUpDwidth args').size 0 units ++ [0x0a] := by
    rw [ReadRun.stdout, if_neg (not_not.mpr hread), htext, if_neg Bool.false_ne_true, hwidth]
  have hwritten : written = ⟨placeUnits (setUpDwidth args') units dst, 0,
      .returned (if units = [] then exitFailure else exitSuccess)⟩ := by
    change v120WriteStdin _ (run.stdout args memory) dst false 0 = _
    rw [hstdout]
    exact v120WriteStdin_printUnits _ (by omega) (by omega) hnarrow dst
  have hgiven : given = ⟨placeUnits (setUpDwidth args') units dst, 0, .returned exitSuccess⟩ := by
    change v120WriteArgs _ (units.map (printUnit (setUpDwidth args).size)) dst 0 = _
    rw [← hwidth]
    exact v120WriteArgs_printUnit _ (by omega) hnarrow dst
  have hfits : units.length * (setUpDwidth args').size ≤ 2 ^ 64 := by
    rw [hlength]
    calc count * (setUpDwidth args').size
        ≤ 2 ^ 31 * 4 := Nat.mul_le_mul (Nat.le_of_lt hcount) (by omega)
      _ ≤ 2 ^ 64 := by decide
  have hmemory : memory'' = storedUnits (setUpDwidth args') units dst memory' := by
    change written.stores.foldl Store.apply memory' = _
    rw [hwritten, storedUnits]
  rw [hmemory]
  refine ⟨by rw [hwritten], by rw [hgiven, hwritten], by rw [hgiven], ?_, fun k hbehind hk => ?_⟩
  · exact value_storedUnits hrw dst hfits hnarrow
  · exact storedUnits_outside hrw units dst hbehind hk

/-- Two units of 16 bits that are read at `0x8010`, in memory that holds the pointers themselves. -/
theorem read_write_read_words :
    let run := v120Read AddressSpace.system 0x20 wordArgs [[0x30, 0x78, 0x38, 0x30, 0x31, 0x30], [0x32]]
      unsetRegion 0 ⟨0, .empty⟩
    let memory : HostMemory := fun p => p.setWidth 8
    let units := run.loads.map (Load.value memory)
    let written := v120WriteStdin (setUpDwidth wordArgs) (run.stdout wordArgs memory) 0x2000 false 0
    let given := v120WriteArgs (setUpDwidth wordArgs) (units.map (printUnit (setUpDwidth wordArgs).size)) 0x2000 0
    let memory'' := written.stores.foldl Store.apply fun _ => 0
    run.status = exitSuccess ∧
      (written.outcome = .returned (if units = [] then exitFailure else exitSuccess) ∧
      given.stores = written.stores ∧ given.outcome = .returned exitSuccess ∧
      (readUnits (setUpDwidth wordArgs).size units.length 0x2000).map (Load.value memory'') = units ∧
      ∀ k, units.length * (setUpDwidth wordArgs).size ≤ k → k < 2 ^ 64 →
        memory'' ((0x2000 : Pointer) + BitVec.ofNat 64 k) = 0) := by
  have hstatus : (v120Read AddressSpace.system 0x20 wordArgs [[0x30, 0x78, 0x38, 0x30, 0x31, 0x30], [0x32]]
      unsetRegion 0 ⟨0, .empty⟩).status = exitSuccess := by decide
  exact ⟨hstatus, read_write_read rfl rfl hstatus (fun p => p.setWidth 8) (fun _ => 0) 0x2000⟩

end Commands

end V120.Tool
