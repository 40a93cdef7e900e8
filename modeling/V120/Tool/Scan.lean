import V120.Common.Stretches
import V120.Vme.Handle
import Mathlib.Tactic.SplitIfs

/-!
# The cards a scan reports

`run_scan` reads every word of a space, looks at the access register behind each one, and prints a range
when an acknowledged word is followed by one that is not. A range is counted where it begins and printed
where it ends, so one that goes up to the top of the space is counted and not printed.
-/

namespace V120.Tool

open V120.Common V120.Vme

/-- `VME_ACKED`. -/
def vmeAcked (lastacc : BitVec 32) : Bool := lastacc &&& 0x1f == 0x01

/-- `PTR_OFFS` of a word, an `unsigned int`. -/
def ptrOffs (i : ℕ) : BitVec 32 := BitVec.ofNat 32 (4 * i)

/-- A range as it is printed. -/
structure ScanRange where
  start : BitVec 32
  stop : BitVec 32
  deriving DecidableEq

/-- What `run_scan` prints, in order, and what it returns. -/
structure ScanReport where
  printed : List ScanRange
  result : ℤ
  deriving DecidableEq

/-- The loop of `run_scan` from word `i` on, over what the register `vme_acc` holds after each word that is
read. -/
def runScanLoop : List (BitVec 32) → ℕ → Bool → BitVec 32 → ℤ → ScanReport
  | [], _, _, _, count => ⟨[], count⟩
  | lastacc :: more, i, found, start, count =>
    if lastacc = -1 then ⟨[], -1⟩
    else if found && !vmeAcked lastacc then
      let report := runScanLoop more (i + 1) false start count
      { report with printed := ⟨start, ptrOffs i⟩ :: report.printed }
    else if !found && vmeAcked lastacc then runScanLoop more (i + 1) true (ptrOffs i) (count + 1)
    else runScanLoop more (i + 1) found start count

/-- `run_scan`. Its `start` is not set at first. -/
def runScan (uninitialised : BitVec 32) (accs : List (BitVec 32)) : ScanReport :=
  runScanLoop accs 0 false uninitialised 0

/-- The flags a scan configures its pages with: `V120_SFAST`, `V120_EAUTO`, `V120_A16` and `V120_A24`. -/
structure ScanFlags where
  sfast : V120Pd
  eauto : V120Pd
  a16 : V120Pd
  a24 : V120Pd

/-- `scan_one_helper`, when `vme_acc` holds `acc i` after word `i` is read: what it prints, the number of
cards among it, unless the scan was given up, and what it returns. -/
def scanOneHelper {σ : Type*} (os : Os σ) (flags : ScanFlags) (uninitialised : BitVec 32)
    (acc : ℕ → BitVec 32) (aw : ℕ) (w : Vme.World σ) : (List ScanRange × Option ℤ × ℤ) × Vme.World σ :=
  let top := 2 ^ aw
  let amod := if aw = 16 then flags.a16 else flags.a24
  let w := (List.range (top / v120PageSize)).foldl (fun w (page : ℕ) =>
    (v120ConfigurePage os page (BitVec.ofNat 64 (v120PageSize * page))
      (flags.sfast ||| flags.eauto ||| amod) w).2) w
  let report := runScan uninitialised ((List.range (top / 4)).map acc)
  if report.result < 0 then ((report.printed, none, -1), w)
  else ((report.printed, some report.result, 0), w)

/-- A word was scanned and acknowledged. -/
def AckedAt (accs : List (BitVec 32)) (i : ℕ) : Prop :=
  ∃ lastacc, accs[i]? = some lastacc ∧ vmeAcked lastacc = true

/-- Every card is reported once: what is printed are the stretches of acknowledged words in order, each with
the offset of its first word and the one just after its last word, and they are counted. -/
def ReportedOnce (accs : List (BitVec 32)) (report : ScanReport) : Prop :=
  ∃ runs : List (ℕ × ℕ), (runs.Pairwise fun r s => r.2 < s.1) ∧
    (∀ r, r ∈ runs ↔ IsStretch (AckedAt accs) r.1 r.2) ∧
    report.printed = runs.map (fun r => ⟨ptrOffs r.1, ptrOffs r.2⟩) ∧ report.result = runs.length

/-- What the loop knows before word `i`: where the stretch began that it is in, or that it is in none. -/
structure ScanState (accs : List (BitVec 32)) (i : ℕ) (found : Bool) (start : BitVec 32) : Prop where
  inside : found = true → ∃ first, Begun (AckedAt accs) first i ∧ start = ptrOffs first
  outside : found = false → ∀ j, j + 1 = i → ¬ AckedAt accs j

/-- The last word was acknowledged. -/
def TopAcked (accs : List (BitVec 32)) : Prop := ∃ j, j + 1 = accs.length ∧ AckedAt accs j

/-- A word behind those that were scanned. -/
theorem drop_cons {accs more : List (BitVec 32)} {i : ℕ} {lastacc : BitVec 32}
    (h : accs.drop i = lastacc :: more) : accs[i]? = some lastacc ∧ accs.drop (i + 1) = more := by
  constructor
  · have hfirst : (accs.drop i)[0]? = some lastacc := by rw [h, List.getElem?_cons_zero]
    rwa [List.getElem?_drop, Nat.add_zero] at hfirst
  · rw [← List.tail_drop, h, List.tail_cons]

/-- A word that was scanned is acknowledged when the register says so. -/
theorem ackedAt_iff {accs : List (BitVec 32)} {i : ℕ} {lastacc : BitVec 32}
    (hword : accs[i]? = some lastacc) : AckedAt accs i ↔ vmeAcked lastacc = true := by
  constructor
  · rintro ⟨other, hother, hack⟩
    exact Option.some.inj (hword.symm.trans hother) ▸ hack
  · exact fun hack => ⟨lastacc, hword, hack⟩

section ScanState

variable {accs : List (BitVec 32)} {i : ℕ} {found : Bool} {start : BitVec 32}

/-- An acknowledged word makes the stretch longer that the loop is in. -/
theorem ScanState.longer (h : ScanState accs i true start) (hacked : AckedAt accs i) :
    ScanState accs (i + 1) true start := by
  obtain ⟨first, hbegun, hstart⟩ := h.inside rfl
  exact ⟨fun _ => ⟨first, hbegun.succ hacked, hstart⟩, fun h => absurd h (by decide)⟩

/-- An acknowledged word begins a stretch when the loop is in none. -/
theorem ScanState.begins (h : ScanState accs i false start) (hacked : AckedAt accs i) :
    ScanState accs (i + 1) true (ptrOffs i) :=
  ⟨fun _ => ⟨i, begun_succ (h.outside rfl) hacked, rfl⟩, fun h => absurd h (by decide)⟩

/-- Behind a word that is not acknowledged the loop is in no stretch, whatever `start` holds. -/
theorem scanState_outside (hnone : ¬ AckedAt accs i) (start : BitVec 32) :
    ScanState accs (i + 1) false start :=
  ⟨fun h => absurd h (by decide), fun _ j hj => (Nat.succ.inj hj).symm ▸ hnone⟩

/-- Behind the last word the loop is in a stretch when that word was acknowledged. -/
theorem ScanState.top_iff (h : ScanState accs accs.length found start) :
    found = true ↔ TopAcked accs := by
  constructor
  · intro hfound
    obtain ⟨first, hbegun, -⟩ := h.inside hfound
    have hless := hbegun.less
    obtain ⟨j, hj⟩ := Nat.exists_eq_succ_of_ne_zero (Nat.ne_zero_of_lt hless)
    exact ⟨j, hj.symm, hbegun.holds j (by omega) (by omega)⟩
  · rintro ⟨j, hj, hacked⟩
    by_contra hfound
    exact h.outside (Bool.not_eq_true _ ▸ hfound) j hj hacked

end ScanState

/-- From any word on, the loop prints the stretches that end before the top, and counts those that begin,
among them the one that ends at the top. -/
theorem runScanLoop_stretches {accs : List (BitVec 32)} (hlost : ∀ lastacc ∈ accs, lastacc ≠ -1)
    {more : List (BitVec 32)} {i : ℕ} (hmore : accs.drop i = more) (hi : i ≤ accs.length) {found : Bool}
    {start : BitVec 32} (hstate : ScanState accs i found start) (count : ℤ) :
    ∃ runs top, Stretches (AckedAt accs) i accs.length runs ∧ (top = true ↔ TopAcked accs) ∧
      (runScanLoop more i found start count).printed = runs.map (fun r => ⟨ptrOffs r.1, ptrOffs r.2⟩) ∧
      (runScanLoop more i found start count).result + found.toNat = count + runs.length + top.toNat := by
  induction more generalizing i found start count with
  | nil =>
    obtain rfl : i = accs.length := Nat.le_antisymm hi (List.drop_eq_nil_iff.mp hmore)
    refine ⟨[], found, stretches_nil, hstate.top_iff, rfl, ?_⟩
    rw [List.length_nil, Nat.cast_zero, add_zero]
    rfl
  | cons lastacc more ih =>
    obtain ⟨hword, hmore⟩ := drop_cons hmore
    obtain ⟨hless, -⟩ := List.getElem?_eq_some_iff.mp hword
    have hkept : lastacc ≠ -1 := hlost lastacc (List.mem_of_getElem? hword)
    rw [runScanLoop, if_neg hkept]
    cases hack : vmeAcked lastacc with
    | true =>
      -- no stretch ends here: one begins, or goes on
      have hhere := (ackedAt_iff hword).mpr hack
      cases found with
      | true =>
        obtain ⟨runs, top, hruns, hrest⟩ := ih hmore hless (hstate.longer hhere) count
        exact ⟨runs, top, hruns.skip fun _ => not_isStretch_of_holds hhere, hrest⟩
      | false =>
        obtain ⟨runs, top, hruns, htop, hprinted, hresult⟩ :=
          ih hmore hless (hstate.begins hhere) (count + 1)
        refine ⟨runs, top, hruns.skip fun _ => not_isStretch_of_holds hhere, htop, hprinted, ?_⟩
        rw [Bool.toNat_true] at hresult
        change (runScanLoop more (i + 1) true (ptrOffs i) (count + 1)).result + _ = _
        rw [Bool.toNat_false]
        omega
    | false =>
      have hnone : ¬ AckedAt accs i :=
        fun h => absurd ((ackedAt_iff hword).mp h) (hack ▸ Bool.false_ne_true)
      have hnext := scanState_outside hnone start
      obtain ⟨runs, top, hruns, htop, hprinted, hresult⟩ := ih hmore hless hnext count
      cases found with
      | true =>
        -- the stretch ends, and is printed
        obtain ⟨first, hbegun, rfl⟩ := hstate.inside rfl
        refine ⟨(first, i) :: runs, top, hruns.cons ⟨hbegun, hnone⟩ hless, htop, ?_, ?_⟩
        · exact congrArg (List.cons _) hprinted
        · rw [Bool.toNat_false] at hresult
          change (runScanLoop more (i + 1) false (ptrOffs first) count).result + _ = _
          rw [Bool.toNat_true, List.length_cons]
          omega
      | false =>
        have hskip := hruns.skip fun _ => not_isStretch_of_before (hstate.outside rfl)
        exact ⟨runs, top, hskip, htop, hprinted, hresult⟩

/-- A stretch ends at the top, or before it. -/
theorem isStretch_lt {accs : List (BitVec 32)} {first next : ℕ} (h : IsStretch (AckedAt accs) first next)
    (htop : ¬ TopAcked accs) : next < accs.length := by
  obtain ⟨j, rfl⟩ := Nat.exists_eq_succ_of_ne_zero (Nat.ne_zero_of_lt h.less)
  obtain ⟨lastacc, hword, hack⟩ := h.holds j (Nat.le_of_lt_succ h.less) (Nat.lt_succ_self j)
  obtain ⟨hless, -⟩ := List.getElem?_eq_some_iff.mp hword
  exact Nat.lt_of_le_of_ne hless fun heq => htop ⟨j, heq, lastacc, hword, hack⟩

/-- The top is not acknowledged when the last word is not, or when there is none. -/
theorem not_topAcked_iff {accs : List (BitVec 32)} :
    ¬ TopAcked accs ↔ ∀ lastacc, accs.getLast? = some lastacc → vmeAcked lastacc = false := by
  rw [List.getLast?_eq_getElem?]
  constructor
  · intro hnone lastacc hword
    obtain ⟨hless, -⟩ := List.getElem?_eq_some_iff.mp hword
    exact Bool.eq_false_of_not_eq_true fun hack => hnone ⟨_, by omega, lastacc, hword, hack⟩
  · rintro hlast ⟨j, hj, lastacc, hword, hack⟩
    have hword : accs[accs.length - 1]? = some lastacc := by
      rwa [← hj, Nat.add_sub_cancel]
    exact Bool.false_ne_true ((hlast lastacc hword).symm.trans hack)

/-- The scan prints the stretches that end before the top, and counts these and the one that ends there. -/
theorem runScan_stretches (uninitialised : BitVec 32) {accs : List (BitVec 32)}
    (hlost : ∀ lastacc ∈ accs, lastacc ≠ -1) :
    ∃ runs top, Stretches (AckedAt accs) 0 accs.length runs ∧ (top = true ↔ TopAcked accs) ∧
      (runScan uninitialised accs).printed = runs.map (fun r => ⟨ptrOffs r.1, ptrOffs r.2⟩) ∧
      (runScan uninitialised accs).result = runs.length + top.toNat := by
  have hstate : ScanState accs 0 false uninitialised :=
    ⟨fun h => absurd h (by decide), fun _ j hj => absurd hj (Nat.succ_ne_zero j)⟩
  obtain ⟨runs, top, hruns, htop, hprinted, hresult⟩ :=
    runScanLoop_stretches hlost List.drop_zero (Nat.zero_le _) hstate 0
  refine ⟨runs, top, hruns, htop, hprinted, ?_⟩
  rw [Bool.toNat_false, Nat.cast_zero, add_zero, zero_add] at hresult
  exact hresult

/-- **When a scan reports every card once.** For every sequence of what the access register holds, as long
as the PCIe communication is not lost, `run_scan` prints the stretches of acknowledged words and returns how
many it printed, exactly when the last word was not acknowledged. -/
theorem runScan_reportedOnce_iff (uninitialised : BitVec 32) {accs : List (BitVec 32)}
    (hlost : ∀ lastacc ∈ accs, lastacc ≠ -1) :
    ReportedOnce accs (runScan uninitialised accs) ↔
      ∀ lastacc, accs.getLast? = some lastacc → vmeAcked lastacc = false := by
  obtain ⟨runs, top, hruns, htop, hprinted, hresult⟩ := runScan_stretches uninitialised hlost
  rw [← not_topAcked_iff]
  constructor
  · rintro ⟨all, -, -, hall, hcount⟩ hacked
    have hlength := congrArg List.length (hprinted.symm.trans hall)
    rw [List.length_map, List.length_map] at hlength
    rw [htop.mpr hacked, Bool.toNat_true] at hresult
    omega
  · intro hnone
    have hclosed : top = false := Bool.eq_false_of_not_eq_true fun h => hnone (htop.mp h)
    rw [hclosed, Bool.toNat_false, Nat.cast_zero, add_zero] at hresult
    refine ⟨runs, hruns.order, fun r => (hruns.mem r).trans ⟨And.left, fun h => ?_⟩, hprinted, hresult⟩
    exact ⟨h, Nat.zero_le _, isStretch_lt h hnone⟩

/-- Stretches of one and of two words are reported when the last word is not acknowledged. -/
theorem runScan_reportedOnce_two : ReportedOnce [1, 0, 0, 1, 1, 0] (runScan 0 [1, 0, 0, 1, 1, 0]) := by
  have hlost : (-1 : BitVec 32) ∉ [1, 0, 0, 1, 1, 0] := by decide
  refine (runScan_reportedOnce_iff 0 fun lastacc hmem heq => hlost (heq ▸ hmem)).mpr fun lastacc hlast => ?_
  obtain rfl := Option.some.inj hlast
  rfl

/-- A card at the top of the space is counted, and not printed. -/
theorem runScan_unprinted : (runScan 0 [0, 1]).result = 1 ∧ (runScan 0 [0, 1]).printed = [] ∧
    ¬ ReportedOnce [0, 1] (runScan 0 [0, 1]) := by
  refine ⟨by decide, by decide, ?_⟩
  rintro ⟨runs, -, -, hprinted, hresult⟩
  have hnone : runs = [] := List.map_eq_nil_iff.mp hprinted.symm
  rw [hnone] at hresult
  exact absurd hresult (by decide)

end V120.Tool
