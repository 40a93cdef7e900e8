import V120.Common.Numerals
import V120.Tool.ForEachCrate
import V120.Tool.Scan
import V120.Vme.Pages

/-!
# The scan of the crates

`v120 scan` maps the whole window of a crate, configures the pages of the A16 space, and of the A24 space when it was
asked for, and reads every word of them. What a read does to the access register depends on the flags and on the VME
address that the descriptor of its page makes of it.
-/

namespace V120.Tool

open V120.Common V120.Vme

/-- What the register `vme_acc` of a crate holds after a word was read, by the flags and the VME address. -/
abbrev VmeBus := ℤ → BitVec 14 → ℕ → BitVec 32

/-- A line on a range. -/
def rangeLine (range : ScanRange) : List Octet :=
  0x09 :: hexadecimal 8 range.start.toNat ++ octets [' ', '-', '-', '-', '>', ' '] ++
    hexadecimal 8 range.stop.toNat ++ [0x0a]

/-- The line before the ranges of a space. -/
def spaceLine (aw : ℕ) : List Octet :=
  octets ['S', 'c', 'a', 'n', 'n', 'i', 'n', 'g', ' ', 'A'] ++ decimal aw ++
    octets [' ', 's', 'p', 'a', 'c', 'e', '.', '.', '.', '\n']

/-- The line on the number of cards. -/
def cardsLine (cards : ℕ) : List Octet :=
  0x09 :: decimal cards ++ octets [' ', 'c', 'a', 'r', 'd', 's', ' ', 'f', 'o', 'u', 'n', 'd', '\n']

/-- What the scan of a space prints. -/
def scanText (aw : ℕ) (printed : List ScanRange) (cards : Option ℤ) : List Octet :=
  spaceLine aw ++ printed.flatMap rangeLine ++
    match cards with
    | none => []
    | some cards => cardsLine cards.toNat

section Commands

variable {σ : Type*} (os : Os σ) (window : σ → Pointer → Option (ℤ × ℕ)) (bus : VmeBus) (flags : ScanFlags)
  (uninitialised : BitVec 32)

/-- What the access register of the crate holds after a word was read at a pointer into the window. -/
def lastAccess (w : Vme.World σ) (p : Pointer) : BitVec 32 :=
  match window w.outside p with
  | none => 0
  | some (_, byte) =>
    let access := translate w.handle.pd.cells byte
    bus w.handle.crateno access.1 access.2

/-- `scan_one_helper`: the words are read once the pages are configured. -/
def scanSpace (vme : Pointer) (aw : ℕ) (w : Vme.World σ) : CrateResult σ :=
  let amod := if aw = 16 then flags.a16 else flags.a24
  let configured := configurePages os (flags.sfast ||| flags.eauto ||| amod) (2 ^ aw / v120PageSize) w
  let scanned := scanOneHelper os flags uninitialised
    (fun i => lastAccess window bus configured (vme + BitVec.ofNat 64 (4 * i))) aw w
  ⟨scanned.1.2.2, scanText aw scanned.1.1 scanned.1.2.1, scanned.2⟩

/-- `scan_one`. -/
def scanOne (args : V120Args) (w : Vme.World σ) : CrateResult σ :=
  let mapped := v120GetAllVme os w
  if mapped.1 = null then ⟨exitFailure, [], mapped.2⟩
  else
    let a16 := scanSpace os window bus flags uninitialised mapped.1 16 mapped.2
    if a16.ret < 0 then ⟨exitFailure, a16.stdout, a16.left⟩
    else if args.awidth = flags.a24 then
      let a24 := scanSpace os window bus flags uninitialised mapped.1 24 a16.left
      ⟨if a24.ret < 0 then exitFailure else exitSuccess, a16.stdout ++ a24.stdout, a24.left⟩
    else ⟨exitSuccess, a16.stdout, a16.left⟩

/-- `v120_scan`. -/
def v120Scan (args : V120Args) (u : Unopened σ) : Option (ForEachRun σ) :=
  doForEachCrate os (scanOne os window bus flags uninitialised args) args.crate ⟨false, false⟩ u

end Commands

/-- A word of a space answers, among those that were read. -/
def Answers (acc : ℕ → BitVec 32) (seen i : ℕ) : Prop := i < seen ∧ vmeAcked (acc i) = true

/-- The line on a range of words. -/
def runLine (run : ℕ × ℕ) : List Octet := rangeLine ⟨ptrOffs run.1, ptrOffs run.2⟩

/-- What is printed and returned for a space, by what the access register holds after each word: the ranges of words
that answer and are followed by one that does not, and their number with the one at the top, unless the
communication is lost. Then there is no number, and the words behind are not read. -/
def SpaceReport (acc : ℕ → BitVec 32) (aw : ℕ) (text : List Octet) (ret : ℤ) : Prop :=
  ∃ seen runs, Stretches (Answers acc seen) 0 seen runs ∧ (∀ i < seen, acc i ≠ -1) ∧
    (seen < 2 ^ aw / 4 ∧ acc seen = -1 ∧ ret = -1 ∧ text = spaceLine aw ++ runs.flatMap runLine ∨
      seen = 2 ^ aw / 4 ∧ ret = 0 ∧ ∃ top : Bool, (top = true ↔ ∃ j, j + 1 = seen ∧ Answers acc seen j) ∧
        text = spaceLine aw ++ runs.flatMap runLine ++ cardsLine (runs.length + top.toNat))

/-- The loop stops where the communication is lost. -/
theorem runScanLoop_lost {accs : List (BitVec 32)} (hkept : ∀ lastacc ∈ accs, lastacc ≠ -1)
    (more : List (BitVec 32)) (i : ℕ) (found : Bool) (start : BitVec 32) (count : ℤ) :
    runScanLoop (accs ++ -1 :: more) i found start count = ⟨(runScanLoop accs i found start count).printed, -1⟩ := by
  induction accs generalizing i found start count with
  | nil => exact if_pos rfl
  | cons lastacc accs ih =>
    obtain ⟨hkept, hrest⟩ := List.forall_mem_cons.mp hkept
    rw [List.cons_append, runScanLoop, runScanLoop, if_neg hkept, if_neg hkept]
    dsimp only
    split_ifs
    · rw [ih hrest]
    · exact ih hrest _ _ _ _
    · exact ih hrest _ _ _ _

/-- The words of a list that was read are those that answer. -/
theorem ackedAt_range {acc : ℕ → BitVec 32} {seen i : ℕ} :
    AckedAt ((List.range seen).map acc) i ↔ Answers acc seen i := by
  constructor
  · rintro ⟨lastacc, hword, hack⟩
    obtain ⟨j, hj, rfl⟩ := Option.map_eq_some_iff.mp ((List.getElem?_map ..).symm.trans hword)
    obtain ⟨hless, rfl⟩ := List.getElem?_eq_some_iff.mp hj
    rw [List.getElem_range] at hack
    exact ⟨(List.length_range (n := seen)) ▸ hless, hack⟩
  · rintro ⟨hless, hack⟩
    refine ⟨acc i, ?_, hack⟩
    rw [List.getElem?_map, List.getElem?_range hless]
    rfl

/-- The words that are read when the communication is lost behind some of them. -/
theorem range_lost {acc : ℕ → BitVec 32} {seen n : ℕ} (hseen : seen < n) (hlost : acc seen = -1) :
    ∃ more, (List.range n).map acc = (List.range seen).map acc ++ -1 :: more := by
  obtain ⟨k, rfl⟩ := Nat.exists_eq_add_of_lt hseen
  rw [Nat.add_assoc, List.range_add, List.map_append, List.range_succ_eq_map, List.map_cons, List.map_cons,
    Nat.add_zero, hlost]
  exact ⟨_, rfl⟩

/-- The report on the words of a space. -/
theorem scanOneHelper_report {σ : Type*} (os : Os σ) (flags : ScanFlags) (uninitialised : BitVec 32)
    (acc : ℕ → BitVec 32) (aw : ℕ) (w : Vme.World σ) :
    let scanned := (scanOneHelper os flags uninitialised acc aw w).1
    SpaceReport acc aw (scanText aw scanned.1 scanned.2.1) scanned.2.2 := by
  intro scanned
  -- the words that are read before the communication is lost
  obtain ⟨seen, hkept, hend⟩ : ∃ seen, (∀ i < seen, acc i ≠ -1) ∧
      (seen < 2 ^ aw / 4 ∧ acc seen = -1 ∨ seen = 2 ^ aw / 4) := by
    by_cases hlost : ∃ i, i < 2 ^ aw / 4 ∧ acc i = -1
    · refine ⟨Nat.find hlost, fun i hi hsame => ?_, Or.inl (Nat.find_spec hlost)⟩
      exact Nat.find_min hlost hi ⟨hi.trans (Nat.find_spec hlost).1, hsame⟩
    · exact ⟨2 ^ aw / 4, fun i hi hsame => hlost ⟨i, hi, hsame⟩, Or.inr rfl⟩
  have hwords : ∀ lastacc ∈ (List.range seen).map acc, lastacc ≠ -1 := by
    rw [List.forall_mem_map]
    exact fun i hi => hkept i (List.mem_range.mp hi)
  have hacked : AckedAt ((List.range seen).map acc) = Answers acc seen := by
    funext i
    exact propext ackedAt_range
  obtain ⟨runs, top, hruns, htop, hprinted, hresult⟩ := runScan_stretches uninitialised hwords
  rw [TopAcked, hacked, List.length_map, List.length_range] at htop
  rw [hacked, List.length_map, List.length_range] at hruns
  have hlines : (runs.map fun r => (⟨ptrOffs r.1, ptrOffs r.2⟩ : ScanRange)).flatMap rangeLine =
      runs.flatMap runLine := List.flatMap_map ..
  refine ⟨seen, runs, hruns, hkept, ?_⟩
  cases hend with
  | inl hlost =>
    left
    obtain ⟨more, hmore⟩ := range_lost hlost.1 hlost.2
    have hscanned : scanned = ((runScan uninitialised ((List.range seen).map acc)).printed, none, -1) := by
      change (scanOneHelper os flags uninitialised acc aw w).1 = _
      rw [scanOneHelper, hmore, runScan, runScanLoop_lost hwords, if_pos (show (-1 : ℤ) < 0 by decide)]
      rfl
    rw [hscanned, hprinted]
    refine ⟨hlost.1, hlost.2, rfl, ?_⟩
    rw [scanText, hlines, List.append_nil]
  | inr hall =>
    right
    subst hall
    have hnonneg : ¬(runScan uninitialised ((List.range (2 ^ aw / 4)).map acc)).result < 0 := by
      rw [hresult]
      omega
    have hscanned : scanned = ((runScan uninitialised ((List.range (2 ^ aw / 4)).map acc)).printed,
        some (runScan uninitialised ((List.range (2 ^ aw / 4)).map acc)).result, 0) := by
      change (scanOneHelper os flags uninitialised acc aw w).1 = _
      rw [scanOneHelper, if_neg hnonneg]
    rw [hscanned, hprinted, hresult]
    refine ⟨rfl, rfl, top, htop, ?_⟩
    rw [scanText, hlines]
    rfl

section Spaces

variable {σ : Type*} {os : Os σ} {window : σ → Pointer → Option (ℤ × ℕ)} {flags : ScanFlags}

/-- The flags that the words of a space are read with. -/
def ScanFlags.config (flags : ScanFlags) (aw : ℕ) : V120Pd :=
  flags.sfast ||| flags.eauto ||| if aw = 16 then flags.a16 else flags.a24

/-- The flags fit beside the number of a page. -/
structure ScanFlags.Fit (flags : ScanFlags) : Prop where
  sfast : flags.sfast.toNat < 2 ^ 14
  eauto : flags.eauto.toNat < 2 ^ 14
  a16 : flags.a16.toNat < 2 ^ 14
  a24 : flags.a24.toNat < 2 ^ 14

/-- The flags of an address space fit beside the number of a page. -/
theorem ScanFlags.Fit.config (h : flags.Fit) (aw : ℕ) : (flags.config aw).toNat < 2 ^ 14 := by
  rw [ScanFlags.config, BitVec.toNat_or, BitVec.toNat_or]
  apply Nat.or_lt_two_pow
  · exact Nat.or_lt_two_pow h.sfast h.eauto
  · split_ifs
    · exact h.a16
    · exact h.a24

/-- The window of a crate is mapped from a pointer on. -/
def WindowAt (window : σ → Pointer → Option (ℤ × ℕ)) (vme : Pointer) (s : σ) : Prop :=
  ∃ fd, ∀ k < v120PageSize * v120PageCount, window s (vme + BitVec.ofNat 64 k) = some (fd, k)

/-- Only what the register holds after the words of the space matters. -/
theorem scanOneHelper_congr (uninitialised : BitVec 32) {acc acc' : ℕ → BitVec 32} {aw : ℕ}
    (hacc : ∀ i < 2 ^ aw / 4, acc i = acc' i) (w : Vme.World σ) :
    scanOneHelper os flags uninitialised acc aw w = scanOneHelper os flags uninitialised acc' aw w := by
  have hwords : (List.range (2 ^ aw / 4)).map acc = (List.range (2 ^ aw / 4)).map acc' := by
    apply List.map_congr_left
    exact fun i hi => hacc i (List.mem_range.mp hi)
  rw [scanOneHelper, scanOneHelper, hwords]

/-- The world behind a scan is the one behind the configuration of its pages. -/
theorem scanOneHelper_snd (uninitialised : BitVec 32) (acc : ℕ → BitVec 32) (aw : ℕ) (w : Vme.World σ) :
    (scanOneHelper os flags uninitialised acc aw w).2 =
      configurePages os (flags.config aw) (2 ^ aw / v120PageSize) w := by
  rw [scanOneHelper]
  by_cases hlost : (runScan uninitialised ((List.range (2 ^ aw / 4)).map acc)).result < 0
  · rw [if_pos hlost]
    rfl
  · rw [if_neg hlost]
    rfl

/-- **Each word is read at its own VME address**, whatever descriptors the crate had before. -/
theorem scanSpace_report (hmaps : os.Unmaps window) (bus : VmeBus) (hflags : flags.Fit)
    (uninitialised : BitVec 32) {vme : Pointer} {aw : ℕ} (haw : aw = 16 ∨ aw = 24) {w : Vme.World σ}
    (hwindow : WindowAt window vme w.outside) :
    let scanned := scanSpace os window bus flags uninitialised vme aw w
    SpaceReport (fun i => bus w.handle.crateno ((flags.config aw).setWidth 14) (4 * i)) aw scanned.stdout
        scanned.ret ∧
      scanned.left.handle.crateno = w.handle.crateno ∧ WindowAt window vme scanned.left.outside := by
  intro scanned
  have hnpages : 2 ^ aw / v120PageSize ≤ v120PageCount := by
    cases haw with
    | inl h => subst h; decide
    | inr h => subst h; decide
  have hsize : 2 ^ aw ≤ v120PageSize * (2 ^ aw / v120PageSize) := by
    cases haw with
    | inl h => subst h; decide
    | inr h => subst h; decide
  have hconfigured := configured_configurePages hmaps (flags.config aw) hnpages w
  obtain ⟨fd, hmapped⟩ := hwindow
  have hacc : ∀ i < 2 ^ aw / 4,
      lastAccess window bus (configurePages os (flags.config aw) (2 ^ aw / v120PageSize) w)
        (vme + BitVec.ofNat 64 (4 * i)) = bus w.handle.crateno ((flags.config aw).setWidth 14) (4 * i) := by
    intro i hi
    have hword : 4 * i < v120PageSize * (2 ^ aw / v120PageSize) := by omega
    have hbyte := hword.trans_le (Nat.mul_le_mul_left v120PageSize hnpages)
    have hkept := hconfigured.window _ _ (hmapped (4 * i) hbyte)
    rw [lastAccess, hkept]
    dsimp only
    rw [hconfigured.translate (hflags.config aw) hnpages hword, hconfigured.crateno]
  have hreport := scanOneHelper_report os flags uninitialised
    (fun i => bus w.handle.crateno ((flags.config aw).setWidth 14) (4 * i)) aw w
  rw [← scanOneHelper_congr uninitialised hacc w] at hreport
  have hleft : scanned.left = configurePages os (flags.config aw) (2 ^ aw / v120PageSize) w :=
    scanOneHelper_snd uninitialised _ aw w
  refine ⟨hreport, ?_, ?_⟩
  · rw [hleft]
    exact hconfigured.crateno
  · rw [hleft]
    exact ⟨fd, fun k hk => hconfigured.window _ _ (hmapped k hk)⟩

/-- The communication is lost, or it is not. -/
theorem SpaceReport.ret_lt {acc : ℕ → BitVec 32} {aw : ℕ} {text : List Octet} {ret : ℤ}
    (h : SpaceReport acc aw text ret) : ret < 0 ↔ ret ≠ 0 := by
  obtain ⟨seen, runs, -, -, ⟨-, -, rfl, -⟩ | ⟨-, rfl, -⟩⟩ := h
  · decide
  · decide

/-- The status of a scan. -/
def scanStatus (ret : ℤ) : ℤ := if ret = 0 then exitSuccess else exitFailure

/-- What a scan of a crate prints and returns: the report on its A16 space and, unless the communication is lost
there, the one on its A24 space when it was asked for. -/
def CrateReport (bus : VmeBus) (flags : ScanFlags) (args : V120Args) (crateno : ℤ) (text : List Octet)
    (ret : ℤ) : Prop :=
  ∃ a16 ret16, SpaceReport (fun i => bus crateno ((flags.config 16).setWidth 14) (4 * i)) 16 a16 ret16 ∧
    if ret16 = 0 ∧ args.awidth = flags.a24 then
      ∃ a24 ret24, SpaceReport (fun i => bus crateno ((flags.config 24).setWidth 14) (4 * i)) 24 a24 ret24 ∧
        text = a16 ++ a24 ∧ ret = scanStatus ret24
    else text = a16 ∧ ret = scanStatus ret16

/-- A crate whose window cannot be mapped is not scanned. -/
theorem scanOne_unmapped (bus : VmeBus) (flags : ScanFlags) (uninitialised : BitVec 32) (args : V120Args)
    {w : Vme.World σ} (hmapped : (v120GetAllVme os w).1 = null) :
    scanOne os window bus flags uninitialised args w = ⟨exitFailure, [], (v120GetAllVme os w).2⟩ := if_pos hmapped

/-- The spaces of a crate whose window is mapped are scanned one behind the other. -/
theorem scanOne_mapped (bus : VmeBus) (flags : ScanFlags) (uninitialised : BitVec 32) (args : V120Args)
    {w : Vme.World σ} (hmapped : (v120GetAllVme os w).1 ≠ null) :
    scanOne os window bus flags uninitialised args w =
      let a16 := scanSpace os window bus flags uninitialised (v120GetAllVme os w).1 16 (v120GetAllVme os w).2
      let a24 := scanSpace os window bus flags uninitialised (v120GetAllVme os w).1 24 a16.left
      if a16.ret < 0 then ⟨exitFailure, a16.stdout, a16.left⟩
      else if args.awidth = flags.a24 then
        ⟨if a24.ret < 0 then exitFailure else exitSuccess, a16.stdout ++ a24.stdout, a24.left⟩
      else ⟨exitSuccess, a16.stdout, a16.left⟩ := if_neg hmapped

/-- A crate is scanned in its A16 space and, when it was asked for, in its A24 space. -/
theorem scanOne_report (hmaps : os.Unmaps window) (bus : VmeBus) (hflags : flags.Fit)
    (uninitialised : BitVec 32) (args : V120Args) {w : Vme.World σ} (hmapped : (v120GetAllVme os w).1 ≠ null) :
    let scanned := scanOne os window bus flags uninitialised args w
    CrateReport bus flags args w.handle.crateno scanned.stdout scanned.ret := by
  intro scanned
  have hframe := v120AllocPages_frame os 0 v120PageCount w
  have hall : WindowAt window (v120GetAllVme os w).1 (v120GetAllVme os w).2.outside := by
    have haccess := (v120AllocPages_mapped hmaps.toMaps hmapped).access
    refine ⟨(v120GetAllVme os w).2.handle.fdVme, fun k hk => ?_⟩
    have hbyte := haccess k hk
    rw [Int.toNat_zero, Nat.mul_zero, Nat.zero_add] at hbyte
    exact hbyte
  have hcrateno : (v120GetAllVme os w).2.handle.crateno = w.handle.crateno := hframe.crateno
  obtain ⟨h16, hcrateno16, hwindow16⟩ := scanSpace_report hmaps bus hflags uninitialised (Or.inl rfl) hall
  obtain ⟨h24, -, -⟩ := scanSpace_report hmaps bus hflags uninitialised (show 24 = 16 ∨ 24 = 24 from Or.inr rfl) hwindow16
  rw [hcrateno] at h16 hcrateno16
  rw [hcrateno16] at h24
  have hscanned : scanned = _ := scanOne_mapped bus flags uninitialised args hmapped
  dsimp only at hscanned
  generalize scanSpace os window bus flags uninitialised (v120GetAllVme os w).1 16 (v120GetAllVme os w).2 = a16
    at h16 h24 hscanned
  generalize scanSpace os window bus flags uninitialised (v120GetAllVme os w).1 24 a16.left = a24 at h24 hscanned
  refine ⟨a16.stdout, a16.ret, h16, ?_⟩
  by_cases hlost : a16.ret = 0
  · rw [if_neg (h16.ret_lt.not.mpr (not_not.mpr hlost))] at hscanned
    by_cases hasked : args.awidth = flags.a24
    · rw [if_pos hasked] at hscanned
      rw [if_pos ⟨hlost, hasked⟩, hscanned]
      refine ⟨a24.stdout, a24.ret, h24, rfl, ?_⟩
      rw [scanStatus]
      by_cases hlost24 : a24.ret = 0
      · rw [if_pos hlost24, if_neg (h24.ret_lt.not.mpr (not_not.mpr hlost24))]
      · rw [if_neg hlost24, if_pos (h24.ret_lt.mpr hlost24)]
    · rw [if_neg hasked] at hscanned
      rw [if_neg fun h => hasked h.2, hscanned]
      exact ⟨rfl, (if_pos hlost).symm⟩
  · rw [if_pos (h16.ret_lt.mpr hlost)] at hscanned
    rw [if_neg fun h => hlost h.1, hscanned]
    exact ⟨rfl, (if_neg hlost).symm⟩

variable (os window) in
/-- The pages of a space are configured on the same crate. -/
theorem scanSpace_crateno (bus : VmeBus) (flags : ScanFlags) (uninitialised : BitVec 32) (vme : Pointer) (aw : ℕ)
    (w : Vme.World σ) :
    (scanSpace os window bus flags uninitialised vme aw w).left.handle.crateno = w.handle.crateno := by
  have hleft : (scanSpace os window bus flags uninitialised vme aw w).left =
      configurePages os (flags.config aw) (2 ^ aw / v120PageSize) w := scanOneHelper_snd uninitialised _ aw w
  rw [hleft]
  exact configurePages_crateno _ _ w

/-- What a result leaves. To rewrite with it keeps the scans from being evaluated. -/
theorem CrateResult.left_mk (ret : ℤ) (stdout : List Octet) (w : Vme.World σ) : (CrateResult.mk ret stdout w).left = w := rfl

/-- The number of the crate stays. -/
theorem scanOne_crateno (bus : VmeBus) (flags : ScanFlags) (uninitialised : BitVec 32) (args : V120Args)
    (w : Vme.World σ) :
    (scanOne os window bus flags uninitialised args w).left.handle.crateno = w.handle.crateno := by
  have hframe : (v120GetAllVme os w).2.handle.crateno = w.handle.crateno :=
    (v120AllocPages_frame os 0 v120PageCount w).crateno
  have h16 := scanSpace_crateno os window bus flags uninitialised (v120GetAllVme os w).1 16
    (v120GetAllVme os w).2
  have h24 (a16 : CrateResult σ) := scanSpace_crateno os window bus flags uninitialised (v120GetAllVme os w).1 24
    a16.left
  by_cases hmapped : (v120GetAllVme os w).1 = null
  · rw [scanOne_unmapped bus flags uninitialised args hmapped]
    exact hframe
  · have hscanned : scanOne os window bus flags uninitialised args w = _ :=
      scanOne_mapped bus flags uninitialised args hmapped
    dsimp only at hscanned
    generalize scanSpace os window bus flags uninitialised (v120GetAllVme os w).1 16 (v120GetAllVme os w).2 = a16
      at h16 hscanned
    specialize h24 a16
    generalize scanSpace os window bus flags uninitialised (v120GetAllVme os w).1 24 a16.left = a24 at h24 hscanned
    rw [hscanned]
    by_cases hlost : a16.ret < 0
    · rw [if_pos hlost, CrateResult.left_mk]
      exact h16.trans hframe
    · rw [if_neg hlost]
      by_cases hasked : args.awidth = flags.a24
      · rw [if_pos hasked, CrateResult.left_mk]
        exact h24.trans (h16.trans hframe)
      · rw [if_neg hasked, CrateResult.left_mk]
        exact h16.trans hframe

/-- **Every crate is reported on once, as it answers.** Whatever the descriptors of the crates are and whichever of
the pages cannot be mapped a second time: a scan comes to its end, its crates are those that it was asked for, in
order, and the report on each of them shows the ranges of VME addresses at which it answers with the flags of the
space, up to the word at which the communication is lost, if it is. Only a crate whose window cannot be mapped has
no report. -/
theorem v120Scan_reports (hmaps : os.Unmaps window) (bus : VmeBus) (hflags : flags.Fit)
    (uninitialised : BitVec 32) (args : V120Args) (u : Unopened σ) :
    ∃ run, v120Scan os window bus flags uninitialised args u = some run ∧
      run.stdout = cratesOutput false (run.calls.map (CrateResult.stdout ∘ CrateCall.result)) ∧
      (run.calls.map CrateCall.crateno).Pairwise (· < ·) ∧
      (∀ attached, Attached os attached → run.calls.map CrateCall.crateno = wantedCrates args.crate false attached) ∧
      ∀ call ∈ run.calls,
        (v120GetAllVme os call.world).1 = null ∧ call.result.stdout = [] ∧ call.result.ret = exitFailure ∨
          CrateReport bus flags args call.crateno call.result.stdout call.result.ret := by
  obtain ⟨run, hrun, hinorder, hstdout, -, -, hcrates⟩ :=
    doForEachCrate_crates (scanOne os window bus flags uninitialised args) hmaps.pointer
      (scanOne_crateno bus flags uninitialised args) args.crate ⟨false, false⟩ u
  refine ⟨run, hrun, hstdout, hinorder.order, hcrates, fun call hcall => ?_⟩
  rw [hinorder.result call hcall]
  by_cases hmapped : (v120GetAllVme os call.world).1 = null
  · left
    rw [scanOne_unmapped bus flags uninitialised args hmapped]
    exact ⟨hmapped, rfl, rfl⟩
  · right
    exact scanOne_report hmaps bus hflags uninitialised args hmapped

end Spaces

/-- Every crate is attached to a system with the window at a fixed place. -/
theorem fixedWindow_attached (device : ℕ) : Attached (fixedWindow device) fun _ => true := by
  intro n s
  have hcontrol : ((fixedWindow device).mmap v120MmapSize device 0 s).1 = .ok 0x1000 :=
    congrArg Prod.fst (if_pos ⟨rfl, by decide⟩)
  exact congrArg Except.isOk hcontrol

/-- The register says that the words of a card in the A16 space answer, and that nothing else does. -/
def oneCard : VmeBus := fun _ access byte => if access = 0xe5 ∧ 0x9000 ≤ byte ∧ byte < 0x9100 then 1 else 0

/-- Crate 3 is scanned in both spaces. -/
theorem v120Scan_reports_oneCard :
    let flags : ScanFlags := ⟨0x40, 0x80, 0x25, 0x2a⟩
    let args : V120Args := ⟨3, 0x2a, .d16, false, false, 0⟩
    ∃ run, v120Scan (fixedWindow 7) (fixedBytes 7) oneCard flags 0 args ⟨0, ()⟩ = some run ∧
      run.calls.map CrateCall.crateno = [3] ∧
      ∀ call ∈ run.calls,
        (v120GetAllVme (fixedWindow 7) call.world).1 = null ∧ call.result.stdout = [] ∧
            call.result.ret = exitFailure ∨
          CrateReport oneCard flags args call.crateno call.result.stdout call.result.ret := by
  intro flags args
  have hflags : flags.Fit := ⟨by decide, by decide, by decide, by decide⟩
  obtain ⟨run, hrun, -, -, hcrates, hreports⟩ :=
    v120Scan_reports (fixedWindow_unmaps 7) oneCard hflags 0 args ⟨0, ()⟩
  exact ⟨run, hrun, (hcrates _ (fixedWindow_attached 7)).trans (by decide), hreports⟩

end V120.Tool
