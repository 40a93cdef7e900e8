import V120.Tool.StdinReports
import V120.Vme.Renumbering

/-!
# Values on the command line and the number of the crate

Without a crate asked for, `v120 write` opens the one of the lowest number. Every lower number that was
tried in vain leaves an `errno`, which `v120_write_args` then takes for one of its first `strtoul`.
-/

namespace V120.Tool

open V120.Common V120.Vme

/-- `strtoul` converts an argument without an error. -/
def Converts (arg : List Octet) : Prop := (strtoul arg).endptr ≠ 0 ∧ (strtoul arg).erange = false

/-- Valid arguments of `v120 write`: no crate, an address at which a unit may begin, and values. -/
structure ValidArguments (args : V120Args) (text : List Octet) (values : List (List Octet)) : Prop where
  crate : args.crate < 0
  address : Converts text
  aligned : (strtoul text).value.toNat % (setUpDwidth args).size = 0
  some : values ≠ []
  values : ∀ value ∈ values, Converts value

/-- With a clean `errno` all values are written. -/
theorem v120WriteArgs_clean (rw : UnitAccess) {values : List (List Octet)}
    (hvalues : ∀ value ∈ values, Converts value) (dst : Pointer) :
    (v120WriteArgs rw values dst 0).stores = placeUnits rw (values.map wordUnit) dst ∧
      (v120WriteArgs rw values dst 0).outcome = .returned exitSuccess := by
  induction values generalizing dst with
  | nil => exact ⟨rfl, rfl⟩
  | cons value values ih =>
    obtain ⟨⟨hnumber, hrange⟩, hvalues⟩ := List.forall_mem_cons.mp hvalues
    have hclean : strtoulErrno (strtoul value) 0 = 0 := by
      rw [strtoulErrno, hrange, if_neg Bool.false_ne_true]
    obtain ⟨hstores, houtcome⟩ := ih hvalues (dst + BitVec.ofNat 64 rw.size)
    rw [v120WriteArgs, hclean, if_neg (not_or.mpr ⟨hnumber, fun h => h rfl⟩)]
    exact ⟨congrArg (List.cons _) hstores, houtcome⟩

/-- With any other `errno` the first value is refused. -/
theorem v120WriteArgs_stale (rw : UnitAccess) {values : List (List Octet)} (hsome : values ≠ [])
    (dst : Pointer) {errno : ℤ} (hstale : errno ≠ 0) : (v120WriteArgs rw values dst errno).stores = [] := by
  obtain ⟨value, values, rfl⟩ := List.exists_cons_of_ne_nil hsome
  have hrefused : strtoulErrno (strtoul value) errno ≠ 0 := by
    rw [strtoulErrno]
    split_ifs
    · decide
    · exact hstale
  rw [v120WriteArgs, if_pos (Or.inr hrefused)]

section Systems

variable {σ : Type*} {os os' : Os σ} {d16 : V120Pd} {window : σ → Pointer → Option (ℤ × ℕ)} {n n' : ℤ}

/-- Opening the region leaves `errno` as the crate was opened with. -/
theorem RegionOpened.errno (hmaps : os.Maps window) {asked placed : VmeRegion} {start w : Vme.World σ}
    (h : RegionOpened os asked start placed w) : w.errno = start.errno := by
  rw [h.world, World.modify_errno]
  exact mapRegion_errno hmaps h.mapped

/-- The region is opened alike, and `errno` is clean exactly when the crate is number 0. -/
theorem rwOpenVme_alike (hmaps : os.Maps window) (hmaps' : os'.Maps window) (hos : os.Renumbered os' n n')
    {args : V120Args} (hcrate : args.crate < 0) {s : σ} (hlowest : os.Lowest n s)
    (hlowest' : os'.Lowest n' s)
    {address : BitVec 64} {nunits : ℕ} {region : VmeRegion} {uninitialised : BitVec 32} {placed : VmeRegion}
    {w : Vme.World σ}
    (hok : rwOpenVme os d16 args address nunits region uninitialised ⟨0, s⟩ = .ok (placed, w)) :
    ∃ w', rwOpenVme os' d16 args address nunits region uninitialised ⟨0, s⟩ = .ok (placed, w') ∧
      Alike n n' w w' := by
  obtain ⟨errno, hnext, -⟩ := v120Next_lowest hmaps hlowest
  obtain ⟨errno', hnext', -⟩ := v120Next_lowest hmaps' hlowest'
  obtain ⟨hhandle, houtside⟩ := v120Open_alike hos hlowest.le hlowest'.le errno errno' s
  have hall : args.crate ≠ allCrates := by
    rintro hall
    rw [hall] at hcrate
    exact absurd hcrate (by decide)
  unfold rwOpenVme openCrate at hok ⊢
  rw [if_neg hall, if_pos hcrate] at hok ⊢
  dsimp only at hok ⊢
  rw [hnext] at hok
  rw [hnext', hhandle]
  cases hopen : (v120Open os n ⟨errno, s⟩).1 with
  | none =>
    rw [hopen] at hok
    cases hok
  | some h =>
    rw [hopen] at hok
    dsimp only [Option.map_some] at hok ⊢
    have hstart : Alike n n'
        ⟨h.addVmeRegion (rwRegion d16 args address nunits region), (v120Open os n ⟨errno, s⟩).2.errno,
          (v120Open os n ⟨errno, s⟩).2.outside⟩
        ⟨V120Handle.addVmeRegion { h with crateno := n' } (rwRegion d16 args address nunits region),
          (v120Open os' n' ⟨errno', s⟩).2.errno, (v120Open os' n' ⟨errno', s⟩).2.outside⟩ := by
      rw [houtside]
      exact ⟨(v120Open_some hopen).2.1, _, rfl⟩
    obtain ⟨hret, hplaced⟩ := v120AllocateVme_alike hos hstart uninitialised 8191
    rw [hret]
    split_ifs at hok ⊢
    obtain ⟨rfl, rfl⟩ := Prod.mk.inj (Except.ok.inj hok)
    rw [hplaced.listHead]
    exact ⟨_, rfl, hplaced⟩

/-- The `errno` an opened region leaves is clean exactly when the crate is number 0. -/
theorem rwOpenVme_errno (hmaps : os.Maps window) {args : V120Args} (hcrate : args.crate < 0) {s : σ}
    (hlowest : os.Lowest n s) {address : BitVec 64} {nunits : ℕ} {region : VmeRegion}
    {uninitialised : BitVec 32} {placed : VmeRegion} {w : Vme.World σ}
    (hok : rwOpenVme os d16 args address nunits region uninitialised ⟨0, s⟩ = .ok (placed, w)) :
    w.errno = 0 ↔ n = 0 := by
  obtain ⟨errno, hnext, hclean⟩ := v120Next_lowest hmaps hlowest
  obtain ⟨h, hopen, hregion⟩ := rwOpenVme_ok hok
  have hsame := hregion.errno hmaps
  rw [openCrate, if_pos hcrate, hnext] at hopen hsame
  rw [hsame, ← hclean]
  exact iff_of_eq (congrArg (· = 0) (v120Open_some hopen).2.2)

/-- A run with valid arguments opens its region and writes the values there. -/
theorem v120Write_values {args : V120Args} {text : List Octet} {values : List (List Octet)}
    (hvalid : ValidArguments args text values) (stdin : List Octet) {region : VmeRegion}
    {uninitialised : BitVec 32} {s : σ} {placed : VmeRegion} {w : Vme.World σ}
    (hok : rwOpenVme os d16 args (strtoul text).value values.length region uninitialised ⟨0, s⟩ =
      .ok (placed, w)) :
    let run := v120Write os d16 args (text :: values) stdin region uninitialised ⟨0, s⟩
    let written := v120WriteArgs (setUpDwidth args) values placed.base w.errno
    run.opened = some (placed, w) ∧ run.stores = written.stores ∧ run.outcome = written.outcome := by
  intro run written
  obtain ⟨hnumber, hrange⟩ := hvalid.address
  have hclean : strtoulErrno (strtoul text) 0 = 0 := by
    rw [strtoulErrno, hrange, if_neg Bool.false_ne_true]
  obtain ⟨h, -, hregion⟩ := rwOpenVme_ok hok
  have hplaced : placed.vmeAddr = (strtoul text).value := congrArg VmeRegion.vmeAddr hregion.place
  have haligned := checkAlign_aligned (setUpDwidth_regular args) (hplaced ▸ hvalid.aligned)
  have hvalues : values.length ≠ 0 := fun h => hvalid.some (List.length_eq_zero_iff.mp h)
  have hrun : ∃ left, run = ⟨some (placed, w), written.stores, written.outcome, left⟩ := by
    change ∃ left, v120Write os d16 args (text :: values) stdin region uninitialised ⟨0, s⟩ = _
    rw [v120Write]
    dsimp only
    rw [hclean, if_neg (not_or.mpr ⟨hnumber, fun h => h rfl⟩), hok]
    dsimp only
    rw [haligned, if_neg fun h => h rfl, if_neg hvalues]
    exact ⟨_, rfl⟩
  obtain ⟨left, hrun⟩ := hrun
  rw [hrun]
  exact ⟨rfl, rfl, rfl⟩

/-- Two runs in systems that differ in the number of the crate write the same: the same values at the same
places, in regions that are opened alike, and with the same exit status. -/
structure SameWrites (n n' : ℤ) (run run' : WriteRun σ) : Prop where
  opened : ∃ placed w w', run.opened = some (placed, w) ∧ run'.opened = some (placed, w') ∧ Alike n n' w w'
  stores : run'.stores = run.stores
  outcome : run'.outcome = run.outcome

/-- Every value is written, in order, from the start of the region on. -/
def AllWritten (rw : UnitAccess) (values : List (List Octet)) (run : WriteRun σ) : Prop :=
  ∃ placed w, run.opened = some (placed, w) ∧ run.stores = placeUnits rw (values.map wordUnit) placed.base

/-- A run that opened its region writes every value exactly when `errno` was clean then. -/
theorem allWritten_iff {args : V120Args} {text : List Octet} {values : List (List Octet)}
    (hvalid : ValidArguments args text values) {placed : VmeRegion} {w : Vme.World σ} {run : WriteRun σ}
    (hopened : run.opened = some (placed, w))
    (hstores : run.stores = (v120WriteArgs (setUpDwidth args) values placed.base w.errno).stores) :
    AllWritten (setUpDwidth args) values run ↔ w.errno = 0 := by
  constructor
  · rintro ⟨placed', w', -, hall⟩
    by_contra hstale
    rw [hstores, v120WriteArgs_stale _ hvalid.some _ hstale] at hall
    have hlength := congrArg List.length hall
    rw [length_placeUnits, List.length_map, List.length_nil] at hlength
    exact hvalid.some (List.length_eq_zero_iff.mp hlength.symm)
  · intro hclean
    refine ⟨placed, w, hopened, ?_⟩
    rw [hstores, hclean]
    exact (v120WriteArgs_clean _ hvalid.values _).1

/-- **When the number of the crate does not matter.** In two systems that differ in nothing but the numbers
of their lowest crates, valid arguments lead to the same writes and the same exit status, with every value
written, exactly when both crates are number 0, once the region is open. -/
theorem v120Write_numbers_iff (hmaps : os.Maps window) (hmaps' : os'.Maps window)
    (hos : os.Renumbered os' n n') {s : σ} (hlowest : os.Lowest n s) (hlowest' : os'.Lowest n' s)
    {args : V120Args} {text : List Octet} {values : List (List Octet)}
    (hvalid : ValidArguments args text values) (stdin : List Octet) {region : VmeRegion}
    {uninitialised : BitVec 32} {placed : VmeRegion} {w : Vme.World σ}
    (hopened : rwOpenVme os d16 args (strtoul text).value values.length region uninitialised ⟨0, s⟩ =
      .ok (placed, w)) :
    let run := v120Write os d16 args (text :: values) stdin region uninitialised ⟨0, s⟩
    let run' := v120Write os' d16 args (text :: values) stdin region uninitialised ⟨0, s⟩
    (SameWrites n n' run run' ∧ AllWritten (setUpDwidth args) values run ∧
        AllWritten (setUpDwidth args) values run') ↔ n = 0 ∧ n' = 0 := by
  intro run run'
  obtain ⟨w', hopened', halike⟩ := rwOpenVme_alike hmaps hmaps' hos hvalid.crate hlowest hlowest' hopened
  obtain ⟨hregion, hstores, houtcome⟩ := v120Write_values hvalid stdin hopened
  obtain ⟨hregion', hstores', houtcome'⟩ := v120Write_values hvalid stdin hopened'
  have hclean := rwOpenVme_errno hmaps hvalid.crate hlowest hopened
  have hclean' := rwOpenVme_errno hmaps' hvalid.crate hlowest' hopened'
  rw [allWritten_iff hvalid hregion hstores, allWritten_iff hvalid hregion' hstores', hclean, hclean']
  refine and_iff_right_of_imp ?_
  rintro ⟨hzero, hzero'⟩
  have hsame : w'.errno = w.errno := (hclean'.mpr hzero').trans (hclean.mpr hzero).symm
  refine ⟨⟨placed, w, w', hregion, hregion', halike⟩, ?_, ?_⟩
  · exact hstores'.trans (hsame ▸ hstores.symm)
  · exact houtcome'.trans (hsame ▸ houtcome.symm)

end Systems

/-- The arguments of `v120 write`, on 16 bits, without a crate. -/
def anyCrateArgs : V120Args := { wordArgs with crate := -1 }

/-- The address `0x8010`. -/
def address8010 : List Octet := [0x30, 0x78, 0x38, 0x30, 0x31, 0x30]

/-- `write 0x8010 7` is valid. -/
theorem validArguments_seven : ValidArguments anyCrateArgs address8010 [[0x37]] := by
  refine ⟨by decide, ⟨by decide, by decide⟩, by decide, by decide, fun value hvalue => ?_⟩
  obtain rfl := List.mem_singleton.mp hvalue
  exact ⟨by decide, by decide⟩

/-- Number 0 is the lowest one of a system in which all crates are present. -/
theorem lowest_zero : (AddressSpace.systemFrom 0).Lowest 0 .empty :=
  ⟨by decide, by decide, by decide, fun _ hnonneg hneg => absurd hneg (Int.not_lt.mpr hnonneg)⟩

/-- Number 1 is the lowest one of a system in which number 0 is not present. -/
theorem lowest_one : (AddressSpace.systemFrom 1).Lowest 1 .empty := by
  refine ⟨by decide, by decide, by decide, fun c hnonneg hless errno => ?_⟩
  obtain rfl : c = 0 := Int.le_antisymm (Int.lt_add_one_iff.mp hless) hnonneg
  exact ⟨rfl, rfl⟩

/-- `write 0x8010 7` writes the same in two systems with number 0, and not in one with number 0 and one with
number 1. -/
theorem v120Write_numbers_zero_one :
    let run := v120Write (AddressSpace.systemFrom 0) 0x20 anyCrateArgs (address8010 :: [[0x37]]) []
      unsetRegion 0 ⟨0, .empty⟩
    let run' := v120Write (AddressSpace.systemFrom 1) 0x20 anyCrateArgs (address8010 :: [[0x37]]) []
      unsetRegion 0 ⟨0, .empty⟩
    (SameWrites 0 0 run run ∧ AllWritten (setUpDwidth anyCrateArgs) [[0x37]] run) ∧
      ¬ (SameWrites 0 1 run run' ∧ AllWritten (setUpDwidth anyCrateArgs) [[0x37]] run ∧
        AllWritten (setUpDwidth anyCrateArgs) [[0x37]] run') := by
  intro run run'
  have hopened : rwOpenVme (AddressSpace.systemFrom 0) 0x20 anyCrateArgs (strtoul address8010).value 1
      unsetRegion 0 ⟨0, .empty⟩ = .ok (_, _) := rfl
  constructor
  · obtain ⟨hsame, hwritten, -⟩ := (v120Write_numbers_iff (AddressSpace.systemFrom_maps 0)
      (AddressSpace.systemFrom_maps 0) (AddressSpace.systemFrom_renumbered 0 0) lowest_zero lowest_zero
      validArguments_seven [] hopened).mpr ⟨rfl, rfl⟩
    exact ⟨hsame, hwritten⟩
  · intro h
    have hzero : (1 : ℤ) = 0 := ((v120Write_numbers_iff (AddressSpace.systemFrom_maps 0)
      (AddressSpace.systemFrom_maps 1) (AddressSpace.systemFrom_renumbered 0 1) lowest_zero lowest_one
      validArguments_seven [] hopened).mp h).2
    exact absurd hzero (by decide)

/-- With number 1 for the lowest crate `write 0x8010 7` fails without a store, where with number 0 it
succeeds. -/
theorem v120Write_number_matters :
    let run := v120Write (AddressSpace.systemFrom 0) 0x20 anyCrateArgs (address8010 :: [[0x37]]) []
      unsetRegion 0 ⟨0, .empty⟩
    let run' := v120Write (AddressSpace.systemFrom 1) 0x20 anyCrateArgs (address8010 :: [[0x37]]) []
      unsetRegion 0 ⟨0, .empty⟩
    run.stores.map Store.value = [7] ∧ run.outcome = .returned exitSuccess ∧
      run'.stores.map Store.value = [] ∧ run'.outcome = .returned exitFailure ∧
        ¬ SameWrites 0 1 run run' := by
  intro run run'
  have houtcome : run.outcome = .returned exitSuccess := by decide
  have houtcome' : run'.outcome = .returned exitFailure := by decide
  refine ⟨by decide, houtcome, by decide, houtcome', fun hsame => ?_⟩
  rw [hsame.outcome, houtcome] at houtcome'
  exact absurd houtcome' (by decide)

end V120.Tool
