import V120.Tool.StdinRegion
import V120.Vme.PageCounts

/-!
# Where the units of a read or a write lie

`rw_open_vme` asks for a region from the number of units and the data width alone, before the size of a
unit is set up: a unit of the split form takes twice as many octets as were asked for. Only the last page
is left for the region, and a length that does not fit in it is refused when its pages are counted.
-/

namespace V120.Tool

open V120.Common V120.Vme

variable {σ : Type*}

/-- An access of so many octets lies in the pages that were mapped and configured. -/
def StaysInside (window : σ → Pointer → Option (ℤ × ℕ)) (w : Vme.World σ) (ptr : Pointer)
    (size : ℕ) : Prop :=
  ∀ k < size, ∃ byte, window w.outside (ptr + BitVec.ofNat 64 k) = some (w.handle.fdVme, byte) ∧
    ((byte / v120PageSize : ℕ) : ℤ) ∈ w.handle.pd.written

/-- The place of a unit behind the base of a region. -/
def unitAt (base : Pointer) (size i : ℕ) : Pointer := base + BitVec.ofNat 64 (i * size)

/-- A number of units from the base of a region on lie in the pages that were mapped and configured. -/
def UnitsInside (window : σ → Pointer → Option (ℤ × ℕ)) (w : Vme.World σ) (base : Pointer)
    (size count : ℕ) : Prop :=
  ∀ i < count, StaysInside window w (unitAt base size i) size

/-- The next unit is the first one behind the next base. -/
theorem unitAt_succ (base : Pointer) (size i : ℕ) :
    unitAt base size (i + 1) = unitAt (base + BitVec.ofNat 64 size) size i := by
  rw [unitAt, unitAt, BitVec.add_assoc, ← BitVec.ofNat_add, Nat.succ_mul, Nat.add_comm]

/-- `v120_read` loads the units one behind the other. -/
theorem readUnits_eq (size count : ℕ) (src : Pointer) :
    readUnits size count src = (List.range count).map fun i => ⟨unitAt src size i, size⟩ := by
  induction count generalizing src with
  | zero => rfl
  | succ count ih =>
    have hfirst : unitAt src size 0 = src := by
      rw [unitAt, Nat.zero_mul]
      exact BitVec.add_zero src
    rw [readUnits, ih, List.range_succ_eq_map, List.map_cons, List.map_map, hfirst]
    congr 2
    funext i
    rw [Function.comp_apply, unitAt_succ]

/-- `v120_write_args` stores units one behind the other, as many as it gets to. -/
theorem v120WriteArgs_stores (rw : UnitAccess) (argv : List (List Octet)) (dst : Pointer) (errno : ℤ) :
    ∃ units : List (BitVec 32), units.length ≤ argv.length ∧
      (v120WriteArgs rw argv dst errno).stores = placeUnits rw units dst := by
  induction argv generalizing dst errno with
  | nil => exact ⟨[], Nat.le_refl _, rfl⟩
  | cons arg argv ih =>
    rw [v120WriteArgs]
    split_ifs
    · exact ⟨[], Nat.zero_le _, rfl⟩
    · obtain ⟨units, hunits, hstores⟩ :=
        ih (dst + BitVec.ofNat 64 rw.size) (strtoulErrno (strtoul arg) errno)
      exact ⟨(strtoul arg).value.setWidth 32 :: units, Nat.succ_le_succ hunits,
        congrArg (List.cons _) hstores⟩

/-- Each store of `v120_write_args` is to one of the units. -/
theorem v120WriteArgs_units {rw : UnitAccess} (hrw : rw.Regular) (argv : List (List Octet)) (base : Pointer)
    (errno : ℤ) : ∀ store ∈ (v120WriteArgs rw argv base errno).stores, ∃ i < argv.length,
      store.dst = unitAt base rw.size i ∧ store.size = rw.size := by
  obtain ⟨units, hunits, hstores⟩ := v120WriteArgs_stores rw argv base errno
  rw [hstores]
  intro store hstore
  obtain ⟨i, hi⟩ := List.mem_iff_getElem?.mp hstore
  rw [getElem?_placeUnits] at hi
  obtain ⟨unit, hunit, rfl⟩ := Option.map_eq_some_iff.mp hi
  obtain ⟨hlt, -⟩ := List.getElem?_eq_some_iff.mp hunit
  exact ⟨i, Nat.lt_of_lt_of_le hlt hunits, hrw.put _ unit⟩

/-- A count as a length. -/
theorem toNat_signExtend {nunits : BitVec 32} (h : 0 ≤ nunits.toInt) :
    (nunits.signExtend 64).toNat = nunits.toInt.toNat ∧ nunits.toInt.toNat < 2 ^ 31 := by
  have hmsb : nunits.msb = false := by
    rw [BitVec.msb_eq_false_iff_two_mul_lt]
    rw [BitVec.toInt_eq_toNat_cond] at h
    split_ifs at h with hlt
    · exact hlt
    · have hbound := nunits.isLt
      omega
  have hsmall := BitVec.msb_eq_false_iff_two_mul_lt.mp hmsb
  have hint := BitVec.toInt_eq_toNat_of_lt hsmall
  rw [BitVec.signExtend_eq_setWidth_of_msb_false hmsb, BitVec.toNat_setWidth, hint]
  exact ⟨by omega, by omega⟩

/-- No more octets are asked for than the units take, and at least one. -/
theorem rwLen_bounds (args : V120Args) {count : ℕ} (hpositive : 1 ≤ count) (hshort : count < 2 ^ 31) :
    1 ≤ (rwLen args count).toNat ∧ (rwLen args count).toNat ≤ count * (setUpDwidth args).size := by
  unfold rwLen setUpDwidth
  cases args.dwidth with
  | d8eo =>
    dsimp only [byteAccess]
    rw [BitVec.toNat_ofNat]
    omega
  | d8o =>
    dsimp only [byteAccess]
    rw [BitVec.toNat_ofNat]
    omega
  | d16 =>
    dsimp only
    rw [BitVec.toNat_mul, BitVec.toNat_ofNat]
    simp only [BitVec.reduceToNat]
    split_ifs
    · dsimp only [dwordAccess]
      omega
    · dsimp only [wordAccess]
      omega
  | d32 =>
    dsimp only [dwordAccess]
    rw [BitVec.toNat_mul, BitVec.toNat_ofNat]
    simp only [BitVec.reduceToNat]
    omega

variable {os : Os σ} {d16 : V120Pd} {window : σ → Pointer → Option (ℤ × ℕ)}

/-- What `v120_read` loads from the region it opened are the units counted for it. -/
theorem v120Read_loads {args : V120Args} {argv : List (List Octet)} {region : VmeRegion}
    {uninitialised : BitVec 32} {u : Unopened σ} {placed : VmeRegion} {w : Vme.World σ}
    (h : (v120Read os d16 args argv region uninitialised u).opened = some (placed, w)) :
    ∃ (address : BitVec 64) (nunits : BitVec 32) (u' : Unopened σ),
      rwOpenVme os d16 args address (nunits.signExtend 64).toNat region uninitialised u' = .ok (placed, w) ∧
      ∀ load ∈ (v120Read os d16 args argv region uninitialised u).loads, ∃ i < nunits.toInt.toNat,
        load = ⟨unitAt placed.base (setUpDwidth args).size i, (setUpDwidth args).size⟩ := by
  cases argv with
  | nil => cases h
  | cons text more =>
    rw [v120Read] at h ⊢
    dsimp only at h ⊢
    split_ifs at h ⊢ with hrefused
    cases hcount : (readCount more (strtoulErrno (strtoul text) u.errno)).1 with
    | none =>
      rw [hcount] at h
      cases h
    | some nunits =>
      rw [hcount] at h
      dsimp only at h ⊢
      generalize hanswer :
        rwOpenVme os d16 args (strtoul text).value _ region uninitialised _ = answer at h ⊢
      obtain left | ⟨placed', w'⟩ := answer
      · cases h
      · refine ⟨_, nunits, _, hanswer.trans ?_, ?_⟩
        · dsimp only at h
          split_ifs at h <;> exact congrArg Except.ok (Option.some.inj h)
        · dsimp only at h ⊢
          split_ifs at h ⊢
          · exact fun load hload => absurd hload List.not_mem_nil
          · obtain ⟨rfl, rfl⟩ := Prod.mk.inj (Option.some.inj h)
            rw [readUnits_eq]
            intro load hload
            obtain ⟨i, hi, rfl⟩ := List.mem_map.mp hload
            exact ⟨i, List.mem_range.mp hi, rfl⟩

/-- What `v120_write` stores to the region it opened for values of the command line are units of as many
as there are values. -/
theorem v120Write_stores {args : V120Args} {text : List Octet} {values : List (List Octet)}
    (hvalues : values ≠ [])
    {stdin : List Octet} {region : VmeRegion} {uninitialised : BitVec 32} {u : Unopened σ}
    {placed : VmeRegion} {w : Vme.World σ}
    (h : (v120Write os d16 args (text :: values) stdin region uninitialised u).opened = some (placed, w)) :
    ∃ (address : BitVec 64) (u' : Unopened σ),
      rwOpenVme os d16 args address values.length region uninitialised u' = .ok (placed, w) ∧
      ∀ store ∈ (v120Write os d16 args (text :: values) stdin region uninitialised u).stores,
        ∃ i < values.length, store.dst = unitAt placed.base (setUpDwidth args).size i ∧
          store.size = (setUpDwidth args).size := by
  have hsome : ¬ values.length = 0 := fun hzero => hvalues (List.length_eq_zero_iff.mp hzero)
  rw [v120Write] at h ⊢
  dsimp only at h ⊢
  split_ifs at h ⊢ with hrefused
  generalize hanswer :
    rwOpenVme os d16 args (strtoul text).value values.length region uninitialised _ = answer at h ⊢
  obtain left | ⟨placed', w'⟩ := answer
  · cases h
  · refine ⟨_, _, hanswer.trans ?_, ?_⟩
    · dsimp only at h
      split_ifs at h <;> exact congrArg Except.ok (Option.some.inj h)
    · dsimp only at h ⊢
      split_ifs at h ⊢
      · exact fun store hstore => absurd hstore List.not_mem_nil
      · obtain ⟨rfl, rfl⟩ := Prod.mk.inj (Option.some.inj h)
        exact v120WriteArgs_units (setUpDwidth_regular args) values placed'.base w'.errno

/-- The pages that are counted for so many units. -/
def countedFor (args : V120Args) (address : BitVec 64) (nunits : ℕ) : ℕ :=
  (rwRegion 0 args address nunits unsetRegion).counted

/-- There is a single page for the region at most, and one less than two pages are counted. -/
theorem RegionOpened.counted_le {asked placed : VmeRegion} {start w : Vme.World σ}
    (h : RegionOpened os asked start placed w) : asked.counted ≤ 1 := by
  have hcount : v120PageCount = 8192 := rfl
  have hroom := (mapRegion_fits (by decide) h.mapped).1
  change 8191 + asked.counted ≤ v120PageCount at hroom
  omega

/-- The pages that were configured are those that were counted. -/
theorem RegionOpened.configured {asked placed : VmeRegion} {start w : Vme.World σ}
    (h : RegionOpened os asked start placed w) (hfresh : start.handle.pd.written = []) (page : ℕ) :
    (page : ℤ) ∈ w.handle.pd.written ↔ asked.counted = 1 ∧ page = 8191 := by
  have hle := h.counted_le
  have hnpages := asked.toNat_npages_eq
  have hint : asked.npages.toInt = asked.counted := by
    rw [BitVec.toInt_eq_toNat_of_lt (by omega), hnpages]
  rw [h.written hfresh, hint]
  omega

/-- The region is accessed through its base, in the last page if it takes one. -/
theorem RegionOpened.landed (hmaps : os.Maps window) {asked placed : VmeRegion} {start w : Vme.World σ}
    (h : RegionOpened os asked start placed w) : placed.Landed window w := by
  have hlanded := (mapRegion_landed hmaps (by decide) h.mapped).1
  rw [← h.place] at hlanded
  rw [h.world]
  exact hlanded.setListHead _

/-- Units that fit in the page the address lies in stay inside. -/
theorem RegionOpened.unitsInside (hmaps : os.Maps window) {asked placed : VmeRegion} {start w : Vme.World σ}
    (h : RegionOpened os asked start placed w) (hfresh : start.handle.pd.written = [])
    (hone : asked.counted = 1) {size count : ℕ}
    (hfits : asked.vmeAddr.toNat % v120PageSize + count * size ≤ v120PageSize) :
    UnitsInside window w placed.base size count := by
  intro i hi k hk
  have hunit : i * size + k < count * size := by
    calc i * size + k < i * size + size := Nat.add_lt_add_left hk _
      _ = (i + 1) * size := (Nat.succ_mul i size).symm
      _ ≤ count * size := Nat.mul_le_mul_right _ hi
  have haccess := (h.landed hmaps).access (i * size + k)
  have hpages : placed.mappedPages = 1 := by
    rw [h.place]
    exact (if_neg (hone ▸ Nat.one_ne_zero)).trans hone
  have hfirst : placed.mappedFrom placed.startPage.toNat = 8191 := by
    rw [h.place]
    exact if_neg (hone ▸ Nat.one_ne_zero)
  have haddr : placed.vmeAddr = asked.vmeAddr := (congrArg VmeRegion.vmeAddr h.place).trans rfl
  rw [hpages, hfirst, haddr, BitVec.ofNat_add, ← BitVec.add_assoc] at haccess
  refine ⟨_, haccess (by omega), (h.configured hfresh _).mpr ⟨hone, ?_⟩⟩
  rw [v120PageSize] at hfits ⊢
  omega

/-- Units that fit in the page are counted as one page. -/
theorem countedFor_one {args : V120Args} {address : BitVec 64} {count : ℕ} (hpositive : 1 ≤ count)
    (hshort : count < 2 ^ 31)
    (hfits : address.toNat % v120PageSize + count * (setUpDwidth args).size ≤ v120PageSize) :
    countedFor args address count = 1 := by
  obtain ⟨hsome, hlen⟩ := rwLen_bounds args hpositive hshort
  change
    (address.toNat % v120PageSize + (rwLen args count).toNat + (v120PageSize - 1)) % 2 ^ 32 / v120PageSize = 1
  rw [v120PageSize] at hfits ⊢
  omega

/-- A crate that opens is one of those there can be. -/
theorem openCrate_le {crate : ℤ} {u : Unopened σ} {h : V120Handle}
    (hopen : (openCrate os crate u).1 = some h) :
    crate ≤ 15 := by
  by_contra hbeyond
  have hbig := Int.not_le.mp hbeyond
  rw [openCrate, if_neg (by omega), v120Open, if_pos hbig] at hopen
  exact absurd hopen (Option.some_ne_none h).symm

/-- A crate that opens where every mapping is a part of the window. -/
theorem openCrate_fixedWindow (device : ℕ) {crate : ℤ} (hcrate : crate ≤ 15) (u : Unopened Unit) :
    ∃ h, (openCrate (fixedWindow device) crate u).1 = some h := by
  have hopens (unitId : ℤ) : (fixedWindow device).opens unitId u.outside = true := by
    unfold Os.opens fixedWindow
    dsimp only
    rw [if_pos ⟨rfl, by decide⟩]
    rfl
  have hopen {unitId : ℤ} (hunit : unitId ≤ 15) :
    ∃ h, (v120Open (fixedWindow device) unitId u).1 = some h :=
    Option.isSome_iff_exists.mp ((v120Open_isSome (fixedWindow_maps device) hunit u).trans (hopens unitId))
  unfold openCrate
  split_ifs with hany
  · obtain ⟨h, hfirst⟩ := hopen (show (15 - ((15 : ℕ) : ℤ)) ≤ 15 by decide)
    refine ⟨h, ?_⟩
    rw [show v120Next (fixedWindow device) none u = nextCrate (fixedWindow device) 16 u from rfl,
      nextCrate, hfirst]
  · exact hopen hcrate

/-- A crate whose mappings are parts of one window places every region that is counted as a page or less. -/
theorem rwOpenVme_fixedWindow (device : ℕ) (d16 : V120Pd) {args : V120Args} (hcrate : args.crate ≤ 15)
    {address : BitVec 64} {nunits : ℕ} (hcounted : countedFor args address nunits ≤ 1) :
    ∃ placed w,
      rwOpenVme (fixedWindow device) d16 args address nunits unsetRegion 0 ⟨0, ()⟩ = .ok (placed, w) := by
  obtain ⟨h, hopen⟩ := openCrate_fixedWindow device hcrate ⟨0, ()⟩
  have hfresh := openCrate_fresh hopen
  let asked : VmeRegion := rwRegion d16 args address nunits unsetRegion
  let start : Vme.World Unit := askedIn asked h (openCrate (fixedWindow device) args.crate ⟨0, ()⟩).2
  have hlist : start.handle.listHead = [asked] := congrArg (List.cons asked) hfresh.listHead
  have hroom : 8191 + asked.counted ≤ v120PageCount := Nat.add_le_add_left hcounted 8191
  have hfits : Fits 8191 start.handle.listHead := by
    rw [hlist]
    exact ⟨⟨hroom, fun _ => by decide⟩, trivial⟩
  have hdevice : start.HasDevice (· = (device : ℤ)) := by
    refine Or.inl ?_
    rw [show start.handle.fdVme = -1 from hfresh.fdVme]
    decide
  have hstart : (8191 : BitVec 32).toNat < v120PageCount := by decide
  obtain ⟨next, hnext⟩ := v120AllocateVme_mapsPages (fixedWindow_mapsPages device) hstart hfits hdevice 0
  have hret : ¬ (v120AllocateVme (fixedWindow device) 0 8191 start).1 < 0 := by
    have hnext' := hnext
    rw [hlist] at hnext'
    obtain ⟨-, hlast⟩ := allocateRegions_cons_next (by decide) hnext'
    have hcount : v120PageCount = 8192 := rfl
    rw [v120AllocateVme_eq hstart hnext]
    dsimp only
    rw [BitVec.toInt_eq_toNat_of_lt (by omega)]
    exact Int.not_lt.mpr (Int.natCast_nonneg _)
  have hnot : ¬ args.crate = allCrates := by
    rw [allCrates]
    omega
  unfold rwOpenVme
  rw [if_neg hnot]
  dsimp only
  rw [hopen]
  exact ⟨_, _, if_neg hret⟩

/-- The address of a byte of the window, and that it is one. -/
theorem fixedBytes_some {device : ℕ} {p : Pointer} {byte : ℤ × ℕ} (h : fixedBytes device () p = some byte) :
    p.toNat = 0x1000 + byte.2 ∧ byte.2 < 0x8000000 := by
  have hbound : v120PageSize * v120PageCount = 0x8000000 := rfl
  unfold fixedBytes at h
  split_ifs at h with hinside
  obtain rfl := Option.some.inj h
  dsimp only
  omega

/-- Where every mapping is a part of the window, units that stay inside fit in the page of the address. -/
theorem RegionOpened.fits_of_unitsInside {device : ℕ} {asked placed : VmeRegion} {start w : Vme.World Unit}
    (h : RegionOpened (fixedWindow device) asked start placed w) (hfresh : start.handle.pd.written = [])
    {size count : ℕ} (hsize : 0 < size) (hcount : 1 ≤ count)
    (hinside : UnitsInside (fixedBytes device) w placed.base size count) :
    asked.vmeAddr.toNat % v120PageSize + count * size ≤ v120PageSize := by
  have hone : asked.counted = 1 := by
    obtain ⟨byte, -, hmem⟩ := hinside 0 hcount 0 hsize
    exact ((h.configured hfresh _).mp hmem).1
  have hoffs : asked.vmeAddr.toNat % v120PageSize < v120PageSize := Nat.mod_lt _ (by decide)
  have haccess := (h.landed (fixedWindow_maps device)).access 0
  have hpages : placed.mappedPages = 1 := by
    rw [h.place]
    exact (if_neg (hone ▸ Nat.one_ne_zero)).trans hone
  have hfirst : placed.mappedFrom placed.startPage.toNat = 8191 := by
    rw [h.place]
    exact if_neg (hone ▸ Nat.one_ne_zero)
  have haddr : placed.vmeAddr = asked.vmeAddr := (congrArg VmeRegion.vmeAddr h.place).trans rfl
  rw [hpages, hfirst, haddr, Nat.mul_one] at haccess
  obtain ⟨hbase, -⟩ := fixedBytes_some (haccess hoffs)
  rw [show placed.base + BitVec.ofNat 64 0 = placed.base from BitVec.add_zero _] at hbase
  by_contra hbeyond
  -- the first octet behind the window
  let octet := v120PageSize - asked.vmeAddr.toNat % v120PageSize
  have hoctet : octet < count * size := by omega
  obtain ⟨byte, hbyte, -⟩ :=
    hinside (octet / size) (Nat.div_lt_of_lt_mul (Nat.mul_comm count size ▸ hoctet))
    (octet % size) (Nat.mod_lt _ hsize)
  rw [unitAt, BitVec.add_assoc, ← BitVec.ofNat_add, Nat.div_add_mod' octet size] at hbyte
  obtain ⟨hptr, hlast⟩ := fixedBytes_some hbyte
  rw [BitVec.toNat_add, BitVec.toNat_ofNat, hbase] at hptr
  simp only [octet, v120PageSize] at hptr hlast hoffs
  omega

/-- **When the units of a read or a write stay inside.** Whatever the operating system answers, all units
of an open region lie in the page that was mapped and configured for it exactly when there is none, or they
fit in the page their address lies in, or the region cannot be opened, because its crate does not exist or
two pages or more are counted for it. -/
theorem rwOpenVme_unitsInside_iff (d16 : V120Pd) (args : V120Args) (address : BitVec 64)
    (nunits : BitVec 32) :
    (∀ (σ : Type) (os : Os σ) (window : σ → Pointer → Option (ℤ × ℕ)) (region : VmeRegion)
      (uninitialised : BitVec 32) (u : Unopened σ) (placed : VmeRegion) (w : Vme.World σ), os.Maps window →
      rwOpenVme os d16 args address (nunits.signExtend 64).toNat region uninitialised u = .ok (placed, w) →
        UnitsInside window w placed.base (setUpDwidth args).size nunits.toInt.toNat) ↔
      nunits.toInt ≤ 0 ∨
        address.toNat % v120PageSize + nunits.toInt.toNat * (setUpDwidth args).size ≤ v120PageSize ∨
        15 < args.crate ∨ 2 ≤ countedFor args address (nunits.signExtend 64).toNat := by
  obtain ⟨hsize, -⟩ := (setUpDwidth_regular args).buffer
  constructor
  · intro hinside
    by_contra hcond
    simp only [not_or, Int.not_le, Nat.not_le, Int.not_lt] at hcond
    obtain ⟨hpositive, hbeyond, hcrate, hcounted⟩ := hcond
    obtain ⟨placed, w, hok⟩ := rwOpenVme_fixedWindow 7 d16 hcrate (Nat.le_of_lt_succ hcounted)
    obtain ⟨h, hopen, hregion⟩ := rwOpenVme_ok hok
    have hunits := hinside Unit _ _ _ _ _ placed w (fixedWindow_maps 7) hok
    exact absurd (hregion.fits_of_unitsInside (openCrate_fresh hopen).written hsize (by omega) hunits)
      (Nat.not_le.mpr hbeyond)
  · intro hcond σ os window region uninitialised u placed w hmaps hok i hi
    obtain ⟨h, hopen, hregion⟩ := rwOpenVme_ok hok
    have hpositive : 0 < nunits.toInt := by omega
    obtain ⟨hlength, hshort⟩ := toNat_signExtend (Int.le_of_lt hpositive)
    rw [hlength] at hcond hregion
    rcases hcond with hnone | hfits | hcrate | htwo
    · exact absurd hpositive (Int.not_lt.mpr hnone)
    · have hone := countedFor_one (by omega) hshort hfits
      exact hregion.unitsInside hmaps (openCrate_fresh hopen).written hone hfits i hi
    · exact absurd hcrate (Int.not_lt.mpr (openCrate_le hopen))
    · have hle : countedFor args address nunits.toInt.toNat ≤ 1 := hregion.counted_le
      exact absurd htwo (Nat.not_le.mpr (Nat.lt_succ_of_le hle))

/-- The arguments of `v120 -m 3`, on 32 bits and on 32 bits split into two transactions of 16. -/
def dwordArgs (split : Bool) : V120Args := ⟨3, 0x4, if split then .d16 else .d32, split, false, 0x1⟩

/-- Four units of the split form at `0x3ff8` are counted as eight octets, and the last two of them lie behind
the page; and 2^30 units of 32 bits at the start of a page are counted as none. -/
theorem rwOpenVme_outside :
    let split := rwOpenVme AddressSpace.system 0x20 (dwordArgs true) 0x3ff8 4 unsetRegion 0 ⟨0, .empty⟩
    let long := rwOpenVme AddressSpace.system 0x20 (dwordArgs false) 0 0x40000000 unsetRegion 0 ⟨0, .empty⟩
    (∃ placed w, split = .ok (placed, w) ∧ ¬ UnitsInside AddressSpace.window w placed.base 4 4) ∧
      ∃ placed w, long = .ok (placed, w) ∧
        ¬ UnitsInside AddressSpace.window w placed.base 4 0x40000000 := by
  intro split long
  refine ⟨⟨_, _, rfl, fun hinside => ?_⟩, ⟨_, _, rfl, fun hinside => ?_⟩⟩
  · obtain ⟨byte, hbyte, -⟩ := hinside 2 (by decide) 0 (by decide)
    refine absurd (hbyte.symm.trans ?_) (Option.some_ne_none _)
    decide +kernel
  · obtain ⟨byte, -, hwritten⟩ := hinside 0 (by decide) 0 (by decide)
    exact List.not_mem_nil hwritten

end V120.Tool
