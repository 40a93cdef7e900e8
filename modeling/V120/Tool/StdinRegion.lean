import V120.Tool.WriteStdin

/-!
# The region behind the standard input

Where the region lies that `v120 write` opens without knowing the number of units, and when the units
reach the VME addresses asked for.
-/

namespace V120.Tool

open V120.Common V120.Vme

section Region

variable {σ : Type*} {os : Os σ} {d16 : V120Pd} {window : σ → Pointer → Option (ℤ × ℕ)}

/-- Whatever crate is opened, its handle is fresh. -/
theorem openCrate_fresh {crate : ℤ} {u : Unopened σ} {h : V120Handle}
    (hopen : (openCrate os crate u).1 = some h) : h.Fresh := by
  unfold openCrate at hopen
  split_ifs at hopen with hcrate
  · exact nextCrate_fresh hopen
  · exact (v120Open_some hopen).1

/-- `errno` stays clean when the crate asked for opens, or the first one when none was asked for. -/
theorem openCrate_errno (hmaps : os.Maps window) {crate : ℤ} {u : Unopened σ} (hclean : u.errno = 0)
    {h : V120Handle} (hopen : (openCrate os crate u).1 = some h) :
    (openCrate os crate u).2.errno = 0 ↔ 0 ≤ crate ∨ os.opens 0 u.outside = true := by
  have hzero := v120Open_isSome hmaps (show (0 : ℤ) ≤ 15 by decide) u
  unfold openCrate at hopen ⊢
  by_cases hcrate : crate < 0
  · rw [if_pos hcrate, v120Next_errno hmaps hclean, hzero]
    exact ⟨Or.inr, fun h => h.resolve_left (Int.not_le.mpr hcrate)⟩
  · rw [if_neg hcrate] at hopen ⊢
    exact ⟨fun _ => Or.inl (Int.not_lt.mp hcrate), fun _ => (v120Open_some hopen).2.2.trans hclean⟩

/-- The world in which the region is placed. -/
def askedIn (asked : VmeRegion) (h : V120Handle) (u : Unopened σ) : Vme.World σ :=
  ⟨h.addVmeRegion asked, u.errno, u.outside⟩

/-- What was done to open a region in a world: the pages of the region were mapped from page 8191 on, and
it was placed there. -/
structure RegionOpened (os : Os σ) (asked : VmeRegion) (start : Vme.World σ) (placed : VmeRegion)
    (w : Vme.World σ) : Prop where
  mapped : (mapRegion os asked 8191 start).1 ≠ null
  place : placed = asked.place (mapRegion os asked 8191 start).1 8191
  world : w = (mapRegion os asked 8191 start).2.modify
    fun h => { h with listHead := [asked.place (mapRegion os asked 8191 start).1 8191] }

/-- `rw_open_vme` gives up, or it has opened a crate and a region. -/
theorem rwOpenVme_ok {args : V120Args} {address : BitVec 64} {nunits : ℕ} {region : VmeRegion}
    {uninitialised : BitVec 32} {u : Unopened σ} {placed : VmeRegion} {w : Vme.World σ}
    (hok : rwOpenVme os d16 args address nunits region uninitialised u = .ok (placed, w)) :
    ∃ h, (openCrate os args.crate u).1 = some h ∧
      RegionOpened os (rwRegion d16 args address nunits region)
        (askedIn (rwRegion d16 args address nunits region) h (openCrate os args.crate u).2) placed w := by
  unfold rwOpenVme at hok
  by_cases hall : args.crate = allCrates
  · rw [if_pos hall] at hok
    cases hok
  · rw [if_neg hall] at hok
    dsimp only at hok
    cases hopen : (openCrate os args.crate u).1 with
    | none =>
      rw [hopen] at hok
      cases hok
    | some h =>
      rw [hopen] at hok
      dsimp only at hok
      split_ifs at hok with hret
      have hlist : (askedIn (rwRegion d16 args address nunits region) h
          (openCrate os args.crate u).2).handle.listHead = [rwRegion d16 args address nunits region] :=
        congrArg (List.cons _) (openCrate_fresh hopen).listHead
      obtain ⟨hmapped, hworld⟩ := v120AllocateVme_single (by decide) hlist hret
      obtain ⟨rfl, rfl⟩ := Prod.mk.inj (Except.ok.inj hok)
      exact ⟨h, rfl, hmapped,
        congrArg (fun w => w.handle.listHead.headD (rwRegion d16 args address nunits region)) hworld, hworld⟩

/-- A region of no length takes the page its address lies in, unless the page begins there. -/
theorem npages_empty {region : VmeRegion} (hempty : region.len = 0) :
    region.npages.toNat = if region.vmeAddr.toNat % v120PageSize = 0 then 0 else 1 := by
  have hsize : v120PageSize = 0x4000 := rfl
  have hzero : region.len.toNat = 0 := congrArg BitVec.toNat hempty
  have hcount : region.npages.toNat = _ := VmeRegion.toNat_npages (hzero.symm ▸ Nat.zero_le _)
  rw [hcount, hzero, hsize]
  split_ifs with haligned
  · rw [haligned]
  · omega

/-- Without values there is no length to ask for. -/
theorem rwRegion_empty (d16 : V120Pd) (args : V120Args) (address : BitVec 64) (region : VmeRegion) :
    (rwRegion d16 args address 0 region).len = 0 := by
  change rwLen args 0 = 0
  unfold rwLen
  cases args.dwidth <;> rfl

/-- The descriptors that were written are those of the pages of the region. -/
theorem RegionOpened.written {asked placed : VmeRegion} {start w : Vme.World σ}
    (h : RegionOpened os asked start placed w) (hfresh : start.handle.pd.written = []) (index : ℤ) :
    index ∈ w.handle.pd.written ↔ 8191 ≤ index ∧ index < 8191 + asked.npages.toInt := by
  have hwritten : w.handle.pd.written =
      (rangeStores 8191 asked.vmeAddr asked.config asked.npages.toInt).map Prod.fst := by
    rw [h.world, mapRegion_snd]
    change (start.handle.pd.storeAll _).written = _
    rw [Memory.written_storeAll, hfresh, List.nil_append]
    rfl
  rw [hwritten, mem_rangeStores]

/-- A number of octets fits in what is mapped behind a pointer. -/
def FitsWindow (w : Vme.World σ) (base : Pointer) (bytes : ℕ) : Prop :=
  ∃ item ∈ w.handle.mmlist, ∃ offset : ℕ,
    base = item.ptr + BitVec.ofNat 64 offset ∧ offset + bytes ≤ item.size

/-- A region of one page holds nothing at least. -/
theorem holds_nothing {asked : VmeRegion} (hpage : asked.npages.toNat = 1)
    (hconfig : asked.config.toNat < 2 ^ 14) : asked.Holds 0 := by
  have hinside := asked.vmeAddr.isLt
  exact ⟨Nat.le_of_eq hpage.symm, hconfig, by omega, Nat.le_of_lt hinside⟩

/-- An opened region was mapped. -/
theorem RegionOpened.regionMapped (hmaps : os.Maps window) {asked placed : VmeRegion} {start w : Vme.World σ}
    (h : RegionOpened os asked start placed w) {bytes : ℕ} (hholds : asked.Holds bytes) :
    ∃ base, placed = asked.place base 8191 ∧ RegionMapped window asked bytes 8191 base start w := by
  have hmapped := (mapRegion_mapped hmaps hholds (by decide) h.mapped).setListHead
    [asked.place (mapRegion os asked 8191 start).1 8191]
  rw [← h.world] at hmapped
  exact ⟨_, h.place, hmapped⟩

/-- Octets that fit behind the base of an opened region of one page stay in this page. -/
theorem RegionOpened.fits (hmaps : os.Maps window) {asked placed : VmeRegion} {start w : Vme.World σ}
    (h : RegionOpened os asked start placed w) (hfresh : start.handle.mmlist = [])
    (hpage : asked.npages.toNat = 1) (hconfig : asked.config.toNat < 2 ^ 14) {bytes : ℕ}
    (hfits : FitsWindow w placed.base bytes) :
    asked.Holds bytes := by
  have hsize : v120PageSize = 0x4000 := rfl
  have hinside := asked.vmeAddr.isLt
  obtain ⟨base, hplace, hmapped⟩ := h.regionMapped hmaps (holds_nothing hpage hconfig)
  obtain ⟨item, hitem, offset, hbase, hbytes⟩ := hfits
  rw [hmapped.mmlist, hfresh, hpage, hsize] at hitem
  obtain rfl := List.mem_singleton.mp hitem
  have hfirst := asked.place_base base 8191 0
  rw [← hplace, hbase, BitVec.add_zero, Nat.add_zero] at hfirst
  have hsame := congrArg BitVec.toNat ((BitVec.add_right_inj _).mp hfirst)
  rw [BitVec.toNat_ofNat, BitVec.toNat_ofNat] at hsame
  dsimp only at hbytes
  exact ⟨Nat.le_of_eq hpage.symm, hconfig, by omega, by omega⟩

/-- An octet is accessed as asked for: through a page whose descriptor was written, with these flags and at
this VME address. -/
def Reaches (window : σ → Pointer → Option (ℤ × ℕ)) (requested : BitVec 14) (address : ℕ) (w : Vme.World σ)
    (ptr : Pointer) : Prop :=
  ∃ byte, window w.outside ptr = some (w.handle.fdVme, byte) ∧
    ((byte / v120PageSize : ℕ) : ℤ) ∈ w.handle.pd.written ∧
    translate w.handle.pd.cells byte = (requested, address)

/-- The octets that fit in an opened region of one page are accessed as asked for. -/
theorem RegionOpened.reaches (hmaps : os.Maps window) {asked placed : VmeRegion} {start w : Vme.World σ}
    (h : RegionOpened os asked start placed w) (hwritten : start.handle.pd.written = [])
    (hpage : asked.npages.toNat = 1) {bytes : ℕ} (hholds : asked.Holds bytes) {k : ℕ} (hk : k < bytes) :
    Reaches window (asked.config.setWidth 14) (asked.vmeAddr.toNat + k) w
      (placed.base + BitVec.ofNat 64 k) := by
  obtain ⟨base, rfl, hmapped⟩ := h.regionMapped hmaps hholds
  obtain ⟨byte, haccess, htranslate, hlow, hhigh⟩ := hmapped.translated.translate hk
  have hstart : (8191 : BitVec 32).toNat ≤ v120PageCount := by decide
  obtain ⟨-, hcount, hendpage, -⟩ := VmeRegion.toInt_pages hholds.count hstart
  have hlast : byte / v120PageSize ≤ 8191 := by
    refine Nat.le_trans hhigh ?_
    change (8191 + asked.npages - 1).toNat ≤ 8191
    rw [hendpage, hpage]
    decide
  have hfirst : 8191 ≤ byte / v120PageSize := hlow
  refine ⟨byte, haccess, (h.written hwritten _).mpr ?_, htranslate⟩
  rw [hcount, hpage]
  omega

/-- What a run without values does once the region is open. -/
theorem v120Write_opened {args : V120Args} {text stdin : List Octet} {region : VmeRegion}
    {uninitialised : BitVec 32} {u : Unopened σ} {placed : VmeRegion} {w : Vme.World σ}
    (h : (v120Write os d16 args [text] stdin region uninitialised u).opened = some (placed, w)) :
    strtoulErrno (strtoul text) u.errno = 0 ∧
      rwOpenVme os d16 args (strtoul text).value 0 region uninitialised ⟨0, u.outside⟩ = .ok (placed, w) ∧
      (checkAlign (setUpDwidth args).size placed = 0 →
        (v120Write os d16 args [text] stdin region uninitialised u).stores =
          (v120WriteStdin (setUpDwidth args) stdin placed.base args.binary w.errno).stores) := by
  unfold v120Write at h ⊢
  dsimp only at h ⊢
  by_cases hrefused : (strtoul text).endptr = 0 ∨ strtoulErrno (strtoul text) u.errno ≠ 0
  · rw [if_pos hrefused] at h
    cases h
  · have hclean := not_not.mp (not_or.mp hrefused).2
    rw [if_neg hrefused, hclean] at h ⊢
    dsimp only [List.length_nil] at h ⊢
    cases hopened : rwOpenVme os d16 args (strtoul text).value 0 region uninitialised ⟨0, u.outside⟩ with
    | error left =>
      rw [hopened] at h
      cases h
    | ok answer =>
      obtain ⟨placed', w'⟩ := answer
      rw [hopened] at h
      dsimp only at h ⊢
      by_cases halign : checkAlign (setUpDwidth args).size placed' ≠ 0
      · rw [if_pos halign] at h ⊢
        obtain ⟨rfl, rfl⟩ := Prod.mk.inj (Option.some.inj h)
        exact ⟨rfl, rfl, fun haligned => absurd haligned halign⟩
      · rw [if_neg halign, if_pos rfl] at h ⊢
        obtain ⟨rfl, rfl⟩ := Prod.mk.inj (Option.some.inj h)
        exact ⟨rfl, rfl, fun _ => rfl⟩

/-- A region that begins at a unit passes the check. -/
theorem checkAlign_aligned {rw : UnitAccess} (hrw : rw.Regular) {region : VmeRegion}
    (haligned : region.vmeAddr.toNat % rw.size = 0) : checkAlign rw.size region = 0 := by
  have hmask : region.vmeAddr &&& BitVec.ofNat 64 (rw.size - 1) = 0 := by
    apply BitVec.eq_of_toNat_eq
    rw [BitVec.toNat_and]
    rcases hrw.size with hsize | hsize | hsize <;> rw [hsize] at haligned ⊢
    · exact Nat.and_zero _
    · exact (Nat.and_two_pow_sub_one_eq_mod _ 1).trans haligned
    · exact (Nat.and_two_pow_sub_one_eq_mod _ 2).trans haligned
  rw [checkAlign, if_neg fun h => h.2 hmask]

/-- The stores of `v120_write_stdin` are those of the loop it runs. -/
theorem v120WriteStdin_stores (rw : UnitAccess) (stdin : List Octet) (base : Pointer) (binary : Bool)
    (errno : ℤ) : (v120WriteStdin rw stdin base binary errno).stores =
      (if binary then v120WriteStdinBinary rw stdin base errno
        else v120WriteStdinAscii rw stdin base errno).stores := by
  unfold v120WriteStdin
  dsimp only
  generalize (if binary then v120WriteStdinBinary rw stdin base errno
    else v120WriteStdinAscii rw stdin base errno) = written
  obtain ⟨stores, errno, outcome⟩ := written
  cases outcome <;> rfl

/-- A list of units on the standard input. -/
def Supplied (binary : Bool) (size : ℕ) (stdin : List Octet) (units : List (BitVec 32)) : Prop :=
  if binary then BinaryUnits size stdin units else List.Forall₂ Spells (words isspace stdin) units

/-- How many units are stored. -/
def storedCount (binary : Bool) (size : ℕ) (stdin : List Octet) (errno : ℤ) : ℕ :=
  if binary then stdinBufsize / size else if errno = 0 then (readableWords stdin).length else 0

/-- The units supplied are stored one behind the other, as far as they are. -/
theorem v120WriteStdin_placeUnits {rw : UnitAccess} (hrw : rw.Regular) {binary : Bool} {stdin : List Octet}
    {units : List (BitVec 32)} (hunits : Supplied binary rw.size stdin units) (base : Pointer) (errno : ℤ) :
    (v120WriteStdin rw stdin base binary errno).stores =
      placeUnits rw (units.take (storedCount binary rw.size stdin errno)) base := by
  rw [v120WriteStdin_stores]
  unfold Supplied at hunits
  unfold storedCount
  cases binary with
  | true => exact v120WriteStdinBinary_stores hrw hunits base errno
  | false =>
    by_cases hclean : errno = 0
    · rw [hclean]
      exact writeStdinAsciiLoop_stores rw hunits (Nat.lt_succ_self _) base 0
    · rw [if_neg hclean]
      exact writeStdinAsciiLoop_stale rw _ stdin base 0 hclean

/-- **The units are written to the VME bus.** A run stores the units one behind the other, each octet of
unit `i` as asked for, at the VME address `i` units behind the first one. -/
def WritesUnits (window : σ → Pointer → Option (ℤ × ℕ)) (rw : UnitAccess) (requested : BitVec 14)
    (address : ℕ) (units : List (BitVec 32)) (run : WriteRun σ) : Prop :=
  ∃ placed w, run.opened = some (placed, w) ∧ ∀ i unit, units[i]? = some unit → ∃ dst,
    run.stores[i]? = some (rw.put dst unit) ∧
      ∀ k < rw.size, Reaches window requested (address + i * rw.size + k) w (dst + BitVec.ofNat 64 k)

/-- In a region of no length the units are written exactly when the region does not begin at a page, and
as many are stored as there are. -/
theorem writesUnits_iff (hmaps : os.Maps window) {rw : UnitAccess} (hrw : rw.Regular)
    {asked placed : VmeRegion} {start w : Vme.World σ} (h : RegionOpened os asked start placed w)
    (hwritten : start.handle.pd.written = []) (hmmlist : start.handle.mmlist = []) (hempty : asked.len = 0)
    (hconfig : asked.config.toNat < 2 ^ 14) {run : WriteRun σ} (hopened : run.opened = some (placed, w))
    {units : List (BitVec 32)} (hunits : units ≠ []) {count : ℕ}
    (hstores : run.stores = placeUnits rw (units.take count) placed.base)
    (hfits : FitsWindow w placed.base (units.length * rw.size)) :
    WritesUnits window rw (asked.config.setWidth 14) asked.vmeAddr.toNat units run ↔
      asked.vmeAddr.toNat % v120PageSize ≠ 0 ∧ units.length ≤ count := by
  have hnpages := npages_empty hempty
  obtain ⟨hpositive, -⟩ := hrw.buffer
  constructor
  · rintro ⟨placed', w', hopened', hall⟩
    obtain ⟨rfl, rfl⟩ := Prod.mk.inj (Option.some.inj (hopened.symm.trans hopened'))
    refine ⟨fun haligned => ?_, Nat.le_of_not_lt fun hfew => ?_⟩
    · -- the first octet of the first unit goes to a page that nothing was written for
      obtain ⟨unit, hunit⟩ := List.exists_cons_of_ne_nil hunits
      obtain ⟨more, rfl⟩ := hunit
      obtain ⟨dst, -, hreaches⟩ := hall 0 unit rfl
      obtain ⟨byte, -, hmem, -⟩ := hreaches 0 hpositive
      rw [if_pos haligned] at hnpages
      have hnone : asked.npages.toInt = 0 := by
        rw [BitVec.toInt_eq_toNat_of_lt (by omega), hnpages]
        rfl
      have hrange := (h.written hwritten _).mp hmem
      omega
    · obtain ⟨dst, hstored, -⟩ := hall count units[count] (List.getElem?_eq_getElem hfew)
      rw [hstores, getElem?_placeUnits, List.getElem?_take_eq_none (Nat.le_refl _),
        Option.map_none] at hstored
      cases hstored
  · rintro ⟨hunaligned, hmany⟩
    rw [if_neg hunaligned] at hnpages
    have hholds := h.fits hmaps hmmlist hnpages hconfig hfits
    refine ⟨placed, w, hopened, fun i unit hunit => ⟨placed.base + BitVec.ofNat 64 (i * rw.size), ?_,
      fun k hk => ?_⟩⟩
    · rw [hstores, getElem?_placeUnits, List.take_of_length_le hmany, hunit, Option.map_some]
    · have hi := (List.getElem?_eq_some_iff.mp hunit).1
      have hinside : i * rw.size + k < units.length * rw.size := by
        calc i * rw.size + k < i * rw.size + rw.size := Nat.add_lt_add_left hk _
          _ = (i + 1) * rw.size := (Nat.succ_mul i rw.size).symm
          _ ≤ units.length * rw.size := Nat.mul_le_mul_right _ hi
      have hreaches := h.reaches hmaps hwritten hnpages hholds hinside
      rw [← Nat.add_assoc, BitVec.ofNat_add, ← BitVec.add_assoc] at hreaches
      exact hreaches

/-- All units of the standard input are stored exactly when a binary input fits in the buffer, or the
words of a text do and `errno` is clean. -/
theorem le_storedCount_iff {binary : Bool} {size : ℕ} {stdin : List Octet} {units : List (BitVec 32)}
    (hsupplied : Supplied binary size stdin units) (hunits : units ≠ []) (errno : ℤ) :
    units.length ≤ storedCount binary size stdin errno ↔
      (binary = true → units.length ≤ stdinBufsize / size) ∧
        (binary = false → (∀ word ∈ words isspace stdin, word.length < stdinBufsize) ∧ errno = 0) := by
  have hpositive := List.length_pos_iff.mpr hunits
  unfold Supplied at hsupplied
  unfold storedCount
  cases binary with
  | true => exact ⟨fun h => ⟨fun _ => h, fun h => absurd h (by decide)⟩, fun h => h.1 rfl⟩
  | false =>
    have hlength : (words isspace stdin).length = units.length := List.Forall₂.length_eq hsupplied
    have hall : units.length ≤ (readableWords stdin).length ↔
        ∀ word ∈ words isspace stdin, word.length < stdinBufsize := by
      have hprefix : readableWords stdin <+: words isspace stdin := List.takeWhile_prefix _
      rw [← hlength]
      refine ⟨fun hle word hword => ?_, fun h => ?_⟩
      · rw [← hprefix.eq_of_length_le hle] at hword
        exact of_decide_eq_true (List.mem_takeWhile_imp (p := fitsBuffer) hword)
      · rw [readableWords, List.takeWhile_eq_self_iff (p := fitsBuffer) |>.mpr fun word hword =>
          decide_eq_true (h word hword)]
    rw [if_neg Bool.false_ne_true]
    split_ifs with hclean
    · exact ⟨fun h => ⟨fun h => absurd h (by decide), fun _ => ⟨hall.mp h, hclean⟩⟩,
        fun h => hall.mpr (h.2 rfl).1⟩
    · exact ⟨fun h => absurd h (Nat.not_le.mpr hpositive), fun h => absurd (h.2 rfl).2 hclean⟩

/-- **When the standard input reaches the bus.** Whatever list of units is supplied for an address at
which a unit may begin, once the region is open and they fit in what is mapped for it, all units are
written as asked for exactly when the address is not the first one of a page, a binary input fits in one
buffer, the words of a text fit in the buffer each, and `errno` is clean when a text is read, because a
crate was asked for or the first one opens. -/
theorem v120Write_writesUnits_iff (hmaps : os.Maps window) {args : V120Args}
    (hconfig : (rwConfig d16 args).toNat < 2 ^ 14) {text stdin : List Octet} {region : VmeRegion}
    {uninitialised : BitVec 32} {u : Unopened σ}
    (haligned : (strtoul text).value.toNat % (setUpDwidth args).size = 0) {placed : VmeRegion}
    {w : Vme.World σ}
    (hopened : (v120Write os d16 args [text] stdin region uninitialised u).opened = some (placed, w))
    {units : List (BitVec 32)} (hunits : units ≠ [])
    (hsupplied : Supplied args.binary (setUpDwidth args).size stdin units)
    (hfits : FitsWindow w placed.base (units.length * (setUpDwidth args).size)) :
    WritesUnits window (setUpDwidth args) ((rwConfig d16 args).setWidth 14) (strtoul text).value.toNat units
        (v120Write os d16 args [text] stdin region uninitialised u) ↔
      (strtoul text).value.toNat % v120PageSize ≠ 0 ∧
        (args.binary = true → units.length ≤ stdinBufsize / (setUpDwidth args).size) ∧
        (args.binary = false → (∀ word ∈ words isspace stdin, word.length < stdinBufsize) ∧
          (0 ≤ args.crate ∨ os.opens 0 u.outside = true)) := by
  have hrw := setUpDwidth_regular args
  obtain ⟨-, hok, hstores⟩ := v120Write_opened hopened
  obtain ⟨h, hcrate, hregion⟩ := rwOpenVme_ok hok
  have hfresh := openCrate_fresh hcrate
  have herrno := openCrate_errno hmaps rfl hcrate
  have hempty := rwRegion_empty d16 args (strtoul text).value region
  have hplaced : placed.vmeAddr = (strtoul text).value := congrArg VmeRegion.vmeAddr hregion.place
  have hall := hstores (checkAlign_aligned hrw (hplaced ▸ haligned))
  rw [v120WriteStdin_placeUnits hrw hsupplied] at hall
  refine (writesUnits_iff hmaps hrw hregion hfresh.written hfresh.mmlist hempty hconfig hopened hunits hall
    hfits).trans (and_congr_right fun hunaligned => ?_)
  have hpage := npages_empty hempty
  rw [if_neg hunaligned] at hpage
  obtain ⟨base, -, hmapped⟩ := hregion.regionMapped hmaps (holds_nothing hpage hconfig)
  have hsame : w.errno = (openCrate os args.crate ⟨0, u.outside⟩).2.errno := hmapped.errno
  rw [le_storedCount_iff hsupplied hunits, hsame, herrno]

end Region

/-- The arguments of `v120 -m 3 write`, on 16 bits, with a flag for each of them. -/
def wordArgs : V120Args := ⟨3, 0x4, .d16, false, false, 0x1⟩

/-- A region of which nothing is set yet. -/
def unsetRegion : VmeRegion := ⟨0, 0, 0, 0, 0, 0⟩

/-- `7 0x1f` on the standard input. -/
def sevenAndHex : List Octet := [0x37, 0x20, 0x30, 0x78, 0x31, 0x66, 0x0a]

/-- The units of that input are 7 and 31. -/
theorem supplied_sevenAndHex :
    Supplied wordArgs.binary (setUpDwidth wordArgs).size sevenAndHex [7, 0x1f] := by
  have hseven : Spells [0x37] 7 := ⟨7, ⟨by decide, by decide, rfl⟩, rfl⟩
  have hhex : Spells [0x30, 0x78, 0x31, 0x66] 0x1f := ⟨0x1f, ⟨by decide, by decide, rfl⟩, rfl⟩
  have hwords : words isspace sevenAndHex = [[0x37], [0x30, 0x78, 0x31, 0x66]] := by decide
  change List.Forall₂ Spells (words isspace sevenAndHex) [7, 0x1f]
  rw [hwords]
  exact .cons hseven (.cons hhex .nil)

/-- Within a page both units get to the bus, here to the VME addresses from `0x8010` on. -/
theorem v120Write_writesUnits_words :
    WritesUnits AddressSpace.window wordAccess 0x25 0x8010 [7, 0x1f]
      (v120Write AddressSpace.system 0x20 wordArgs [[0x30, 0x78, 0x38, 0x30, 0x31, 0x30]] sevenAndHex
        unsetRegion 0 ⟨0, .empty⟩) := by
  have hconfig : (rwConfig 0x20 wordArgs).toNat < 2 ^ 14 := by decide
  exact (v120Write_writesUnits_iff AddressSpace.system_maps hconfig (by decide) rfl (by decide)
    supplied_sevenAndHex ⟨_, List.mem_singleton_self _, 0x10, rfl, by decide⟩).mpr
    ⟨by decide, fun h => absurd h (by decide), fun _ => ⟨by decide, Or.inl (by decide)⟩⟩

/-- At the start of a page, here at `0x8000`, the units are stored and the run succeeds, but no page
descriptor was written. -/
theorem v120Write_misses :
    let run := v120Write AddressSpace.system 0x20 wordArgs [[0x30, 0x78, 0x38, 0x30, 0x30, 0x30]] sevenAndHex
      unsetRegion 0 ⟨0, .empty⟩
    (∃ placed w, run.opened = some (placed, w) ∧ FitsWindow w placed.base 4 ∧ w.handle.pd.written = []) ∧
      run.stores.map Store.value = [7, 0x1f] ∧ run.outcome = .returned exitSuccess ∧
      ¬ WritesUnits AddressSpace.window wordAccess 0x25 0x8000 [7, 0x1f] run := by
  intro run
  refine ⟨⟨_, _, rfl, ⟨_, List.mem_singleton_self _, 0, rfl, by decide⟩, rfl⟩, by decide, by decide, ?_⟩
  rintro ⟨placed, w, hopened, hall⟩
  obtain ⟨dst, -, hreaches⟩ := hall 0 7 rfl
  obtain ⟨byte, -, hmem, -⟩ := hreaches 0 (by decide)
  have hwritten : w.handle.pd.written = [] := by
    obtain ⟨-, rfl⟩ := Prod.mk.inj (Option.some.inj hopened)
    rfl
  rw [hwritten] at hmem
  exact List.not_mem_nil hmem

end V120.Tool
