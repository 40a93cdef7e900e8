import V120.Common.BitFields
import V120.Common.Spans
import V120.Vme.Mapping

/-!
# The addresses behind the allocated regions

A byte of the VME window is an offset in a page, and the descriptor of the page says which VME page
it is and how it is accessed. `v120_allocate_vme` gives each region pages of its own, one region behind
the other, such that all regions are accessed under their own addresses at once.
-/

namespace V120.Vme

open V120.Common

/-- The flag bits of a descriptor. -/
def flags (pd : V120Pd) : BitVec 14 := field 0 14 pd

/-- The VME page a descriptor addresses. -/
def vmePage (pd : V120Pd) : BitVec 50 := field 14 50 pd

/-- How a byte of the window is accessed: the flags, and the VME address. -/
def translate (pd : ℤ → V120Pd) (byte : ℕ) : BitVec 14 × ℕ :=
  let descriptor := pd ↑(byte / v120PageSize)
  (flags descriptor, (vmePage descriptor).toNat * v120PageSize + byte % v120PageSize)

/-- Flags that fit beside the page number leave it alone. -/
theorem toNat_descriptor {config : V120Pd} (hconfig : config.toNat < 2 ^ 14) (base : BitVec 64) :
    (descriptor config base).toNat = base.toNat / 0x4000 * 2 ^ 14 + config.toNat := by
  have hpage : base.toNat / 0x4000 * 2 ^ 14 < 2 ^ 64 := by omega
  have hshift : ((base / 0x4000) <<< 14).toNat = (base.toNat / 0x4000) <<< 14 := by
    rw [BitVec.toNat_shiftLeft, BitVec.toNat_udiv]
    simp only [BitVec.reduceToNat, Nat.shiftLeft_eq]
    exact Nat.mod_eq_of_lt hpage
  rw [descriptor, BitVec.toNat_or, hshift, Nat.or_comm, ← Nat.shiftLeft_add_eq_or_of_lt hconfig,
    Nat.shiftLeft_eq]

/-- The flags of a descriptor are those it was given. -/
theorem flags_descriptor {config : V120Pd} (hconfig : config.toNat < 2 ^ 14) (base : BitVec 64) :
    flags (descriptor config base) = config.setWidth 14 := by
  apply BitVec.eq_of_toNat_eq
  rw [flags, field, BitVec.extractLsb'_toNat, toNat_descriptor hconfig, BitVec.toNat_setWidth]
  omega

/-- The page of a descriptor is the one its address lies in. -/
theorem vmePage_descriptor {config : V120Pd} (hconfig : config.toNat < 2 ^ 14) (base : BitVec 64) :
    (vmePage (descriptor config base)).toNat = base.toNat / 0x4000 := by
  rw [vmePage, field, BitVec.extractLsb'_toNat, toNat_descriptor hconfig, Nat.shiftRight_eq_div_pow]
  omega

/-- The offset of a page does not wrap as long as there are descriptors. -/
theorem toNat_pageAddr (base : BitVec 64) {i : ℕ} (hi : i < 2 ^ 17) :
    (pageAddr base i).toNat = (base.toNat + i * 0x4000) % 2 ^ 64 := by
  have hproduct : (BitVec.ofNat 32 i * 0x4000).toNat = i * 0x4000 := by
    rw [BitVec.toNat_mul, BitVec.toNat_ofNat]
    simp only [BitVec.reduceToNat]
    omega
  have hsmall : 2 * (BitVec.ofNat 32 i * 0x4000).toNat < 2 ^ 32 := by omega
  have hextended : ((BitVec.ofNat 32 i * 0x4000).signExtend 64).toNat = i * 0x4000 := by
    rw [BitVec.signExtend_eq_setWidth_of_msb_false (BitVec.msb_eq_false_iff_two_mul_lt.mpr hsmall),
      BitVec.toNat_setWidth, hproduct]
    omega
  rw [pageAddr, BitVec.toNat_add, hextended]

/-- The stores of `v120_configure_pd_range`. -/
def rangeStores (startpg : ℤ) (base : BitVec 64) (config : V120Pd) (npages : ℤ) : List (ℤ × V120Pd) :=
  (List.range npages.toNat).map fun (i : ℕ) => (startpg + i, descriptor config (pageAddr base i))

/-- `v120_configure_pd_range` stores descriptors and does nothing else. -/
theorem configurePdRange_eq (h : V120Handle) (startpg : ℤ) (base : BitVec 64) (config : V120Pd) (npages : ℤ) :
    h.configurePdRange startpg base config npages =
      h.setPd (h.pd.storeAll (rangeStores startpg base config npages)) := by
  unfold V120Handle.configurePdRange rangeStores
  induction List.range npages.toNat generalizing h with
  | nil => rfl
  | cons i pages ih => exact ih (h.configurePd (startpg + i) (pageAddr base i) config)

/-- The indices written by `v120_configure_pd_range`. -/
theorem mem_rangeStores {startpg : ℤ} {base : BitVec 64} {config : V120Pd} {npages : ℤ} {index : ℤ} :
    index ∈ (rangeStores startpg base config npages).map Prod.fst ↔
      startpg ≤ index ∧ index < startpg + npages := by
  simp only [rangeStores, List.map_map, List.mem_map, List.mem_range, Function.comp_apply]
  constructor
  · rintro ⟨i, hi, rfl⟩
    omega
  · rintro ⟨hlow, hhigh⟩
    exact ⟨(index - startpg).toNat, by omega, by omega⟩

/-- No index is written twice. -/
theorem nodup_rangeStores (startpg : ℤ) (base : BitVec 64) (config : V120Pd) (npages : ℤ) :
    ((rangeStores startpg base config npages).map Prod.fst).Nodup := by
  rw [rangeStores, List.map_map]
  refine List.nodup_range.map fun i j hij => ?_
  simp only [Function.comp_apply] at hij
  omega

/-- A region whose pages can be counted in `unsigned int`, whose flags fit beside a page number, and
which ends within the VME address space. -/
structure VmeRegion.Regular (region : VmeRegion) : Prop where
  nonempty : 1 ≤ region.len.toNat
  short : region.len.toNat ≤ 2 ^ 27
  config : region.config.toNat < 2 ^ 14
  inside : region.vmeAddr.toNat + region.len.toNat ≤ 2 ^ 64

/-- What the user asks for, which `v120_allocate_vme` does not change. -/
def VmeRegion.request (region : VmeRegion) : BitVec 64 × BitVec 64 × V120Pd :=
  (region.vmeAddr, region.len, region.config)

/-- The first and last page of a region. -/
def VmeRegion.pages (region : VmeRegion) : ℕ × ℕ := (region.startPage.toNat, region.endPage.toNat)

/-- Each of so many bytes from the base of a region on is accessed in a page of the region, with the flags
of the region and at its own VME address. -/
def VmeRegion.TranslatedTo (window : σ → Pointer → Option (ℤ × ℕ)) (region : VmeRegion) (bytes : ℕ)
    (w : World σ) : Prop :=
  ∀ k < bytes, ∃ page offset : ℕ,
    region.startPage.toNat ≤ page ∧ page ≤ region.endPage.toNat ∧
      offset = (region.vmeAddr.toNat + k) % v120PageSize ∧
      window w.outside (region.base + BitVec.ofNat 64 k) =
        some (w.handle.fdVme, v120PageSize * page + offset) ∧
      flags (w.handle.pd.cells page) = region.config.setWidth 14 ∧
      (vmePage (w.handle.pd.cells page)).toNat = (region.vmeAddr.toNat + k) / v120PageSize

/-- The window translates all bytes of a region. -/
abbrev VmeRegion.Translated (window : σ → Pointer → Option (ℤ × ℕ)) (region : VmeRegion) (w : World σ) : Prop :=
  region.TranslatedTo window region.len.toNat w

variable {σ : Type*} {os : Os σ} {window : σ → Pointer → Option (ℤ × ℕ)}

/-- The window translates the bytes of a region to their VME addresses, in the pages of the region. -/
theorem VmeRegion.TranslatedTo.translate {region : VmeRegion} {bytes : ℕ} {w : World σ}
    (h : region.TranslatedTo window bytes w) {k : ℕ} (hk : k < bytes) :
    ∃ byte, window w.outside (region.base + BitVec.ofNat 64 k) = some (w.handle.fdVme, byte) ∧
      Vme.translate w.handle.pd.cells byte = (region.config.setWidth 14, region.vmeAddr.toNat + k) ∧
      region.startPage.toNat ≤ byte / v120PageSize ∧ byte / v120PageSize ≤ region.endPage.toNat := by
  obtain ⟨page, offset, hlow, hhigh, hoffset, haccess, hflags, hpage⟩ := h k hk
  have hlt : offset < v120PageSize := hoffset ▸ Nat.mod_lt _ (by decide)
  have hdiv : (v120PageSize * page + offset) / v120PageSize = page := by
    rw [Nat.mul_add_div (by decide), Nat.div_eq_of_lt hlt, Nat.add_zero]
  have hmod : (v120PageSize * page + offset) % v120PageSize = offset := by
    rw [Nat.mul_add_mod, Nat.mod_eq_of_lt hlt]
  refine ⟨_, haccess, ?_, ?_⟩
  · rw [Vme.translate, hdiv, hmod, hflags, hpage, hoffset, Nat.div_add_mod']
  · rw [hdiv]
    exact ⟨hlow, hhigh⟩

/-- The offset of a region in its first page. -/
theorem VmeRegion.toNat_pgoffs (region : VmeRegion) :
    region.pgoffs.toNat = region.vmeAddr.toNat % 0x4000 := by
  rw [pgoffs, BitVec.toNat_umod]
  rfl

/-- The bytes of a region are counted from its offset in the first page on. -/
theorem VmeRegion.place_base (region : VmeRegion) (base : Pointer) (pgno : BitVec 32) (k : ℕ) :
    (region.place base pgno).base + BitVec.ofNat 64 k =
      base + BitVec.ofNat 64 (region.vmeAddr.toNat % 0x4000 + k) := by
  have hoffs : BitVec.ofNat 64 (region.vmeAddr.toNat % 0x4000) = region.pgoffs := by
    rw [← region.toNat_pgoffs, BitVec.ofNat_toNat, BitVec.setWidth_eq]
  have hbase : (region.place base pgno).base = base + region.pgoffs := by
    rw [place]
    split_ifs with hzero
    · rfl
    · rw [not_not.mp hzero]
      exact (BitVec.add_zero base).symm
  rw [hbase, BitVec.ofNat_add, hoffs, BitVec.add_assoc]

/-- The descriptor in the `i`-th place of a configured range. -/
theorem storeAll_rangeStores (pd : Memory ℤ V120Pd) (startpg : ℤ) (base : BitVec 64) (config : V120Pd)
    {npages : ℤ} {i : ℕ} (hi : i < npages) :
    (pd.storeAll (rangeStores startpg base config npages)).cells (startpg + i) =
      descriptor config (pageAddr base i) := by
  refine pd.storeAll_of_mem (nodup_rangeStores startpg base config npages) ?_
  exact List.mem_map.mpr ⟨i, List.mem_range.mpr (by omega), rfl⟩

/-- The pages of a region that is not too long are those its bytes lie in. -/
theorem VmeRegion.toNat_npages {region : VmeRegion} (hshort : region.len.toNat ≤ 2 ^ 27) :
    region.npages.toNat = (region.len.toNat + region.vmeAddr.toNat % 0x4000 + 0x3fff) / 0x4000 := by
  have hoffs := region.toNat_pgoffs
  have hsum : ((region.len + region.pgoffs).setWidth 32).toNat =
      region.len.toNat + region.vmeAddr.toNat % 0x4000 := by
    rw [BitVec.toNat_setWidth, BitVec.toNat_add, hoffs]
    omega
  rw [npages, BitVec.toNat_udiv, BitVec.toNat_sub, BitVec.toNat_add, hsum]
  simp only [BitVec.reduceToNat]
  omega

variable (os) in
/-- The pointer to a region is the one `v120_get_vme` returns. -/
theorem mapRegion_fst (region : VmeRegion) (pgno : BitVec 32) (w : World σ) :
    (mapRegion os region pgno w).1 = (v120GetVme os pgno.toInt (pgno + region.npages - 1).toInt w).1 := by
  rw [mapRegion]

variable (os) in
/-- A region is mapped, and its descriptors are stored. -/
theorem mapRegion_snd (region : VmeRegion) (pgno : BitVec 32) (w : World σ) :
    (mapRegion os region pgno w).2 =
      (v120GetVme os pgno.toInt (pgno + region.npages - 1).toInt w).2.modify
        (·.setPd (w.handle.pd.storeAll
          (rangeStores pgno.toInt region.vmeAddr region.config region.npages.toInt))) := by
  have hframe := v120GetVme_frame os pgno.toInt (pgno + region.npages - 1).toInt w
  unfold mapRegion World.modify
  dsimp only
  rw [configurePdRange_eq, hframe.pd]

/-- The page of a byte, counted from the address the first descriptor is given. -/
theorem page_of_byte (addr k : ℕ) :
    (addr + (addr % 0x4000 + k) / 0x4000 * 0x4000) / 0x4000 = (addr + k) / 0x4000 := by
  rw [Nat.add_mul_div_right _ _ (by decide)]
  omega

/-- A byte counted from the start of the first page, by its page and its offset there. -/
theorem offset_in_page (addr k : ℕ) :
    addr % 0x4000 + k = 0x4000 * ((addr % 0x4000 + k) / 0x4000) + (addr + k) % 0x4000 := by
  have hmod : (addr % 0x4000 + k) % 0x4000 = (addr + k) % 0x4000 := Nat.mod_add_mod _ _ _
  rw [← hmod, Nat.div_add_mod]

/-- The pages of a region hold so many bytes, and its flags fit beside a page number. -/
structure VmeRegion.Holds (region : VmeRegion) (bytes : ℕ) : Prop where
  count : 1 ≤ region.npages.toNat
  config : region.config.toNat < 2 ^ 14
  pages : region.vmeAddr.toNat % 0x4000 + bytes ≤ 0x4000 * region.npages.toNat
  inside : region.vmeAddr.toNat + bytes ≤ 2 ^ 64

/-- What a call that mapped a region leaves. -/
structure RegionMapped (window : σ → Pointer → Option (ℤ × ℕ)) (region : VmeRegion) (bytes : ℕ)
    (pgno : BitVec 32) (base : Pointer) (w w' : World σ) : Prop where
  fits : pgno.toNat + region.npages.toNat ≤ v120PageCount
  fdVme : 0 ≤ w'.handle.fdVme
  sameFdVme : 0 ≤ w.handle.fdVme → w'.handle.fdVme = w.handle.fdVme
  mmlist : w'.handle.mmlist = ⟨base, v120PageSize * region.npages.toNat⟩ :: w.handle.mmlist
  errno : w'.errno = w.errno
  translated : (region.place base pgno).TranslatedTo window bytes w'
  elsewhere : ∀ i : ℤ, i < pgno.toNat → w'.handle.pd.cells i = w.handle.pd.cells i
  keeps : ∀ p byte, window w.outside p = some byte → window w'.outside p = some byte

/-- The list of regions has nothing to do with it. -/
theorem RegionMapped.setListHead {region : VmeRegion} {bytes : ℕ} {pgno : BitVec 32} {base : Pointer}
    {w w' : World σ} (h : RegionMapped window region bytes pgno base w w') (regions : List VmeRegion) :
    RegionMapped window region bytes pgno base w (w'.modify fun h => { h with listHead := regions }) :=
  ⟨h.fits, h.fdVme, h.sameFdVme, h.mmlist, h.errno, h.translated, h.elsewhere, h.keeps⟩

/-- There are fewer than 2^18 pages in a region, however long it is. -/
theorem VmeRegion.npages_lt (region : VmeRegion) : region.npages.toNat < 2 ^ 18 := by
  rw [npages, BitVec.toNat_udiv]
  have hlt := ((region.len + region.pgoffs).setWidth 32 + 0x4000 - 1).isLt
  exact Nat.div_lt_of_lt_mul hlt

/-- None of the page numbers of a region that takes a page is negative as an `int`. -/
theorem VmeRegion.toInt_pages {region : VmeRegion} (hpositive : 1 ≤ region.npages.toNat) {pgno : BitVec 32}
    (hpgno : pgno.toNat ≤ v120PageCount) :
    pgno.toInt = pgno.toNat ∧ region.npages.toInt = region.npages.toNat ∧
      (pgno + region.npages - 1).toNat = pgno.toNat + region.npages.toNat - 1 ∧
      (pgno + region.npages - 1).toInt = (pgno.toNat + region.npages.toNat - 1 : ℕ) := by
  have hcount : v120PageCount = 8192 := rfl
  have hfew := region.npages_lt
  have hendpage : (pgno + region.npages - 1).toNat = pgno.toNat + region.npages.toNat - 1 := by
    rw [BitVec.toNat_sub, BitVec.toNat_add]
    simp only [BitVec.reduceToNat]
    omega
  refine ⟨BitVec.toInt_eq_toNat_of_lt (by omega), BitVec.toInt_eq_toNat_of_lt (by omega), hendpage, ?_⟩
  rw [BitVec.toInt_eq_toNat_of_lt (by omega), hendpage]

/-- A regular region fits in its pages. -/
theorem VmeRegion.Regular.holds {region : VmeRegion} (h : region.Regular) : region.Holds region.len.toNat := by
  have hnpages := VmeRegion.toNat_npages h.short
  have hnonempty := h.nonempty
  exact ⟨by omega, h.config, by omega, h.inside⟩

/-- A byte of a region lies in one of its pages, and the address of this page does not wrap. -/
theorem VmeRegion.Holds.page_lt {region : VmeRegion} {bytes : ℕ} (h : region.Holds bytes) {k : ℕ}
    (hk : k < bytes) :
    (region.vmeAddr.toNat % 0x4000 + k) / 0x4000 < region.npages.toNat ∧
      region.vmeAddr.toNat % 0x4000 + k < 0x4000 * region.npages.toNat ∧
      region.vmeAddr.toNat + (region.vmeAddr.toNat % 0x4000 + k) / 0x4000 * 0x4000 < 2 ^ 64 := by
  have hpages := h.pages
  have hinside := h.inside
  omega

/-- A region whose pages were mapped, and whose descriptors were stored, is accessed under its own
addresses. -/
theorem regionMapped_of_mapped {region : VmeRegion} {bytes : ℕ} (hholds : region.Holds bytes) {pgno : BitVec 32}
    (hfits : pgno.toNat + region.npages.toNat ≤ v120PageCount) {ptr : Pointer} {w w' : World σ}
    (hmapped : Mapped window pgno.toNat region.npages.toNat ptr w w') (hframe : MapFrame w w')
    {pd : Memory ℤ V120Pd}
    (hcells : ∀ i < region.npages.toNat,
      pd.cells (pgno.toNat + i) = descriptor region.config (pageAddr region.vmeAddr i))
    (helsewhere : ∀ i : ℤ, i < pgno.toNat → pd.cells i = w.handle.pd.cells i) :
    RegionMapped window region bytes pgno ptr w (w'.modify (·.setPd pd)) := by
  have hcount : v120PageCount = 8192 := rfl
  have hstart : pgno.toNat ≤ v120PageCount := by omega
  obtain ⟨-, -, hendpage, -⟩ := VmeRegion.toInt_pages hholds.count hstart
  have hmmlist := hmapped.mmlist
  have haccess := hmapped.access
  rw [Int.toNat_natCast] at hmmlist haccess
  refine ⟨hfits, hmapped.fdVme, hframe.fdVme, hmmlist, hmapped.errno, fun k hk => ?_, helsewhere,
    hmapped.keeps⟩
  let i := (region.vmeAddr.toNat % 0x4000 + k) / 0x4000
  obtain ⟨hi, hbytes, hwrap⟩ := hholds.page_lt hk
  have hfew : (region.vmeAddr.toNat % 0x4000 + k) / 0x4000 < 2 ^ 17 := by omega
  have hcell := hcells i hi
  have haddr : (pageAddr region.vmeAddr i).toNat = region.vmeAddr.toNat + i * 0x4000 := by
    rw [toNat_pageAddr region.vmeAddr hfew, Nat.mod_eq_of_lt hwrap]
  refine ⟨pgno.toNat + i, (region.vmeAddr.toNat + k) % 0x4000, Nat.le_add_right _ _, ?_, rfl, ?_, ?_, ?_⟩
  · have hlt : i < region.npages.toNat := hi
    have hend : (region.place ptr pgno).endPage = pgno + region.npages - 1 := rfl
    rw [hend, hendpage]
    exact Nat.le_sub_one_of_lt (Nat.add_lt_add_left hlt _)
  · rw [region.place_base]
    have hbyte := haccess (region.vmeAddr.toNat % 0x4000 + k) hbytes
    have hsame : v120PageSize * (pgno.toNat : ℤ).toNat + (region.vmeAddr.toNat % 0x4000 + k) =
        v120PageSize * (pgno.toNat + i) + (region.vmeAddr.toNat + k) % 0x4000 := by
      rw [offset_in_page, ← Nat.add_assoc, Int.toNat_natCast, Nat.mul_add]
      rfl
    rw [hsame] at hbyte
    exact hbyte
  · exact (congrArg flags hcell).trans (flags_descriptor hholds.config _)
  · refine (congrArg (fun pd => (vmePage pd).toNat) hcell).trans ?_
    rw [vmePage_descriptor hholds.config, haddr]
    exact page_of_byte region.vmeAddr.toNat k

/-- A region that is mapped is accessed under its own addresses. -/
theorem mapRegion_mapped (hmaps : os.Maps window) {region : VmeRegion} {bytes : ℕ} (hholds : region.Holds bytes)
    {pgno : BitVec 32} (hpgno : pgno.toNat ≤ v120PageCount) {w : World σ}
    (h : (mapRegion os region pgno w).1 ≠ null) :
    RegionMapped window region bytes pgno (mapRegion os region pgno w).1 w
      (mapRegion os region pgno w).2 := by
  have hcount : v120PageCount = 8192 := rfl
  have hpositive := hholds.count
  obtain ⟨hpgnoInt, hnpagesInt, -, hendpageInt⟩ := VmeRegion.toInt_pages hpositive hpgno
  have horder : pgno.toInt ≤ (pgno + region.npages - 1).toInt := by omega
  rw [mapRegion_fst] at h ⊢
  rw [mapRegion_snd]
  obtain ⟨hlast, hmapped⟩ := v120GetVme_mapped hmaps horder h
  have hframe := v120GetVme_frame os pgno.toInt (pgno + region.npages - 1).toInt w
  have hpages : (pgno + region.npages - 1).toInt - pgno.toInt + 1 = region.npages.toNat := by omega
  have hfits : pgno.toNat + region.npages.toNat ≤ v120PageCount := by omega
  rw [hpages] at hmapped
  rw [hpgnoInt] at hmapped hframe ⊢
  rw [hnpagesInt]
  refine regionMapped_of_mapped hholds hfits hmapped hframe (fun i hi => ?_) fun i hi => ?_
  · exact storeAll_rangeStores w.handle.pd pgno.toNat region.vmeAddr region.config (Int.ofNat_lt.mpr hi)
  · refine w.handle.pd.storeAll_of_notMem fun hmem => ?_
    have hrange := mem_rangeStores.mp hmem
    omega

/-- What the loop over the regions leaves when it gets to the end of the list. -/
structure Placed (window : σ → Pointer → Option (ℤ × ℕ)) (pgno : ℕ) (regions regions' : List VmeRegion)
    (w w' : World σ) : Prop where
  requests : regions'.map VmeRegion.request = regions.map VmeRegion.request
  pages : ∃ stop ≤ v120PageCount, Consecutive pgno (regions'.map VmeRegion.pages) stop
  translated : ∀ region ∈ regions', region.Translated window w'
  sameFdVme : 0 ≤ w.handle.fdVme → w'.handle.fdVme = w.handle.fdVme
  elsewhere : ∀ i : ℤ, i < pgno → w'.handle.pd.cells i = w.handle.pd.cells i
  keeps : ∀ p byte, window w.outside p = some byte → window w'.outside p = some byte

/-- A region stays translated while later regions are placed. -/
theorem VmeRegion.TranslatedTo.placed {region : VmeRegion} {w w' : World σ} {pgno : ℕ}
    {regions regions' : List VmeRegion} (h : region.Translated window w) (hend : region.endPage.toNat < pgno)
    (hfdVme : 0 ≤ w.handle.fdVme) (hplaced : Placed window pgno regions regions' w w') :
    region.Translated window w' := by
  intro k hk
  obtain ⟨page, offset, hlow, hhigh, hoffset, haccess, hflags, hpage⟩ := h k hk
  have hsame := hplaced.elsewhere page (by omega)
  rw [← hsame] at hflags hpage
  rw [← hplaced.sameFdVme hfdVme] at haccess
  exact ⟨page, offset, hlow, hhigh, hoffset, hplaced.keeps _ _ haccess, hflags, hpage⟩

/-- The loop over the regions places them one behind the other. -/
theorem allocateRegions_placed (hmaps : os.Maps window) {regions : List VmeRegion}
    (hregular : ∀ region ∈ regions, region.Regular) {pgno : BitVec 32} (hpgno : pgno.toNat ≤ v120PageCount)
    (endpage : BitVec 32) (w : World σ) (h : (allocateRegions os regions pgno endpage w).1 ≠ none) :
    Placed window pgno.toNat regions (allocateRegions os regions pgno endpage w).2.1 w
      (allocateRegions os regions pgno endpage w).2.2 := by
  induction regions generalizing pgno endpage w with
  | nil =>
    exact ⟨rfl, ⟨pgno.toNat, hpgno, .nil _⟩, fun _ hmem => absurd hmem List.not_mem_nil, fun _ => rfl,
      fun _ _ => rfl, fun _ _ hp => hp⟩
  | cons head rest ih =>
    have hhead := hregular head List.mem_cons_self
    rw [allocateRegions] at h ⊢
    dsimp only at h ⊢
    split_ifs at h ⊢ with hfailed
    · exact absurd rfl h
    · have hmapped := mapRegion_mapped hmaps hhead.holds hpgno hfailed
      have hcountHead := hhead.holds.count
      obtain ⟨-, -, hendpage, -⟩ := VmeRegion.toInt_pages hcountHead hpgno
      have hcount : v120PageCount = 8192 := rfl
      have hfits := hmapped.fits
      have hnext : (pgno + head.npages).toNat = pgno.toNat + head.npages.toNat := by
        rw [BitVec.toNat_add]
        exact Nat.mod_eq_of_lt (by omega)
      have hplaced := ih (fun region hmem => hregular region (List.mem_cons_of_mem _ hmem))
        (hnext ▸ hfits) (pgno + head.npages - 1) (mapRegion os head pgno w).2 h
      rw [hnext] at hplaced
      obtain ⟨stop, hstop, hspans⟩ := hplaced.pages
      have hlast : pgno.toNat + head.npages.toNat - 1 + 1 = pgno.toNat + head.npages.toNat := by omega
      refine ⟨?_, ⟨stop, hstop, ?_⟩, ?_, fun hopen => ?_, fun i hi => ?_, fun p byte hp => ?_⟩
      · exact congrArg (List.cons head.request) hplaced.requests
      · have hspan : Consecutive pgno.toNat ((pgno.toNat, pgno.toNat + head.npages.toNat - 1) ::
            (allocateRegions os rest (pgno + head.npages) (pgno + head.npages - 1)
              (mapRegion os head pgno w).2).2.1.map VmeRegion.pages) stop :=
          .cons (by omega) (hlast.symm ▸ hspans)
        rw [← hendpage] at hspan
        exact hspan
      · refine List.forall_mem_cons.mpr ⟨?_, hplaced.translated⟩
        refine hmapped.translated.placed ?_ hmapped.fdVme hplaced
        change (pgno + head.npages - 1).toNat < pgno.toNat + head.npages.toNat
        omega
      · have hsame := hmapped.sameFdVme hopen
        exact (hplaced.sameFdVme (hsame ▸ hopen)).trans hsame
      · exact (hplaced.elsewhere i (by omega)).trans (hmapped.elsewhere i hi)
      · exact hplaced.keeps p byte (hmapped.keeps p byte hp)

/-- A list of a single region, from a page that exists on. -/
theorem v120AllocateVme_single {uninitialised startPage : BitVec 32} (hstart : startPage < 8192)
    {region : VmeRegion} {w : World σ} (hregion : w.handle.listHead = [region])
    (hret : ¬ (v120AllocateVme os uninitialised startPage w).1 < 0) :
    (mapRegion os region startPage w).1 ≠ null ∧
      (v120AllocateVme os uninitialised startPage w).2 = (mapRegion os region startPage w).2.modify
        fun h => { h with listHead := [region.place (mapRegion os region startPage w).1 startPage] } := by
  unfold v120AllocateVme at hret ⊢
  rw [if_neg (BitVec.not_le.mpr hstart), hregion, allocateRegions] at hret ⊢
  by_cases hfailed : (mapRegion os region startPage w).1 = null
  · dsimp only at hret
    rw [if_pos hfailed] at hret
    have hnegative : (-1 : ℤ) < 0 := by decide
    exact absurd hnegative hret
  · refine ⟨hfailed, ?_⟩
    dsimp only
    rw [if_neg hfailed]
    rfl

/-- What `v120_allocate_vme` promises of the list of regions: the pages of the regions follow each other
from the given page on, no two regions share a page, all pages exist, and each byte of each region is
accessed in a page of the region, with the region's flags and at the region's own VME address. -/
structure Allocated (window : σ → Pointer → Option (ℤ × ℕ)) (startPage : ℕ) (w : World σ) : Prop where
  consecutive : ∃ stop ≤ v120PageCount, Consecutive startPage (w.handle.listHead.map VmeRegion.pages) stop
  disjoint : w.handle.listHead.Pairwise fun region later =>
    region.endPage.toNat < later.startPage.toNat
  inside : ∀ region ∈ w.handle.listHead, startPage ≤ region.startPage.toNat ∧
    region.startPage.toNat ≤ region.endPage.toNat ∧ region.endPage.toNat < v120PageCount
  translated : ∀ region ∈ w.handle.listHead, region.Translated window w
  addresses : ∀ region ∈ w.handle.listHead, ∀ k < region.len.toNat, ∃ byte,
    window w.outside (region.base + BitVec.ofNat 64 k) = some (w.handle.fdVme, byte) ∧
      translate w.handle.pd.cells byte = (region.config.setWidth 14, region.vmeAddr.toNat + k)

/-- **All regions are mapped at their VME addresses at once.** Whatever list of regular regions and
whatever page `v120_allocate_vme` starts with, when it does not return -1 the regions it was given have
pages of their own, one region behind the other, and the bytes behind their bases are the bytes of the
VME bus they ask for. -/
theorem v120AllocateVme_translates (hmaps : os.Maps window) (uninitialised startPage : BitVec 32)
    (w : World σ) (hregular : ∀ region ∈ w.handle.listHead, region.Regular)
    (hret : (v120AllocateVme os uninitialised startPage w).1 ≠ -1) :
    (v120AllocateVme os uninitialised startPage w).2.handle.listHead.map VmeRegion.request =
        w.handle.listHead.map VmeRegion.request ∧
      Allocated window startPage.toNat (v120AllocateVme os uninitialised startPage w).2 := by
  unfold v120AllocateVme at hret ⊢
  by_cases hstart : startPage ≥ 8192
  · rw [if_pos hstart] at hret
    exact absurd rfl hret
  · rw [if_neg hstart] at hret ⊢
    have hlt : startPage.toNat ≤ v120PageCount := by
      have hnat := BitVec.lt_def.mp (BitVec.not_le.mp hstart)
      exact Nat.le_of_lt hnat
    have hplaced := allocateRegions_placed hmaps hregular hlt uninitialised w
    generalize allocateRegions os w.handle.listHead startPage uninitialised w = answer at hret hplaced
    obtain ⟨_ | next, regions, w'⟩ := answer
    · exact absurd rfl hret
    · have hplaced := hplaced (Option.some_ne_none next)
      obtain ⟨stop, hstop, hspans⟩ := hplaced.pages
      refine ⟨hplaced.requests, ⟨stop, hstop, hspans⟩, ?_, fun region hmem => ?_, hplaced.translated, ?_⟩
      · exact List.pairwise_map.mp hspans.pairwise
      · obtain ⟨hlow, hspan, hhigh⟩ := hspans.within region.pages (List.mem_map_of_mem hmem)
        exact ⟨hlow, hspan, Nat.lt_of_lt_of_le hhigh hstop⟩
      · intro region hmem k hk
        obtain ⟨byte, haccess, htranslate, -⟩ := (hplaced.translated region hmem).translate hk
        exact ⟨byte, haccess, htranslate⟩

/-- A handle to an open crate, with these regions in its list and nothing mapped yet. -/
def openHandle (regions : List VmeRegion) : V120Handle := ⟨regions, 3, -1, ⟨fun _ => 0, []⟩, 0x1000, 0, [], 0⟩

/-- A region that crosses a page boundary and one behind it take the last three pages. -/
theorem v120AllocateVme_translates_two :
    let regions : List VmeRegion := [⟨0, 0, 0, 0x103ff0, 0x20, 0x25⟩, ⟨0, 0, 0, 0xc000, 0x100, 0x2a⟩]
    let w : World AddressSpace := ⟨openHandle regions, 0, AddressSpace.empty⟩
    (v120AllocateVme AddressSpace.system 0 8189 w).1 = 8192 ∧
      Allocated AddressSpace.window 8189 (v120AllocateVme AddressSpace.system 0 8189 w).2 := by
  intro regions w
  have hret : (v120AllocateVme AddressSpace.system 0 8189 w).1 = 8192 := by decide +kernel
  have hregular : ∀ region ∈ w.handle.listHead, region.Regular := by
    intro region hmem
    rcases List.mem_cons.mp hmem with rfl | hmem
    · exact ⟨by decide, by decide, by decide, by decide⟩
    · obtain rfl := List.mem_singleton.mp hmem
      exact ⟨by decide, by decide, by decide, by decide⟩
  refine ⟨hret, (v120AllocateVme_translates AddressSpace.system_maps 0 8189 w hregular ?_).2⟩
  rw [hret]
  decide

end V120.Vme
