import V120.Common.Memory
import Mathlib.Algebra.BigOperators.Ring.Finset

/-!
# The handle of `V120.c` and its VME pages

The functions of the library that open a crate, map its pages and write its page descriptors, on a
world: the handle, `errno` and everything outside the process. The operating system answers each call
in whatever way it likes; what is promised of `mmap` is stated where it is used. The page descriptors
are the first words of the control map, and the words behind them are configuration registers, so the
index of a descriptor is any integer and a write to it is remembered.

An `int` is an integer: the few sums and products that could leave its range are of values that were
checked, except for the offset of a page in `v120_configure_pd_range`, which wraps.
-/

namespace V120.Vme

open V120.Common

/-- `V120_PAGE_SIZE`. -/
def v120PageSize : ℕ := 0x4000

/-- `V120_PAGE_COUNT`. -/
def v120PageCount : ℕ := 8192

/-- A nonzero `errno`, as a failing system call leaves it. -/
abbrev Errno := { code : ℤ // 0 < code }

/-- `ENOMEM`. -/
def enomem : ℤ := 12
/-- `EINVAL`. -/
def einval : ℤ := 22
/-- `EBADFD`. -/
def ebadfd : ℤ := 77

theorem enomem_pos : 0 < enomem := by decide

/-- A pointer. -/
abbrev Pointer := BitVec 64

/-- `NULL`. -/
def null : Pointer := 0

/-- `MAP_FAILED`. -/
def mapFailed : Pointer := -1

/-- `V120_PD`: the low 14 bits are flags, the others the number of a VME page. -/
abbrev V120Pd := BitVec 64

/-- `struct VME_REGION`, without the fields for its user. -/
structure VmeRegion where
  base : Pointer
  startPage : BitVec 32
  endPage : BitVec 32
  vmeAddr : BitVec 64
  len : BitVec 64
  config : V120Pd

/-- An item of `vme_mmlist_t`. -/
structure VmeMmlist where
  ptr : Pointer
  size : ℕ

/-- `struct V120_HANDLE`, as far as the VME pages go. The list of regions follows the `next` pointers. -/
structure V120Handle where
  listHead : List VmeRegion
  fdCtrl : ℤ
  fdVme : ℤ
  pd : Memory ℤ V120Pd
  mapptr : Pointer
  errnum : ℤ
  mmlist : List VmeMmlist
  crateno : ℤ

/-- The devices of a crate: `sDEVNAME_CTRL` and `sDEVNAME_VME`. -/
inductive Device where
  | ctrl
  | vme
  deriving DecidableEq

/-- What the operating system answers, in a state of its own: a descriptor, a pointer, whether memory is
granted, and what the words of a control map hold. -/
structure Os (σ : Type*) where
  openDevice : Device → ℤ → σ → Except Errno ℕ × σ
  mmap : ℕ → ℤ → ℕ → σ → Except Errno Pointer × σ
  malloc : σ → Bool × σ
  munmap : Pointer → ℕ → σ → σ
  close : ℤ → σ → σ
  controlMap : Pointer → σ → ℤ → V120Pd

/-- The handle, `errno` and the outside. -/
structure World (σ : Type*) where
  handle : V120Handle
  errno : ℤ
  outside : σ

/-- Add a region to the list, `v120_add_vme_region`. -/
def V120Handle.addVmeRegion (h : V120Handle) (region : VmeRegion) : V120Handle :=
  { h with listHead := region :: h.listHead }

/-- Replace the control map. -/
def V120Handle.setPd (h : V120Handle) (pd : Memory ℤ V120Pd) : V120Handle := { h with pd := pd }

/-- The descriptor of a page at a VME address. -/
def descriptor (config : V120Pd) (base : BitVec 64) : V120Pd := config ||| ((base / 0x4000) <<< 14)

/-- `v120_configure_pd`. -/
def V120Handle.configurePd (h : V120Handle) (pageno : ℤ) (base : BitVec 64) (config : V120Pd) : V120Handle :=
  h.setPd (h.pd.store pageno (descriptor config base))

/-- The VME address `v120_configure_pd_range` gives the page `i` places behind its first one; the
product is one of `int`s. -/
def pageAddr (base : BitVec 64) (i : ℕ) : BitVec 64 :=
  base + (BitVec.ofNat 32 i * 0x4000).signExtend 64

/-- `v120_configure_pd_range`. -/
def V120Handle.configurePdRange (h : V120Handle) (startpg : ℤ) (base : BitVec 64) (config : V120Pd)
    (npages : ℤ) : V120Handle :=
  (List.range npages.toNat).foldl (fun h (i : ℕ) => h.configurePd (startpg + i) (pageAddr base i) config) h

section Calls

variable {σ : Type*} (os : Os σ)

namespace World

/-- `v120_set_errno`. -/
def setErrno (w : World σ) (err : ℤ) : World σ :=
  { w with handle := { w.handle with errnum := err }, errno := err }

/-- Change the handle. -/
def modify (w : World σ) (f : V120Handle → V120Handle) : World σ := { w with handle := f w.handle }

/-- `v120_open_device`, which leaves `errno` as `open` does. -/
def openDevice (filename : Device) (crateno : ℤ) (w : World σ) : ℤ × World σ :=
  match os.openDevice filename crateno w.outside with
  | (.ok fd, outside) => (fd, { w with outside := outside })
  | (.error errno, outside) => (-1, { w with outside := outside, errno := errno })

/-- `mmap`, which leaves `errno` alone unless it fails. -/
def mmap (size : ℕ) (fd : ℤ) (offset : ℕ) (w : World σ) : Pointer × World σ :=
  match os.mmap size fd offset w.outside with
  | (.ok ptr, outside) => (ptr, { w with outside := outside })
  | (.error errno, outside) => (mapFailed, { w with outside := outside, errno := errno })

end World

/-- `v120_add_to_mm_list`: nonzero when there is no memory for the item. -/
def v120AddToMmList (ptr : Pointer) (size : ℕ) (w : World σ) : ℤ × World σ :=
  let (granted, outside) := os.malloc w.outside
  let w := { w with outside := outside }
  if granted then (0, w.modify fun h => { h with mmlist := ⟨ptr, size⟩ :: h.mmlist })
  else (-1, w.setErrno enomem)

/-- Open the VME device unless it is open, as `v120_alloc_pages` starts. -/
def openVme (w : World σ) : Bool × World σ :=
  if w.handle.fdVme < 0 then
    let (fd, w) := w.openDevice os .vme w.handle.crateno
    let w := w.modify fun h => { h with fdVme := fd }
    if fd < 0 then (false, w.setErrno ebadfd) else (true, w)
  else (true, w)

/-- `v120_alloc_pages`. -/
def v120AllocPages (pageno npages : ℤ) (w : World σ) : Pointer × World σ :=
  if pageno < 0 then (null, w.setErrno einval)
  else if npages < 0 then (null, w.setErrno einval)
  else
    let size := v120PageSize * npages.toNat
    let (opened, w) := openVme os w
    if opened then
      let (ptr, w) := w.mmap os size w.handle.fdVme (v120PageSize * pageno.toNat)
      if ptr = null ∨ ptr = mapFailed then (null, w.setErrno enomem)
      else
        let (ret, w) := v120AddToMmList os ptr size w
        if ret < 0 then
          (null, { w with outside := os.munmap ptr size w.outside }.setErrno enomem)
        else (ptr, w)
    else (null, w)

/-- `v120_get_vme`. -/
def v120GetVme (startPage endPage : ℤ) (w : World σ) : Pointer × World σ :=
  let (startPage, endPage) := if startPage > endPage then (endPage, startPage) else (startPage, endPage)
  if endPage ≥ v120PageCount then (null, w.setErrno einval)
  else v120AllocPages os startPage (endPage - startPage + 1) w

/-- `v120_configure_page`. -/
def v120ConfigurePage (idx : ℤ) (base : BitVec 64) (config : V120Pd) (w : World σ) : Pointer × World σ :=
  if idx ≥ v120PageCount ∨ base % 0x4000 ≠ 0 then (null, w.setErrno einval)
  else v120AllocPages os idx 1 (w.modify (·.configurePd idx base config))

/-- `pgoffs` of a region. -/
def VmeRegion.pgoffs (region : VmeRegion) : BitVec 64 := region.vmeAddr % 0x4000

/-- `npages` of a region, in `unsigned int`. -/
def VmeRegion.npages (region : VmeRegion) : BitVec 32 :=
  ((region.len + region.pgoffs).setWidth 32 + 0x4000 - 1) / 0x4000

/-- The fields `v120_allocate_vme` sets in a region whose pages from `pgno` on are mapped at `base`. -/
def VmeRegion.place (region : VmeRegion) (base : Pointer) (pgno : BitVec 32) : VmeRegion :=
  { region with
    base := if region.pgoffs ≠ 0 then base + region.pgoffs else base
    startPage := pgno
    endPage := pgno + region.npages - 1 }

/-- The calls `v120_allocate_vme` makes for a region: its pages are mapped, and then configured whether
or not they were. -/
def mapRegion (region : VmeRegion) (pgno : BitVec 32) (w : World σ) : Pointer × World σ :=
  let endpage := pgno + region.npages - 1
  let mapped := v120GetVme os pgno.toInt endpage.toInt w
  (mapped.1,
    mapped.2.modify (·.configurePdRange pgno.toInt region.vmeAddr region.config region.npages.toInt))

/-- The loop of `v120_allocate_vme` over the regions from `head` on: one past the last `endpage`,
unless a region could not be mapped, and the regions as they are left. -/
def allocateRegions : List VmeRegion → BitVec 32 → BitVec 32 → World σ →
    Option (BitVec 32) × List VmeRegion × World σ
  | [], _, endpage, w => (some (endpage + 1), [], w)
  | head :: rest, pgno, _, w =>
    let mapped := mapRegion os head pgno w
    if mapped.1 = null then (none, { head with base := mapped.1 } :: rest, mapped.2)
    else
      let placed := allocateRegions rest (pgno + head.npages) (pgno + head.npages - 1) mapped.2
      (placed.1, head.place mapped.1 pgno :: placed.2.1, placed.2.2)

/-- `v120_allocate_vme`. With no region in the list it returns what its local `endpage` happened to
hold, plus one. -/
def v120AllocateVme (uninitialised startPage : BitVec 32) (w : World σ) : ℤ × World σ :=
  if startPage ≥ 8192 then (-1, w.setErrno einval)
  else
    let (ret, regions, w) := allocateRegions os w.handle.listHead startPage uninitialised w
    let w := w.modify fun h => { h with listHead := regions }
    match ret with
    | none => (-1, w)
    | some next => (next.toInt, w)

end Calls

end V120.Vme
