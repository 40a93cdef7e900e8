import V120.Vme.Handle
import Mathlib.Tactic.SplitIfs

/-!
# What mapping pages does

What `mmap` is documented to do with the VME device, and what follows for the calls that map pages:
they leave the page descriptors and the list of regions alone, and a pointer they return accesses the
pages asked for.
-/

namespace V120.Vme

variable {σ : Type*} {os : Os σ}

/-- What is relied on from the operating system. The window says which byte of which VME device a
pointer accesses: a successful `mmap` maps the bytes asked for, at a pointer that can be told from an
error, and no call but `munmap` takes a mapping away. -/
structure Os.Maps (os : Os σ) (window : σ → Pointer → Option (ℤ × ℕ)) : Prop where
  pointer : ∀ size fd offset s ptr, (os.mmap size fd offset s).1 = .ok ptr → ptr ≠ null ∧ ptr ≠ mapFailed
  mmap : ∀ size fd offset s ptr, (os.mmap size fd offset s).1 = .ok ptr →
    ∀ k < size, window (os.mmap size fd offset s).2 (ptr + BitVec.ofNat 64 k) = some (fd, offset + k)
  mmapKeeps : ∀ size fd offset s p byte, window s p = some byte →
    window (os.mmap size fd offset s).2 p = some byte
  mallocKeeps : ∀ s p byte, window s p = some byte → window (os.malloc s).2 p = some byte
  openKeeps : ∀ device crateno s p byte, window s p = some byte →
    window (os.openDevice device crateno s).2 p = some byte

/-- What mapping pages leaves alone. -/
structure MapFrame (w w' : World σ) : Prop where
  pd : w'.handle.pd = w.handle.pd
  listHead : w'.handle.listHead = w.handle.listHead
  crateno : w'.handle.crateno = w.handle.crateno
  fdVme : 0 ≤ w.handle.fdVme → w'.handle.fdVme = w.handle.fdVme

namespace MapFrame

/-- Nothing happened. -/
theorem refl (w : World σ) : MapFrame w w := ⟨rfl, rfl, rfl, fun _ => rfl⟩

/-- An error code. -/
theorem setErrno (w : World σ) (err : ℤ) : MapFrame w (w.setErrno err) := ⟨rfl, rfl, rfl, fun _ => rfl⟩

/-- Something happened outside. -/
theorem outside (w : World σ) (s : σ) : MapFrame w { w with outside := s } := ⟨rfl, rfl, rfl, fun _ => rfl⟩

/-- One call after the other. -/
theorem trans {w₁ w₂ w₃ : World σ} (h : MapFrame w₁ w₂) (h' : MapFrame w₂ w₃) : MapFrame w₁ w₃ where
  pd := h'.pd.trans h.pd
  listHead := h'.listHead.trans h.listHead
  crateno := h'.crateno.trans h.crateno
  fdVme hopen := by
    have hsame := h.fdVme hopen
    exact (h'.fdVme (hsame.symm ▸ hopen)).trans hsame

end MapFrame

section Calls

variable (os)

/-- `open` of the device leaves everything but the descriptor alone. -/
theorem openVme_frame (w : World σ) : MapFrame w (openVme os w).2 := by
  unfold openVme
  by_cases hopen : w.handle.fdVme < 0
  · rw [if_pos hopen, World.openDevice]
    generalize os.openDevice .vme w.handle.crateno w.outside = answer
    obtain ⟨errno | fd, outside⟩ := answer <;> dsimp only <;> split_ifs
    all_goals exact ⟨rfl, rfl, rfl, fun h => absurd hopen (Int.not_lt.mpr h)⟩
  · rw [if_neg hopen]
    exact .refl w

/-- The device is open when the call says so. -/
theorem openVme_fdVme {w : World σ} (h : (openVme os w).1 = true) : 0 ≤ (openVme os w).2.handle.fdVme := by
  unfold openVme at h ⊢
  by_cases hopen : w.handle.fdVme < 0
  · rw [if_pos hopen] at h ⊢
    dsimp only at h ⊢
    split_ifs at h ⊢ with hfd
    exact Int.not_lt.mp hfd
  · rw [if_neg hopen]
    exact Int.not_lt.mp hopen

/-- `mmap` leaves the handle alone. -/
theorem mmap_frame (size : ℕ) (fd : ℤ) (offset : ℕ) (w : World σ) :
    MapFrame w (w.mmap os size fd offset).2 := by
  unfold World.mmap
  generalize os.mmap size fd offset w.outside = answer
  obtain ⟨errno | ptr, outside⟩ := answer <;> exact ⟨rfl, rfl, rfl, fun _ => rfl⟩

/-- `v120_add_to_mm_list` leaves the pages alone. -/
theorem v120AddToMmList_frame (ptr : Pointer) (size : ℕ) (w : World σ) :
    MapFrame w (v120AddToMmList os ptr size w).2 := by
  unfold v120AddToMmList
  dsimp only
  split_ifs
  · exact ⟨rfl, rfl, rfl, fun _ => rfl⟩
  · exact ⟨rfl, rfl, rfl, fun _ => rfl⟩

/-- The item is added when there is memory for it. -/
theorem v120AddToMmList_fst (ptr : Pointer) (size : ℕ) (w : World σ) :
    (v120AddToMmList os ptr size w).1 < 0 ↔ (os.malloc w.outside).1 = false := by
  unfold v120AddToMmList
  dsimp only
  cases hgranted : (os.malloc w.outside).1 <;> simp

/-- `v120_alloc_pages` leaves the page descriptors and the regions alone. -/
theorem v120AllocPages_frame (pageno npages : ℤ) (w : World σ) :
    MapFrame w (v120AllocPages os pageno npages w).2 := by
  unfold v120AllocPages
  split_ifs with hpageno hnpages
  · exact .setErrno w _
  · exact .setErrno w _
  · have hopen := openVme_frame os w
    dsimp only
    split_ifs with hopened hfailed hfull
    · exact (hopen.trans (mmap_frame os _ _ _ _)).trans (.setErrno _ _)
    · exact ((((hopen.trans (mmap_frame os _ _ _ _)).trans (v120AddToMmList_frame os _ _ _)).trans
        (.outside _ _)).trans (.setErrno _ _))
    · exact (hopen.trans (mmap_frame os _ _ _ _)).trans (v120AddToMmList_frame os _ _ _)
    · exact hopen

/-- `v120_get_vme` leaves the page descriptors and the regions alone. -/
theorem v120GetVme_frame (startPage endPage : ℤ) (w : World σ) :
    MapFrame w (v120GetVme os startPage endPage w).2 := by
  unfold v120GetVme
  -- the pages may be given the other way round
  by_cases hswap : startPage > endPage
  · rw [if_pos hswap]
    dsimp only
    split_ifs
    · exact .setErrno w _
    · exact v120AllocPages_frame os _ _ w
  · rw [if_neg hswap]
    dsimp only
    split_ifs
    · exact .setErrno w _
    · exact v120AllocPages_frame os _ _ w

variable {os}

/-- What a call that mapped pages leaves: the arguments were in order, the device is open, and the
pointer accesses the pages. -/
structure Mapped (window : σ → Pointer → Option (ℤ × ℕ)) (pageno npages : ℤ) (ptr : Pointer) (w w' : World σ) :
    Prop where
  first : 0 ≤ pageno
  count : 0 ≤ npages
  fdVme : 0 ≤ w'.handle.fdVme
  mmlist : w'.handle.mmlist = ⟨ptr, v120PageSize * npages.toNat⟩ :: w.handle.mmlist
  errno : w'.errno = w.errno
  access : ∀ k < v120PageSize * npages.toNat, window w'.outside (ptr + BitVec.ofNat 64 k) =
    some (w'.handle.fdVme, v120PageSize * pageno.toNat + k)
  keeps : ∀ p byte, window w.outside p = some byte → window w'.outside p = some byte

/-- What a step on the way to mapped pages leaves: mappings and `errno`, and the list of mapped areas. -/
structure Kept (window : σ → Pointer → Option (ℤ × ℕ)) (w w' : World σ) : Prop where
  mmlist : w'.handle.mmlist = w.handle.mmlist
  errno : w'.errno = w.errno
  keeps : ∀ p byte, window w.outside p = some byte → window w'.outside p = some byte

variable {window : σ → Pointer → Option (ℤ × ℕ)}

/-- Opening the device takes no mapping away. -/
theorem openVme_kept (hmaps : os.Maps window) {w : World σ} (h : (openVme os w).1 = true) :
    Kept window w (openVme os w).2 := by
  unfold openVme at h ⊢
  by_cases hopen : w.handle.fdVme < 0
  · have hkept := hmaps.openKeeps .vme w.handle.crateno w.outside
    rw [if_pos hopen, World.openDevice] at h ⊢
    generalize os.openDevice .vme w.handle.crateno w.outside = answer at h hkept
    obtain ⟨errno | fd, outside⟩ := answer <;> dsimp only at h ⊢ <;> split_ifs at h ⊢ with hfd
    · exact absurd hfd (by decide)
    · exact ⟨rfl, rfl, hkept⟩
  · rw [if_neg hopen]
    exact ⟨rfl, rfl, fun _ _ hp => hp⟩

/-- A pointer from `mmap` accesses the bytes asked for. -/
theorem mmap_mapped (hmaps : os.Maps window) {size : ℕ} {fd : ℤ} {offset : ℕ} {w : World σ}
    (h : ¬ ((w.mmap os size fd offset).1 = null ∨ (w.mmap os size fd offset).1 = mapFailed)) :
    Kept window w (w.mmap os size fd offset).2 ∧
      (w.mmap os size fd offset).2.handle.fdVme = w.handle.fdVme ∧
      ∀ k < size, window (w.mmap os size fd offset).2.outside
        ((w.mmap os size fd offset).1 + BitVec.ofNat 64 k) = some (fd, offset + k) := by
  have haccess := hmaps.mmap size fd offset w.outside
  have hkeeps := hmaps.mmapKeeps size fd offset w.outside
  unfold World.mmap at h ⊢
  generalize os.mmap size fd offset w.outside = answer at h haccess hkeeps
  obtain ⟨errno | ptr, outside⟩ := answer
  · exact absurd (Or.inr rfl) h
  · exact ⟨⟨rfl, rfl, hkeeps⟩, rfl, haccess ptr rfl⟩

/-- The item for the list of mapped areas is all that is added. -/
theorem v120AddToMmList_mapped (hmaps : os.Maps window) {ptr : Pointer} {size : ℕ} {w : World σ}
    (h : ¬ (v120AddToMmList os ptr size w).1 < 0) :
    (v120AddToMmList os ptr size w).2.handle.mmlist = ⟨ptr, size⟩ :: w.handle.mmlist ∧
      (v120AddToMmList os ptr size w).2.handle.fdVme = w.handle.fdVme ∧
      (v120AddToMmList os ptr size w).2.errno = w.errno ∧
      ∀ p byte, window w.outside p = some byte →
        window (v120AddToMmList os ptr size w).2.outside p = some byte := by
  rw [v120AddToMmList_fst, Bool.not_eq_false] at h
  unfold v120AddToMmList
  dsimp only
  rw [if_pos h]
  exact ⟨rfl, rfl, rfl, hmaps.mallocKeeps w.outside⟩

/-- A pointer from `v120_alloc_pages` accesses the pages asked for. -/
theorem v120AllocPages_mapped (hmaps : os.Maps window) {pageno npages : ℤ} {w : World σ}
    (h : (v120AllocPages os pageno npages w).1 ≠ null) :
    Mapped window pageno npages (v120AllocPages os pageno npages w).1 w
      (v120AllocPages os pageno npages w).2 := by
  unfold v120AllocPages at h ⊢
  split_ifs at h ⊢ with hpageno hnpages
  · exact absurd rfl h
  · exact absurd rfl h
  · dsimp only at h ⊢
    split_ifs at h ⊢ with hopened hfailed hfull
    · exact absurd rfl h
    · exact absurd rfl h
    · have hopen := openVme_kept hmaps hopened
      obtain ⟨hmap, hfd, haccess⟩ := mmap_mapped hmaps hfailed
      obtain ⟨hlist, hfd', herrno, hkeeps⟩ := v120AddToMmList_mapped hmaps hfull
      refine ⟨Int.not_lt.mp hpageno, Int.not_lt.mp hnpages, ?_, ?_, ?_, fun k hk => ?_, fun p byte hp => ?_⟩
      · rw [hfd', hfd]
        exact openVme_fdVme os hopened
      · rw [hlist, hmap.mmlist, hopen.mmlist]
      · rw [herrno, hmap.errno, hopen.errno]
      · rw [hfd', hfd]
        exact hkeeps _ _ (haccess k hk)
      · exact hkeeps _ _ (hmap.keeps _ _ (hopen.keeps p byte hp))
    · exact absurd rfl h

/-- A pointer from `v120_get_vme` on pages in order accesses these pages, which exist. -/
theorem v120GetVme_mapped (hmaps : os.Maps window) {startPage endPage : ℤ} (horder : startPage ≤ endPage)
    {w : World σ} (h : (v120GetVme os startPage endPage w).1 ≠ null) :
    endPage < v120PageCount ∧ Mapped window startPage (endPage - startPage + 1)
      (v120GetVme os startPage endPage w).1 w (v120GetVme os startPage endPage w).2 := by
  have hcall : v120GetVme os startPage endPage w =
      if endPage ≥ v120PageCount then (null, w.setErrno einval)
      else v120AllocPages os startPage (endPage - startPage + 1) w := by
    unfold v120GetVme
    rw [if_neg (Int.not_lt.mpr horder)]
  rw [hcall] at h ⊢
  split_ifs at h ⊢ with hend
  · exact absurd rfl h
  · exact ⟨Int.not_le.mp hend, v120AllocPages_mapped hmaps h⟩

/-- A change of the handle leaves `errno` alone. -/
theorem World.modify_errno (w : World σ) (f : V120Handle → V120Handle) : (w.modify f).errno = w.errno := rfl

/-- A call of `v120_get_vme` that mapped pages left `errno` alone. -/
theorem v120GetVme_errno (hmaps : os.Maps window) {startPage endPage : ℤ} {w : World σ}
    (h : (v120GetVme os startPage endPage w).1 ≠ null) :
    (v120GetVme os startPage endPage w).2.errno = w.errno := by
  unfold v120GetVme at h ⊢
  generalize (if startPage > endPage then (endPage, startPage) else (startPage, endPage)) = pages at h ⊢
  dsimp only at h ⊢
  split_ifs at h ⊢
  · exact absurd rfl h
  · exact (v120AllocPages_mapped hmaps h).errno

variable (os) in
/-- The calls for a region, one behind the other. -/
theorem mapRegion_eq (region : VmeRegion) (pgno : BitVec 32) (w : World σ) :
    mapRegion os region pgno w =
      ((v120GetVme os pgno.toInt (pgno + region.npages - 1).toInt w).1,
        (v120GetVme os pgno.toInt (pgno + region.npages - 1).toInt w).2.modify
          (·.configurePdRange pgno.toInt region.vmeAddr region.config region.npages.toInt)) := rfl

/-- A region that was mapped left `errno` alone. -/
theorem mapRegion_errno (hmaps : os.Maps window) {region : VmeRegion} {pgno : BitVec 32} {w : World σ}
    (h : (mapRegion os region pgno w).1 ≠ null) : (mapRegion os region pgno w).2.errno = w.errno := by
  rw [mapRegion_eq] at h ⊢
  rw [World.modify_errno]
  exact v120GetVme_errno hmaps h

end Calls

/-- An address space that grows upwards: nothing is mapped from `next` on. -/
structure AddressSpace where
  next : ℕ
  window : Pointer → Option (ℤ × ℕ)
  positive : 0 < next
  free : ∀ p, next ≤ p.toNat → window p = none

namespace AddressSpace

/-- Nothing is mapped; the first page stays free. -/
def empty : AddressSpace := ⟨0x1000, fun _ => none, by decide, fun _ _ => rfl⟩

/-- Map the next addresses, if there are enough of them. -/
def map (space : AddressSpace) (size : ℕ) (fd : ℤ) (offset : ℕ) : Except Errno Pointer × AddressSpace :=
  if space.next + size < 2 ^ 64 - 1 then
    (.ok (BitVec.ofNat 64 space.next),
      { next := space.next + size
        window := fun p =>
          if space.next ≤ p.toNat ∧ p.toNat < space.next + size then
            some (fd, offset + (p.toNat - space.next))
          else space.window p
        positive := Nat.add_pos_left space.positive size
        free := fun p hp => by
          rw [if_neg (by omega)]
          exact space.free p (by omega) })
  else (.error ⟨enomem, by decide⟩, space)

/-- An operating system that opens every device and grants memory while there is some. -/
def system : Os AddressSpace where
  openDevice _ _ space := (.ok 7, space)
  mmap size fd offset space := space.map size fd offset
  malloc space := (true, space)
  munmap _ _ space := space
  close _ space := space
  controlMap _ _ _ := 0

/-- What is mapped is mapped at the next address, and there are enough of them. -/
theorem map_ok {space : AddressSpace} {size : ℕ} {fd : ℤ} {offset : ℕ} {ptr : Pointer}
    (h : (space.map size fd offset).1 = .ok ptr) :
    space.next + size < 2 ^ 64 - 1 ∧ ptr = BitVec.ofNat 64 space.next := by
  unfold map at h
  split_ifs at h with hroom
  exact ⟨hroom, (Except.ok.inj h).symm⟩

/-- The system maps as documented. -/
theorem system_maps : system.Maps AddressSpace.window where
  pointer size fd offset space ptr hmapped := by
    obtain ⟨hroom, rfl⟩ := map_ok hmapped
    have hpositive := space.positive
    have hnat : (BitVec.ofNat 64 space.next).toNat = space.next := by
      rw [BitVec.toNat_ofNat]
      exact Nat.mod_eq_of_lt (by omega)
    constructor
    · intro hnull
      have hzero : space.next = 0 := hnat.symm.trans (congrArg BitVec.toNat hnull)
      omega
    · intro hfailed
      have hlast : space.next = 2 ^ 64 - 1 := hnat.symm.trans (congrArg BitVec.toNat hfailed)
      omega
  mmap size fd offset space ptr hmapped k hk := by
    obtain ⟨hroom, rfl⟩ := map_ok hmapped
    have hpointer : (BitVec.ofNat 64 space.next + BitVec.ofNat 64 k).toNat = space.next + k := by
      rw [← BitVec.ofNat_add, BitVec.toNat_ofNat]
      exact Nat.mod_eq_of_lt (by omega)
    change (space.map size fd offset).2.window _ = _
    rw [map, if_pos hroom]
    dsimp only
    rw [hpointer, if_pos ⟨Nat.le_add_right _ _, by omega⟩, Nat.add_sub_cancel_left]
  mmapKeeps size fd offset space p byte hp := by
    change (space.map size fd offset).2.window p = _
    rw [map]
    split_ifs with hroom
    · have hbelow : ¬ space.next ≤ p.toNat := fun hfree => by
        rw [space.free p hfree] at hp
        exact absurd hp (Option.some_ne_none byte).symm
      dsimp only
      rw [if_neg fun h => hbelow h.1]
      exact hp
    · exact hp
  mallocKeeps _ _ _ hp := hp
  openKeeps _ _ _ _ _ hp := hp

end AddressSpace

end V120.Vme
