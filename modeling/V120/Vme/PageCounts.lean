import V120.Vme.Translation
import Mathlib.Algebra.Order.Floor.Div

/-!
# How many pages a region takes

`v120_allocate_vme` counts the pages of a region in `unsigned int`, although a length is a `size_t`. The
count is exact while the sum of the length, the offset in the first page and a page less one stays below
2^32. A region that is counted as having no page is still mapped: its last page lies before its first
one, and `v120_get_vme` exchanges the two.
-/

namespace V120.Vme

open V120.Common

/-- The bytes of a region, counted from the start of its first page. -/
def VmeRegion.extent (region : VmeRegion) : ℕ := region.vmeAddr.toNat % v120PageSize + region.len.toNat

/-- The pages of a region as `unsigned int` counts them. -/
def VmeRegion.counted (region : VmeRegion) : ℕ :=
  (region.extent + (v120PageSize - 1)) % 2 ^ 32 / v120PageSize

/-- The extent of a region is neither empty nor too long to be rounded up in `unsigned int`. -/
def VmeRegion.Countable (region : VmeRegion) : Prop :=
  1 ≤ region.extent ∧ region.extent + (v120PageSize - 1) < 2 ^ 32

/-- The pages that are counted for a region exist from a page on; a region that is counted as having none
is between two pages. -/
def VmeRegion.FitsAt (region : VmeRegion) (pgno : ℕ) : Prop :=
  pgno + region.counted ≤ v120PageCount ∧ (region.counted = 0 → pgno ≠ 0 ∧ pgno ≠ v120PageCount)

/-- The pages that are counted for the regions of a list exist from a page on. -/
def Fits : ℕ → List VmeRegion → Prop
  | _, [] => True
  | pgno, region :: rest => region.FitsAt pgno ∧ Fits (pgno + region.counted) rest

/-- A region lies in its pages: there are as many as its bytes need, they exist, and its base is the first
of its bytes in the first of its pages. -/
structure VmeRegion.Covered {σ : Type*} (window : σ → Pointer → Option (ℤ × ℕ)) (region : VmeRegion)
    (w : World σ) : Prop where
  counted : region.npages.toNat = (region.vmeAddr.toNat % v120PageSize + region.len.toNat) ⌈/⌉ v120PageSize
  pages : region.endPage.toNat + 1 = region.startPage.toNat + region.npages.toNat
  exist : region.endPage.toNat < v120PageCount
  base : window w.outside region.base =
    some (w.handle.fdVme, v120PageSize * region.startPage.toNat + region.vmeAddr.toNat % v120PageSize)
  bytes : ∀ k < region.len.toNat, ∃ byte,
    window w.outside (region.base + BitVec.ofNat 64 k) = some (w.handle.fdVme, byte) ∧
      byte = v120PageSize * region.startPage.toNat + region.vmeAddr.toNat % v120PageSize + k ∧
      byte / v120PageSize ≤ region.endPage.toNat

/-- All regions a call was given lie in their pages. -/
structure AllCovered {σ : Type*} (window : σ → Pointer → Option (ℤ × ℕ)) (regions : List VmeRegion)
    (w : World σ) : Prop where
  requests : w.handle.listHead.map VmeRegion.request = regions.map VmeRegion.request
  covered : ∀ region ∈ w.handle.listHead, region.Covered window w

/-- The first page from a page on that no region of a list takes. -/
def FirstUnused (startPage : ℕ) (regions : List VmeRegion) (page : ℕ) : Prop :=
  IsLeast {page | startPage ≤ page ∧
    ¬ ∃ region ∈ regions, region.startPage.toNat ≤ page ∧ page ≤ region.endPage.toNat} page

/-- A call returns what it is documented to: the first page it leaves unused if there is one, and zero if
all pages are used. -/
def ReturnsFirstUnused (startPage : ℕ) (ret : ℤ) (regions : List VmeRegion) : Prop :=
  ∃ page, FirstUnused startPage regions page ∧ ret = if page < v120PageCount then (page : ℤ) else 0

/-- `npages` is the number of pages counted for a region. -/
theorem VmeRegion.toNat_npages_eq (region : VmeRegion) : region.npages.toNat = region.counted := by
  have hoffs := region.toNat_pgoffs
  have hsum : ((region.len + region.pgoffs).setWidth 32).toNat = region.extent % 2 ^ 32 := by
    rw [BitVec.toNat_setWidth, BitVec.toNat_add, hoffs, extent, v120PageSize]
    omega
  rw [npages, BitVec.toNat_udiv, BitVec.toNat_sub, BitVec.toNat_add, hsum, counted, v120PageSize]
  simp only [BitVec.reduceToNat]
  omega

/-- The count is exact, and not zero, for the regions that can be counted. -/
theorem VmeRegion.Countable.counted_eq {region : VmeRegion} (h : region.Countable) :
    region.counted = region.extent ⌈/⌉ v120PageSize ∧ 1 ≤ region.counted := by
  obtain ⟨hnonempty, hshort⟩ := h
  rw [Nat.ceilDiv_eq_add_pred_div, counted, Nat.mod_eq_of_lt hshort, v120PageSize]
  exact ⟨by omega, by omega⟩

/-- A count that is exact and not zero is the count of a region that can be counted. -/
theorem VmeRegion.countable_of_counted {region : VmeRegion}
    (h : region.counted = region.extent ⌈/⌉ v120PageSize) (hpositive : 1 ≤ region.counted) :
    region.Countable := by
  have hlt : region.counted < 2 ^ 18 := region.toNat_npages_eq ▸ region.npages_lt
  rw [Nat.ceilDiv_eq_add_pred_div] at h
  simp only [Countable, v120PageSize] at h ⊢
  omega

variable {σ : Type*} {os : Os σ} {window : σ → Pointer → Option (ℤ × ℕ)}

/-- The pages of a region as the `int`s `v120_get_vme` is given. -/
theorem VmeRegion.toInt_counted (region : VmeRegion) {pgno : BitVec 32}
    (hpgno : pgno.toNat ≤ v120PageCount) :
    pgno.toInt = pgno.toNat ∧
      (pgno + region.npages - 1).toInt = (pgno.toNat + region.counted : ℤ) - 1 := by
  have hcount : v120PageCount = 8192 := rfl
  have hfew := region.npages_lt
  have hcounted := region.toNat_npages_eq
  have hendpage :
      (pgno + region.npages - 1).toNat = (pgno.toNat + region.counted + (2 ^ 32 - 1)) % 2 ^ 32 := by
    rw [BitVec.toNat_sub, BitVec.toNat_add, hcounted]
    simp only [BitVec.reduceToNat]
    omega
  refine ⟨BitVec.toInt_eq_toNat_of_lt (by omega), ?_⟩
  rw [BitVec.toInt_eq_toNat_cond, hendpage]
  split_ifs
  · omega
  · omega

/-- The pages that are mapped for a region: those it takes, or the two it lies between. -/
def VmeRegion.mappedFrom (region : VmeRegion) (pgno : ℕ) : ℕ :=
  if region.counted = 0 then pgno - 1 else pgno

/-- How many these are. -/
def VmeRegion.mappedPages (region : VmeRegion) : ℕ := if region.counted = 0 then 2 else region.counted

/-- `v120_get_vme` allocates the pages from the lower one of its arguments to the other. -/
theorem v120GetVme_eq (startPage endPage : ℤ) (w : World σ) :
    v120GetVme os startPage endPage w =
      if max startPage endPage ≥ v120PageCount then (null, w.setErrno einval)
      else
        v120AllocPages os (min startPage endPage) (max startPage endPage - min startPage endPage + 1) w := by
  unfold v120GetVme
  by_cases hswap : startPage > endPage
  · rw [if_pos hswap, Int.min_eq_right (Int.le_of_lt hswap), Int.max_eq_left (Int.le_of_lt hswap)]
  · rw [if_neg hswap, Int.min_eq_left (Int.not_lt.mp hswap), Int.max_eq_right (Int.not_lt.mp hswap)]

/-- A pointer from `v120_get_vme` is for pages that exist. -/
theorem v120GetVme_exist {startPage endPage : ℤ} {w : World σ}
    (h : (v120GetVme os startPage endPage w).1 ≠ null) :
    0 ≤ min startPage endPage ∧ max startPage endPage < v120PageCount := by
  rw [v120GetVme_eq] at h
  split_ifs at h with hlast
  · exact absurd rfl h
  · refine ⟨Int.not_lt.mp fun hfirst => ?_, Int.not_le.mp hlast⟩
    rw [v120AllocPages, if_pos hfirst] at h
    exact absurd rfl h

/-- The pages that are counted for a region that was mapped exist. -/
theorem mapRegion_fits {region : VmeRegion} {pgno : BitVec 32} (hpgno : pgno.toNat ≤ v120PageCount)
    {w : World σ} (h : (mapRegion os region pgno w).1 ≠ null) : region.FitsAt pgno.toNat := by
  obtain ⟨hpgnoInt, hendpageInt⟩ := region.toInt_counted hpgno
  rw [mapRegion_fst] at h
  obtain ⟨hfirst, hlast⟩ := v120GetVme_exist h
  exact ⟨by omega, by omega⟩

/-- A region that was mapped is accessed from the first of the pages that were mapped for it on. -/
theorem mapRegion_accessed (hmaps : os.Maps window) {region : VmeRegion} {pgno : BitVec 32}
    (hpgno : pgno.toNat ≤ v120PageCount) {w : World σ} (h : (mapRegion os region pgno w).1 ≠ null) :
    Mapped window (region.mappedFrom pgno.toNat) region.mappedPages (mapRegion os region pgno w).1 w
      (v120GetVme os pgno.toInt (pgno + region.npages - 1).toInt w).2 := by
  obtain ⟨hpgnoInt, hendpageInt⟩ := region.toInt_counted hpgno
  rw [mapRegion_fst] at h ⊢
  obtain ⟨hpageno, hlast⟩ := v120GetVme_exist h
  rw [v120GetVme_eq, if_neg (Int.not_le.mpr hlast)] at h ⊢
  have hmapped := v120AllocPages_mapped hmaps h
  have hfirst : min pgno.toInt (pgno + region.npages - 1).toInt = region.mappedFrom pgno.toNat := by
    rw [VmeRegion.mappedFrom]
    split_ifs <;> omega
  have hpages : max pgno.toInt (pgno + region.npages - 1).toInt -
      min pgno.toInt (pgno + region.npages - 1).toInt + 1 = region.mappedPages := by
    rw [VmeRegion.mappedPages]
    split_ifs <;> omega
  rw [hpages, hfirst] at hmapped ⊢
  exact hmapped

/-- Behind a region that fits there are pages for the rest of the list. -/
theorem VmeRegion.FitsAt.next {region : VmeRegion} {pgno : BitVec 32} (hpgno : pgno.toNat ≤ v120PageCount)
    (h : region.FitsAt pgno.toNat) :
    (pgno + region.npages).toNat = pgno.toNat + region.counted ∧
      pgno.toNat + region.counted ≤ v120PageCount ∧
      (pgno + region.npages - 1).toNat + 1 = pgno.toNat + region.counted := by
  have hcount : v120PageCount = 8192 := rfl
  have hcounted := region.toNat_npages_eq
  obtain ⟨hroom, hbetween⟩ := h
  have hnext : (pgno + region.npages).toNat = pgno.toNat + region.counted := by
    rw [BitVec.toNat_add, hcounted]
    exact Nat.mod_eq_of_lt (by omega)
  refine ⟨hnext, hroom, ?_⟩
  rw [BitVec.toNat_sub, hnext]
  simp only [BitVec.reduceToNat]
  omega

/-- A region that was placed is accessed through its base, from the first of the pages that were mapped for
it on. -/
structure VmeRegion.Landed (window : σ → Pointer → Option (ℤ × ℕ)) (region : VmeRegion)
    (w : World σ) : Prop where
  fits : region.FitsAt region.startPage.toNat
  pages : region.endPage.toNat + 1 = region.startPage.toNat + region.counted
  fdVme : 0 ≤ w.handle.fdVme
  access : ∀ k, region.vmeAddr.toNat % v120PageSize + k < v120PageSize * region.mappedPages →
    window w.outside (region.base + BitVec.ofNat 64 k) = some (w.handle.fdVme,
      v120PageSize * region.mappedFrom region.startPage.toNat + region.vmeAddr.toNat % v120PageSize + k)

/-- What later steps of the loop leave of the regions before. -/
structure Retained (window : σ → Pointer → Option (ℤ × ℕ)) (w w' : World σ) : Prop where
  sameFdVme : 0 ≤ w.handle.fdVme → w'.handle.fdVme = w.handle.fdVme
  keeps : ∀ p byte, window w.outside p = some byte → window w'.outside p = some byte

/-- A region stays accessed. -/
theorem VmeRegion.Landed.retained {region : VmeRegion} {w w' : World σ} (h : region.Landed window w)
    (hretained : Retained window w w') : region.Landed window w' := by
  have hsame := hretained.sameFdVme h.fdVme
  refine ⟨h.fits, h.pages, hsame ▸ h.fdVme, fun k hk => ?_⟩
  rw [hsame]
  exact hretained.keeps _ _ (h.access k hk)

/-- The page descriptors have nothing to do with it. -/
theorem VmeRegion.Landed.setPd {region : VmeRegion} {w : World σ} (h : region.Landed window w)
    (pd : Memory ℤ V120Pd) : region.Landed window (w.modify (·.setPd pd)) :=
  ⟨h.fits, h.pages, h.fdVme, h.access⟩

/-- The list of regions has nothing to do with where a region landed. -/
theorem VmeRegion.Landed.setListHead {region : VmeRegion} {w : World σ} (h : region.Landed window w)
    (regions : List VmeRegion) : region.Landed window (w.modify fun h => { h with listHead := regions }) :=
  ⟨h.fits, h.pages, h.fdVme, h.access⟩

/-- The page descriptors have nothing to do with what is accessed. -/
theorem Retained.setPd {w w' : World σ} (h : Retained window w w') (pd : Memory ℤ V120Pd) :
    Retained window w (w'.modify (·.setPd pd)) :=
  ⟨h.sameFdVme, h.keeps⟩

/-- A region that was mapped has landed, and what was mapped before stays. -/
theorem mapRegion_landed (hmaps : os.Maps window) {region : VmeRegion} {pgno : BitVec 32}
    (hpgno : pgno.toNat ≤ v120PageCount) {w : World σ} (h : (mapRegion os region pgno w).1 ≠ null) :
    (region.place (mapRegion os region pgno w).1 pgno).Landed window (mapRegion os region pgno w).2 ∧
      Retained window w (mapRegion os region pgno w).2 := by
  have hfits := mapRegion_fits hpgno h
  have hmapped := mapRegion_accessed hmaps hpgno h
  have hframe := v120GetVme_frame os pgno.toInt (pgno + region.npages - 1).toInt w
  have haccess := hmapped.access
  rw [Int.toNat_natCast, Int.toNat_natCast] at haccess
  have hlanded : (region.place (mapRegion os region pgno w).1 pgno).Landed window
      (v120GetVme os pgno.toInt (pgno + region.npages - 1).toInt w).2 := by
    refine ⟨hfits, (hfits.next hpgno).2.2, hmapped.fdVme, fun k hk => ?_⟩
    rw [region.place_base, Nat.add_assoc]
    exact haccess _ hk
  have hretained : Retained window w (v120GetVme os pgno.toInt (pgno + region.npages - 1).toInt w).2 :=
    ⟨hframe.fdVme, hmapped.keeps⟩
  rw [mapRegion_snd]
  exact ⟨hlanded.setPd _, hretained.setPd _⟩

/-- The loop goes on behind a region that was mapped. -/
theorem allocateRegions_mapped {head : VmeRegion} (rest : List VmeRegion) {pgno : BitVec 32}
    (endpage : BitVec 32) {w : World σ} (h : (mapRegion os head pgno w).1 ≠ null) :
    allocateRegions os (head :: rest) pgno endpage w =
      let placed :=
        allocateRegions os rest (pgno + head.npages) (pgno + head.npages - 1) (mapRegion os head pgno w).2
      (placed.1, head.place (mapRegion os head pgno w).1 pgno :: placed.2.1, placed.2.2) := by
  rw [allocateRegions]
  exact if_neg h

/-- The loop stops at a region that was not mapped. -/
theorem allocateRegions_failed {head : VmeRegion} (rest : List VmeRegion) {pgno : BitVec 32}
    (endpage : BitVec 32) {w : World σ} (h : (mapRegion os head pgno w).1 = null) :
    (allocateRegions os (head :: rest) pgno endpage w).1 = none := by
  rw [allocateRegions]
  exact congrArg Prod.fst (if_pos h)

/-- The pages that are counted for the regions exist when the loop gets to the end of the list. -/
theorem allocateRegions_fits {regions : List VmeRegion} {pgno : BitVec 32}
    (hpgno : pgno.toNat ≤ v120PageCount)
    (endpage : BitVec 32) (w : World σ) (h : (allocateRegions os regions pgno endpage w).1 ≠ none) :
    Fits pgno.toNat regions := by
  induction regions generalizing pgno endpage w with
  | nil => trivial
  | cons head rest ih =>
    by_cases hmapped : (mapRegion os head pgno w).1 = null
    · exact absurd (allocateRegions_failed rest endpage hmapped) h
    · rw [allocateRegions_mapped rest endpage hmapped] at h
      have hfits := mapRegion_fits hpgno hmapped
      obtain ⟨hnext, hroom, -⟩ := hfits.next hpgno
      have hrest := ih (hnext ▸ hroom) (pgno + head.npages - 1) (mapRegion os head pgno w).2 h
      exact ⟨hfits, hnext ▸ hrest⟩

/-- The page behind the last one that is counted, when the loop gets to the end of the list. -/
theorem allocateRegions_next {regions : List VmeRegion} {pgno endpage : BitVec 32}
    (hpgno : pgno.toNat ≤ v120PageCount) (hendpage : endpage + 1 = pgno) {w : World σ} {next : BitVec 32}
    (h : (allocateRegions os regions pgno endpage w).1 = some next) :
    next.toNat = pgno.toNat + (regions.map VmeRegion.counted).sum ∧ next.toNat ≤ v120PageCount := by
  induction regions generalizing pgno endpage w with
  | nil =>
    obtain rfl := Option.some.inj h
    rw [hendpage]
    exact ⟨rfl, hpgno⟩
  | cons head rest ih =>
    by_cases hmapped : (mapRegion os head pgno w).1 = null
    · rw [allocateRegions_failed rest endpage hmapped] at h
      exact absurd h (Option.some_ne_none next).symm
    · rw [allocateRegions_mapped rest endpage hmapped] at h
      obtain ⟨hnext, hroom, -⟩ := (mapRegion_fits hpgno hmapped).next hpgno
      obtain ⟨hsum, hlast⟩ := ih (hnext ▸ hroom) (BitVec.sub_add_cancel _ _) h
      refine ⟨?_, hlast⟩
      rw [hsum, hnext, List.map_cons, List.sum_cons, Nat.add_assoc]

/-- With a region in the list it does not matter what `endpage` held before. -/
theorem allocateRegions_cons_next {head : VmeRegion} {rest : List VmeRegion} {pgno : BitVec 32}
    (hpgno : pgno.toNat ≤ v120PageCount) {endpage : BitVec 32} {w : World σ} {next : BitVec 32}
    (h : (allocateRegions os (head :: rest) pgno endpage w).1 = some next) :
    next.toNat = pgno.toNat + ((head :: rest).map VmeRegion.counted).sum ∧ next.toNat ≤ v120PageCount := by
  by_cases hmapped : (mapRegion os head pgno w).1 = null
  · rw [allocateRegions_failed rest endpage hmapped] at h
    exact absurd h (Option.some_ne_none next).symm
  · have hsame : (allocateRegions os (head :: rest) pgno (pgno - 1) w).1 = some next := by
      rw [allocateRegions_mapped rest endpage hmapped] at h
      rw [allocateRegions_mapped rest (pgno - 1) hmapped]
      exact h
    exact allocateRegions_next hpgno (BitVec.sub_add_cancel pgno 1) hsame

/-- The pages of the regions are those that are counted, when the loop gets to the end of the list. -/
theorem allocateRegions_used {regions : List VmeRegion} {pgno : BitVec 32}
    (hpgno : pgno.toNat ≤ v120PageCount)
    (endpage : BitVec 32) (w : World σ) (h : (allocateRegions os regions pgno endpage w).1 ≠ none)
    (page : ℕ) :
    (∃ region ∈ (allocateRegions os regions pgno endpage w).2.1,
      region.startPage.toNat ≤ page ∧ page ≤ region.endPage.toNat) ↔
      pgno.toNat ≤ page ∧ page < pgno.toNat + (regions.map VmeRegion.counted).sum := by
  induction regions generalizing pgno endpage w with
  | nil =>
    constructor
    · rintro ⟨region, hmem, -⟩
      exact absurd hmem List.not_mem_nil
    · rintro ⟨hlow, hhigh⟩
      exact absurd hhigh (Nat.not_lt.mpr hlow)
  | cons head rest ih =>
    by_cases hmapped : (mapRegion os head pgno w).1 = null
    · exact absurd (allocateRegions_failed rest endpage hmapped) h
    · rw [allocateRegions_mapped rest endpage hmapped] at h ⊢
      obtain ⟨hnext, hroom, hlast⟩ := (mapRegion_fits hpgno hmapped).next hpgno
      have hrest := ih (hnext ▸ hroom) (pgno + head.npages - 1) (mapRegion os head pgno w).2 h
      have hhead : (head.place (mapRegion os head pgno w).1 pgno).startPage.toNat ≤ page ∧
          page ≤ (head.place (mapRegion os head pgno w).1 pgno).endPage.toNat ↔
            pgno.toNat ≤ page ∧ page < pgno.toNat + head.counted := by
        change pgno.toNat ≤ page ∧ page ≤ (pgno + head.npages - 1).toNat ↔ _
        omega
      dsimp only
      rw [List.exists_mem_cons_iff, hrest, hhead, hnext, List.map_cons, List.sum_cons]
      omega

/-- What the loop leaves when it gets to the end of the list: the regions it was given, each accessed through
its base. -/
theorem allocateRegions_landed (hmaps : os.Maps window) {regions : List VmeRegion} {pgno : BitVec 32}
    (hpgno : pgno.toNat ≤ v120PageCount) (endpage : BitVec 32) (w : World σ)
    (h : (allocateRegions os regions pgno endpage w).1 ≠ none) :
    (allocateRegions os regions pgno endpage w).2.1.map VmeRegion.request = regions.map VmeRegion.request ∧
      (∀ region ∈ (allocateRegions os regions pgno endpage w).2.1,
        region.Landed window (allocateRegions os regions pgno endpage w).2.2) ∧
      Retained window w (allocateRegions os regions pgno endpage w).2.2 := by
  induction regions generalizing pgno endpage w with
  | nil => exact ⟨rfl, fun _ hmem => absurd hmem List.not_mem_nil, fun _ => rfl, fun _ _ hp => hp⟩
  | cons head rest ih =>
    by_cases hmapped : (mapRegion os head pgno w).1 = null
    · exact absurd (allocateRegions_failed rest endpage hmapped) h
    · rw [allocateRegions_mapped rest endpage hmapped] at h ⊢
      obtain ⟨hlanded, hretained⟩ := mapRegion_landed hmaps hpgno hmapped
      obtain ⟨hnext, hroom, -⟩ := (mapRegion_fits hpgno hmapped).next hpgno
      obtain ⟨hrequests, hall, hlater⟩ :=
        ih (hnext ▸ hroom) (pgno + head.npages - 1) (mapRegion os head pgno w).2 h
      refine ⟨congrArg (List.cons head.request) hrequests, ?_, fun hopen => ?_, fun p byte hp => ?_⟩
      · exact List.forall_mem_cons.mpr ⟨hlanded.retained hlater, hall⟩
      · have hsame := hretained.sameFdVme hopen
        exact (hlater.sameFdVme (hsame ▸ hopen)).trans hsame
      · exact hlater.keeps p byte (hretained.keeps p byte hp)

/-- A region that can be counted lies in its pages. -/
theorem VmeRegion.Landed.covered {region : VmeRegion} {w : World σ} (h : region.Landed window w)
    (hcountable : region.Countable) : region.Covered window w := by
  have hcount : v120PageCount = 8192 := rfl
  obtain ⟨hexact, hpositive⟩ := hcountable.counted_eq
  have hsome : region.counted ≠ 0 := Nat.one_le_iff_ne_zero.mp hpositive
  have hroom := h.fits.1
  have haccess := h.access
  have hpages := h.pages
  rw [VmeRegion.mappedPages, VmeRegion.mappedFrom, if_neg hsome, if_neg hsome] at haccess
  have henough : region.extent ≤ v120PageSize * region.counted := by
    rw [hexact]
    exact le_smul_ceilDiv (show 0 < v120PageSize by decide)
  rw [VmeRegion.extent] at henough
  refine ⟨region.toNat_npages_eq.trans hexact, region.toNat_npages_eq ▸ hpages, by omega, ?_,
    fun k hk => ?_⟩
  · have hoffs : region.vmeAddr.toNat % v120PageSize < v120PageSize := Nat.mod_lt _ (by decide)
    have hbase := haccess 0 (Nat.lt_of_lt_of_le hoffs (Nat.le_mul_of_pos_right _ hpositive))
    rw [Nat.add_zero] at hbase
    exact (BitVec.add_zero region.base) ▸ hbase
  · refine ⟨_, haccess k (by omega), rfl, ?_⟩
    simp only [v120PageSize] at henough ⊢
    omega

/-- A region that lies in its pages can be counted: one that is counted as having none begins in the page
before. -/
theorem VmeRegion.Landed.countable {region : VmeRegion} {w : World σ} (h : region.Landed window w)
    (hcovered : region.Covered window w) : region.Countable := by
  refine VmeRegion.countable_of_counted (region.toNat_npages_eq ▸ hcovered.counted) ?_
  by_contra hnone
  have hzero : region.counted = 0 := by omega
  have hbetween := h.fits.2 hzero
  have hbase := h.access 0
  rw [VmeRegion.mappedPages, VmeRegion.mappedFrom, if_pos hzero, if_pos hzero] at hbase
  have hoffs : region.vmeAddr.toNat % v120PageSize < v120PageSize := Nat.mod_lt _ (by decide)
  have hbefore := hbase (by omega)
  rw [Nat.add_zero, show region.base + BitVec.ofNat 64 0 = region.base from BitVec.add_zero _,
    hcovered.base] at hbefore
  have hsame := congrArg Prod.snd (Option.some.inj hbefore)
  rw [v120PageSize] at hsame
  omega

/-- The operating system opens the VME device, maps its pages under these descriptors, and grants memory. -/
structure Os.MapsPages (os : Os σ) (device : ℤ → Prop) : Prop where
  opens : ∀ crateno s, ∃ fd : ℕ, (os.openDevice .vme crateno s).1 = .ok fd ∧ device fd
  mmap : ∀ pageno npages fd s, device fd → pageno + npages ≤ v120PageCount →
    ∃ ptr, (os.mmap (v120PageSize * npages) fd (v120PageSize * pageno) s).1 = .ok ptr ∧ ptr ≠ null ∧
      ptr ≠ mapFailed
  malloc : ∀ s, (os.malloc s).1 = true

/-- The VME device is not open, or open under one of these descriptors. -/
def World.HasDevice (device : ℤ → Prop) (w : World σ) : Prop := w.handle.fdVme < 0 ∨ device w.handle.fdVme

/-- The page descriptors have nothing to do with it. -/
theorem World.HasDevice.setPd {device : ℤ → Prop} {w : World σ} (h : w.HasDevice device)
    (pd : Memory ℤ V120Pd) :
    (w.modify (·.setPd pd)).HasDevice device := h

/-- The descriptor the device is open under, if it is. -/
theorem World.hasDevice_toNat (w : World σ) : w.HasDevice (· = (w.handle.fdVme.toNat : ℤ)) :=
  (Int.lt_or_le w.handle.fdVme 0).imp_right fun hopen => (Int.toNat_of_nonneg hopen).symm

variable {device : ℤ → Prop}

/-- The device opens. -/
theorem openVme_mapsPages (hos : os.MapsPages device) {w : World σ} (hw : w.HasDevice device) :
    (openVme os w).1 = true ∧ device (openVme os w).2.handle.fdVme := by
  unfold openVme
  split_ifs with hclosed
  · obtain ⟨fd, hfd, hdevice⟩ := hos.opens w.handle.crateno w.outside
    rw [World.openDevice]
    generalize os.openDevice .vme w.handle.crateno w.outside = answer at hfd
    obtain ⟨answer, outside⟩ := answer
    obtain rfl : answer = .ok fd := hfd
    dsimp only
    rw [if_neg (Int.not_lt.mpr (Int.natCast_nonneg fd))]
    exact ⟨rfl, hdevice⟩
  · exact ⟨rfl, hw.resolve_left hclosed⟩

/-- A mapping that is answered. -/
theorem World.mmap_ok {size : ℕ} {fd : ℤ} {offset : ℕ} {w : World σ} {ptr : Pointer}
    (h : (os.mmap size fd offset w.outside).1 = .ok ptr) : (w.mmap os size fd offset).1 = ptr := by
  rw [World.mmap]
  generalize os.mmap size fd offset w.outside = answer at h
  obtain ⟨answer, outside⟩ := answer
  obtain rfl : answer = .ok ptr := h
  rfl

/-- Pages that exist are mapped. -/
theorem v120AllocPages_mapsPages (hos : os.MapsPages device) {pageno npages : ℤ} (hpageno : 0 ≤ pageno)
    (hnpages : 0 ≤ npages) (hexist : pageno + npages ≤ v120PageCount) {w : World σ}
    (hw : w.HasDevice device) :
    (v120AllocPages os pageno npages w).1 ≠ null ∧
      (v120AllocPages os pageno npages w).2.HasDevice device := by
  obtain ⟨hopened, hdevice⟩ := openVme_mapsPages hos hw
  obtain ⟨ptr, hptr, hpointer⟩ := hos.mmap pageno.toNat npages.toNat (openVme os w).2.handle.fdVme
    (openVme os w).2.outside hdevice (by omega)
  have hmmap := World.mmap_ok hptr
  have hframe := mmap_frame os (v120PageSize * npages.toNat) (openVme os w).2.handle.fdVme
    (v120PageSize * pageno.toNat) (openVme os w).2
  rw [v120AllocPages, if_neg (Int.not_lt.mpr hpageno), if_neg (Int.not_lt.mpr hnpages)]
  dsimp only
  rw [if_pos hopened, hmmap, if_neg (not_or.mpr hpointer)]
  have hadded : ¬ (v120AddToMmList os ptr (v120PageSize * npages.toNat)
      ((openVme os w).2.mmap os (v120PageSize * npages.toNat) (openVme os w).2.handle.fdVme
        (v120PageSize * pageno.toNat)).2).1 < 0 := by
    rw [v120AddToMmList_fst, hos.malloc]
    exact Bool.noConfusion
  rw [if_neg hadded]
  have hsame := (hframe.trans (v120AddToMmList_frame os ptr (v120PageSize * npages.toNat) _)).fdVme
    (openVme_fdVme os hopened)
  refine ⟨hpointer.1, Or.inr ?_⟩
  rw [← hsame] at hdevice
  exact hdevice

/-- A region that fits is mapped. -/
theorem mapRegion_mapsPages (hos : os.MapsPages device) {region : VmeRegion} {pgno : BitVec 32}
    (hpgno : pgno.toNat ≤ v120PageCount) (hfits : region.FitsAt pgno.toNat) {w : World σ}
    (hw : w.HasDevice device) :
    (mapRegion os region pgno w).1 ≠ null ∧ (mapRegion os region pgno w).2.HasDevice device := by
  obtain ⟨hpgnoInt, hendpageInt⟩ := region.toInt_counted hpgno
  have hbounds : 0 ≤ min pgno.toInt (pgno + region.npages - 1).toInt ∧
      max pgno.toInt (pgno + region.npages - 1).toInt < v120PageCount := by
    obtain ⟨hroom, hbetween⟩ := hfits
    omega
  rw [mapRegion_fst, mapRegion_snd, v120GetVme_eq, if_neg (Int.not_le.mpr hbounds.2)]
  have hpages : 0 ≤ max pgno.toInt (pgno + region.npages - 1).toInt -
      min pgno.toInt (pgno + region.npages - 1).toInt + 1 := by omega
  have hmapped := v120AllocPages_mapsPages hos hbounds.1 hpages (by omega) hw
  exact ⟨hmapped.1, hmapped.2.setPd _⟩

/-- Regions that fit are mapped. -/
theorem allocateRegions_mapsPages (hos : os.MapsPages device) {regions : List VmeRegion} {pgno : BitVec 32}
    (hpgno : pgno.toNat ≤ v120PageCount) (hfits : Fits pgno.toNat regions) (endpage : BitVec 32)
    {w : World σ}
    (hw : w.HasDevice device) : (allocateRegions os regions pgno endpage w).1 ≠ none := by
  induction regions generalizing pgno endpage w with
  | nil => exact Option.some_ne_none _
  | cons head rest ih =>
    obtain ⟨hhead, hrest⟩ := hfits
    obtain ⟨hmapped, hdevice⟩ := mapRegion_mapsPages hos hpgno hhead hw
    obtain ⟨hnext, hroom, -⟩ := hhead.next hpgno
    rw [allocateRegions_mapped rest endpage hmapped]
    exact ih (hnext ▸ hroom) (hnext ▸ hrest) (pgno + head.npages - 1) hdevice

/-- An operating system with the VME window at a fixed place: every mapping of the device is a part of it. -/
def fixedWindow (device : ℕ) : Os Unit where
  openDevice _ _ s := (.ok device, s)
  mmap size fd offset s :=
    if fd = device ∧ offset + size ≤ v120PageSize * v120PageCount then
      (.ok (BitVec.ofNat 64 (0x1000 + offset)), s)
    else (.error ⟨enomem, enomem_pos⟩, s)
  malloc s := (true, s)
  munmap _ _ s := s
  close _ s := s
  controlMap _ _ _ := 0

/-- The bytes of the window. -/
def fixedBytes (device : ℕ) (_ : Unit) (p : Pointer) : Option (ℤ × ℕ) :=
  if 0x1000 ≤ p.toNat ∧ p.toNat < 0x1000 + v120PageSize * v120PageCount then
    some (device, p.toNat - 0x1000)
  else none

/-- What is mapped lies in the window. -/
theorem fixedWindow_ok {device : ℕ} {size : ℕ} {fd : ℤ} {offset : ℕ} {s : Unit} {ptr : Pointer}
    (h : ((fixedWindow device).mmap size fd offset s).1 = .ok ptr) :
    fd = device ∧ offset + size ≤ 0x8000000 ∧ ptr = BitVec.ofNat 64 (0x1000 + offset) := by
  unfold fixedWindow at h
  dsimp only at h
  split_ifs at h with hinside
  exact ⟨hinside.1, hinside.2, (Except.ok.inj h).symm⟩

/-- The address of a byte of the window. -/
theorem toNat_fixedByte {byte : ℕ} (h : byte ≤ 0x8000000) :
    (BitVec.ofNat 64 (0x1000 + byte)).toNat = 0x1000 + byte := by
  rw [BitVec.toNat_ofNat]
  exact Nat.mod_eq_of_lt (by omega)

/-- A system with a fixed window maps as documented. -/
theorem fixedWindow_maps (device : ℕ) : (fixedWindow device).Maps (fixedBytes device) where
  pointer size fd offset s ptr h := by
    obtain ⟨-, hinside, rfl⟩ := fixedWindow_ok h
    have hnat := toNat_fixedByte (Nat.le_trans (Nat.le_add_right offset size) hinside)
    constructor
    · intro hnull
      have hzero : 0x1000 + offset = 0 := hnat.symm.trans (congrArg BitVec.toNat hnull)
      omega
    · intro hfailed
      have hlast : 0x1000 + offset = 2 ^ 64 - 1 := hnat.symm.trans (congrArg BitVec.toNat hfailed)
      omega
  mmap size fd offset s ptr h k hk := by
    obtain ⟨rfl, hinside, rfl⟩ := fixedWindow_ok h
    have hbound : v120PageSize * v120PageCount = 0x8000000 := rfl
    rw [← BitVec.ofNat_add, Nat.add_assoc, fixedBytes, toNat_fixedByte (by omega), if_pos (by omega),
      Nat.add_sub_cancel_left]
  mmapKeeps _ _ _ _ _ _ hp := hp
  mallocKeeps _ _ _ hp := hp
  openKeeps _ _ _ _ _ hp := hp

/-- A system with a fixed window maps all pages under its descriptor. -/
theorem fixedWindow_mapsPages (device : ℕ) : (fixedWindow device).MapsPages (· = device) where
  opens _ _ := ⟨device, rfl, rfl⟩
  mmap pageno npages fd s hfd hexist := by
    have hinside : v120PageSize * pageno + v120PageSize * npages ≤ v120PageSize * v120PageCount := by
      rw [← Nat.mul_add]
      exact Nat.mul_le_mul_left _ hexist
    have hanswer : ((fixedWindow device).mmap (v120PageSize * npages) fd (v120PageSize * pageno) s).1 =
        .ok (BitVec.ofNat 64 (0x1000 + v120PageSize * pageno)) := by
      unfold fixedWindow
      dsimp only
      rw [if_pos ⟨hfd, hinside⟩]
    exact ⟨_, hanswer, (fixedWindow_maps device).pointer _ _ _ _ _ hanswer⟩
  malloc _ := rfl

/-- A call that returns something else than -1 comes to the end of the list. -/
theorem v120AllocateVme_ok {uninitialised startPage : BitVec 32} {w : World σ}
    (hret : (v120AllocateVme os uninitialised startPage w).1 ≠ -1) :
    startPage.toNat < v120PageCount ∧
      (allocateRegions os w.handle.listHead startPage uninitialised w).1 ≠ none := by
  unfold v120AllocateVme at hret
  by_cases hstart : startPage ≥ 8192
  · rw [if_pos hstart] at hret
    exact absurd rfl hret
  · rw [if_neg hstart] at hret
    refine ⟨BitVec.lt_def.mp (BitVec.not_le.mp hstart), fun hnone => ?_⟩
    dsimp only at hret
    rw [hnone] at hret
    exact absurd rfl hret

/-- What such a call returns and leaves. -/
theorem v120AllocateVme_eq {uninitialised startPage : BitVec 32} (hstart : startPage.toNat < v120PageCount)
    {w : World σ} {next : BitVec 32}
    (hnext : (allocateRegions os w.handle.listHead startPage uninitialised w).1 = some next) :
    v120AllocateVme os uninitialised startPage w =
      (next.toInt, (allocateRegions os w.handle.listHead startPage uninitialised w).2.2.modify fun h =>
        { h with listHead := (allocateRegions os w.handle.listHead startPage uninitialised w).2.1 }) := by
  have hlt : ¬ startPage ≥ 8192 := BitVec.not_le.mpr (BitVec.lt_def.mpr hstart)
  rw [v120AllocateVme, if_neg hlt]
  dsimp only
  rw [hnext]

/-- After a call that succeeds each region is accessed through its base, and the pages that are counted for
the regions exist. -/
theorem v120AllocateVme_landed (hmaps : os.Maps window) {uninitialised startPage : BitVec 32} {w : World σ}
    (hret : (v120AllocateVme os uninitialised startPage w).1 ≠ -1) :
    startPage.toNat < v120PageCount ∧ Fits startPage.toNat w.handle.listHead ∧
      (v120AllocateVme os uninitialised startPage w).2.handle.listHead.map VmeRegion.request =
        w.handle.listHead.map VmeRegion.request ∧
      ∀ region ∈ (v120AllocateVme os uninitialised startPage w).2.handle.listHead,
        region.Landed window (v120AllocateVme os uninitialised startPage w).2 := by
  obtain ⟨hstart, hok⟩ := v120AllocateVme_ok hret
  have hpgno := Nat.le_of_lt hstart
  obtain ⟨next, hnext⟩ := Option.ne_none_iff_exists'.mp hok
  obtain ⟨hrequests, hlanded, -⟩ := allocateRegions_landed hmaps hpgno uninitialised w hok
  refine ⟨hstart, allocateRegions_fits hpgno uninitialised w hok, ?_⟩
  rw [v120AllocateVme_eq hstart hnext]
  exact ⟨hrequests, fun region hmem => (hlanded region hmem).setListHead _⟩

/-- Regions that fit are allocated, where the device opens and all its pages are mapped. -/
theorem v120AllocateVme_mapsPages (hos : os.MapsPages device) {startPage : BitVec 32}
    (hstart : startPage.toNat < v120PageCount) {w : World σ}
    (hfits : Fits startPage.toNat w.handle.listHead)
    (hw : w.HasDevice device) (uninitialised : BitVec 32) :
    ∃ next, (allocateRegions os w.handle.listHead startPage uninitialised w).1 = some next :=
  Option.ne_none_iff_exists'.mp (allocateRegions_mapsPages hos (Nat.le_of_lt hstart) hfits uninitialised hw)

/-- Whether a region can be counted depends on what is asked for. -/
theorem VmeRegion.countable_congr {region region' : VmeRegion} (h : region.request = region'.request) :
    region.Countable ↔ region'.Countable := by
  have haddr : region.vmeAddr = region'.vmeAddr := congrArg Prod.fst h
  have hlen : region.len = region'.len := congrArg (fun request => request.2.1) h
  rw [Countable, Countable, extent, extent, haddr, hlen]

/-- Of two lists that ask for the same, both have countable regions or neither has. -/
theorem forall_countable_congr {regions regions' : List VmeRegion}
    (h : regions.map VmeRegion.request = regions'.map VmeRegion.request) :
    (∀ region ∈ regions, region.Countable) ↔ ∀ region ∈ regions', region.Countable := by
  induction regions generalizing regions' with
  | nil =>
    obtain rfl := List.map_eq_nil_iff.mp h.symm
    exact Iff.rfl
  | cons head rest ih =>
    cases regions' with
    | nil => exact absurd h (List.cons_ne_nil _ _)
    | cons head' rest' =>
      obtain ⟨hhead, hrest⟩ := List.cons.inj h
      rw [List.forall_mem_cons, List.forall_mem_cons, ih hrest, VmeRegion.countable_congr hhead]

/-- With a suitable value left in `endpage` the call does not return -1. -/
theorem v120AllocateVme_ne {startPage : BitVec 32} (hstart : startPage.toNat < v120PageCount) {w : World σ}
    {next : BitVec 32}
    (hnext : (allocateRegions os w.handle.listHead startPage (startPage - 1) w).1 = some next) :
    (v120AllocateVme os (startPage - 1) startPage w).1 ≠ -1 := by
  have hcount : v120PageCount = 8192 := rfl
  obtain ⟨-, hlast⟩ := allocateRegions_next (Nat.le_of_lt hstart) (BitVec.sub_add_cancel startPage 1) hnext
  rw [v120AllocateVme_eq hstart hnext]
  dsimp only
  rw [BitVec.toInt_eq_toNat_of_lt (by omega)]
  omega

/-- **When the pages of all regions are counted exactly.** Whatever the operating system answers, a call
that does not return -1 leaves each region in as many pages as its bytes need, with its base in the first
of them, exactly when no region of the list is empty or too long to be counted in `unsigned int`, unless
the start page or a page that is counted for the list does not exist. -/
theorem v120AllocateVme_covers_iff (h : V120Handle) (startPage : BitVec 32) :
    (∀ (σ : Type) (os : Os σ) (window : σ → Pointer → Option (ℤ × ℕ)) (uninitialised : BitVec 32)
      (w : World σ),
      os.Maps window → w.handle = h → (v120AllocateVme os uninitialised startPage w).1 ≠ -1 →
        AllCovered window h.listHead (v120AllocateVme os uninitialised startPage w).2) ↔
      (startPage.toNat < v120PageCount → Fits startPage.toNat h.listHead →
        ∀ region ∈ h.listHead, region.Countable) := by
  constructor
  · intro hcovers hstart hfits
    let device : ℕ := h.fdVme.toNat
    let w : World Unit := ⟨h, 0, ()⟩
    obtain ⟨next, hnext⟩ := v120AllocateVme_mapsPages (fixedWindow_mapsPages device) hstart hfits
      w.hasDevice_toNat (startPage - 1)
    have hmaps := fixedWindow_maps device
    have hret := v120AllocateVme_ne hstart hnext
    have hcovered := hcovers Unit _ _ (startPage - 1) w hmaps rfl hret
    obtain ⟨-, -, hrequests, hlanded⟩ := v120AllocateVme_landed hmaps hret
    refine (forall_countable_congr hrequests).mp fun region hmem => ?_
    exact (hlanded region hmem).countable (hcovered.covered region hmem)
  · rintro hcountable σ os window uninitialised w hmaps rfl hret
    obtain ⟨hstart, hfits, hrequests, hlanded⟩ := v120AllocateVme_landed hmaps hret
    refine ⟨hrequests, fun region hmem => ?_⟩
    exact (hlanded region hmem).covered
      ((forall_countable_congr hrequests).mpr (hcountable hstart hfits) region hmem)

/-- A region of one byte more than 4 GiB is given a single page, and an empty one at the start of a page
begins in the page before its own. -/
theorem v120AllocateVme_miscounts :
    let long : World AddressSpace := ⟨openHandle [⟨0, 0, 0, 0, 0x100000001, 0x25⟩], 0, AddressSpace.empty⟩
    let empty : World AddressSpace := ⟨openHandle [⟨0, 0, 0, 0x8000, 0, 0x25⟩], 0, AddressSpace.empty⟩
    ((v120AllocateVme AddressSpace.system 0 5 long).1 ≠ -1 ∧
      ¬ AllCovered AddressSpace.window long.handle.listHead
        (v120AllocateVme AddressSpace.system 0 5 long).2) ∧
    ((v120AllocateVme AddressSpace.system 0 5 empty).1 ≠ -1 ∧
      ¬ AllCovered AddressSpace.window empty.handle.listHead
        (v120AllocateVme AddressSpace.system 0 5 empty).2) := by
  intro long empty
  refine ⟨⟨by decide +kernel, fun hcovered => ?_⟩, ⟨by decide +kernel, fun hcovered => ?_⟩⟩
  · have hcounted := fun region hmem => (hcovered.covered region hmem).counted
    revert hcounted
    decide +kernel
  · have hbase := fun region hmem => (hcovered.covered region hmem).base
    revert hbase
    decide +kernel

/-- The first unused page is behind the last one that is counted. -/
theorem allocateRegions_firstUnused {regions : List VmeRegion} {pgno : BitVec 32}
    (hpgno : pgno.toNat ≤ v120PageCount) (endpage : BitVec 32) (w : World σ)
    (h : (allocateRegions os regions pgno endpage w).1 ≠ none) {page : ℕ} :
    FirstUnused pgno.toNat (allocateRegions os regions pgno endpage w).2.1 page ↔
      page = pgno.toNat + (regions.map VmeRegion.counted).sum := by
  have hused := allocateRegions_used hpgno endpage w h
  have hleast : FirstUnused pgno.toNat (allocateRegions os regions pgno endpage w).2.1
      (pgno.toNat + (regions.map VmeRegion.counted).sum) := by
    refine ⟨⟨Nat.le_add_right _ _, fun hsome => ?_⟩, fun page hpage => ?_⟩
    · exact absurd ((hused _).mp hsome).2 (Nat.lt_irrefl _)
    · exact Nat.not_lt.mp fun hlt => hpage.2 ((hused page).mpr ⟨hpage.1, hlt⟩)
  exact ⟨fun hpage => hpage.unique hleast, fun hpage => hpage ▸ hleast⟩

/-- What a call that comes to the end of the list has to return. -/
theorem ReturnsFirstUnused.toInt_eq {uninitialised startPage : BitVec 32}
    (hstart : startPage.toNat < v120PageCount) {w : World σ} {next : BitVec 32}
    (hnext : (allocateRegions os w.handle.listHead startPage uninitialised w).1 = some next)
    (h : ReturnsFirstUnused startPage.toNat (v120AllocateVme os uninitialised startPage w).1
      (v120AllocateVme os uninitialised startPage w).2.handle.listHead) :
    next.toInt = if startPage.toNat + (w.handle.listHead.map VmeRegion.counted).sum < v120PageCount then
      ((startPage.toNat + (w.handle.listHead.map VmeRegion.counted).sum : ℕ) : ℤ) else 0 := by
  rw [v120AllocateVme_eq hstart hnext] at h
  obtain ⟨page, hpage, hret⟩ := h
  obtain rfl := (allocateRegions_firstUnused (Nat.le_of_lt hstart) uninitialised w
    (hnext ▸ Option.some_ne_none next)).mp hpage
  exact hret

/-- Without a region the local may hold the start page, and then the page behind it is returned. -/
theorem not_returnsFirstUnused_nil {startPage : BitVec 32} (hstart : startPage.toNat < v120PageCount)
    {w : World σ} (hlist : w.handle.listHead = []) :
    (v120AllocateVme os startPage startPage w).1 ≠ -1 ∧
      ¬ ReturnsFirstUnused startPage.toNat (v120AllocateVme os startPage startPage w).1
        (v120AllocateVme os startPage startPage w).2.handle.listHead := by
  have hcount : v120PageCount = 8192 := rfl
  have hnext : (allocateRegions os w.handle.listHead startPage startPage w).1 = some (startPage + 1) := by
    rw [hlist]
    rfl
  have hnat : (startPage + 1).toNat = startPage.toNat + 1 := by
    rw [BitVec.toNat_add]
    exact Nat.mod_eq_of_lt (by simp only [BitVec.reduceToNat]; omega)
  have hint : (startPage + 1).toInt = startPage.toNat + 1 := by
    rw [BitVec.toInt_eq_toNat_of_lt (by omega), hnat]
    rfl
  constructor
  · rw [v120AllocateVme_eq hstart hnext]
    dsimp only
    omega
  · intro hreturns
    have hreturned := hreturns.toInt_eq hstart hnext
    rw [hlist, List.map_nil, List.sum_nil, Nat.add_zero, if_pos hstart, hint] at hreturned
    omega

/-- With the last page counted for a region, the number of a page that does not exist is returned. -/
theorem not_returnsFirstUnused_last {startPage : BitVec 32} (hstart : startPage.toNat < v120PageCount)
    {w : World σ} {next : BitVec 32}
    (hnext : (allocateRegions os w.handle.listHead startPage (startPage - 1) w).1 = some next)
    (hall : v120PageCount ≤ startPage.toNat + (w.handle.listHead.map VmeRegion.counted).sum) :
    ¬ ReturnsFirstUnused startPage.toNat (v120AllocateVme os (startPage - 1) startPage w).1
      (v120AllocateVme os (startPage - 1) startPage w).2.handle.listHead := by
  intro hreturns
  have hcount : v120PageCount = 8192 := rfl
  have hreturned := hreturns.toInt_eq hstart hnext
  obtain ⟨hsum, hlast⟩ :=
    allocateRegions_next (Nat.le_of_lt hstart) (BitVec.sub_add_cancel startPage 1) hnext
  rw [if_neg (Nat.not_lt.mpr hall), BitVec.toInt_eq_toNat_of_lt (by omega)] at hreturned
  omega

/-- Otherwise the page behind the last one that is counted is returned. -/
theorem returnsFirstUnused_of_room {uninitialised startPage : BitVec 32} {w : World σ}
    (hstart : startPage.toNat < v120PageCount)
    (hok : (allocateRegions os w.handle.listHead startPage uninitialised w).1 ≠ none)
    (hsome : w.handle.listHead ≠ [])
    (hroom : startPage.toNat + (w.handle.listHead.map VmeRegion.counted).sum < v120PageCount) :
    ReturnsFirstUnused startPage.toNat (v120AllocateVme os uninitialised startPage w).1
      (v120AllocateVme os uninitialised startPage w).2.handle.listHead := by
  have hcount : v120PageCount = 8192 := rfl
  have hpgno := Nat.le_of_lt hstart
  obtain ⟨next, hnext⟩ := Option.ne_none_iff_exists'.mp hok
  obtain ⟨head, rest, hlist⟩ := List.exists_cons_of_ne_nil hsome
  have hfirst := (allocateRegions_firstUnused hpgno uninitialised w hok).mpr rfl
  rw [v120AllocateVme_eq hstart hnext]
  refine ⟨_, hfirst, ?_⟩
  rw [hlist] at hnext hroom ⊢
  obtain ⟨hsum, -⟩ := allocateRegions_cons_next hpgno hnext
  dsimp only
  rw [if_pos hroom, BitVec.toInt_eq_toNat_of_lt (by omega), hsum]

/-- **When `v120_allocate_vme` returns what it is documented to.** Whatever the operating system answers,
and whatever the uninitialised local holds, a call that succeeds returns the first page it left unused, or
zero if there is none, exactly when there is a region in the list and page 8191 is not counted for one,
unless the start page or a page that is counted for the list does not exist. -/
theorem v120AllocateVme_returns_iff (h : V120Handle) (startPage : BitVec 32) :
    (∀ (σ : Type) (os : Os σ) (uninitialised : BitVec 32) (w : World σ),
      w.handle = h → (v120AllocateVme os uninitialised startPage w).1 ≠ -1 →
        ReturnsFirstUnused startPage.toNat (v120AllocateVme os uninitialised startPage w).1
          (v120AllocateVme os uninitialised startPage w).2.handle.listHead) ↔
      (startPage.toNat < v120PageCount → Fits startPage.toNat h.listHead →
        h.listHead ≠ [] ∧ startPage.toNat + (h.listHead.map VmeRegion.counted).sum < v120PageCount) := by
  constructor
  · intro hreturns hstart hfits
    let device : ℕ := h.fdVme.toNat
    let w : World Unit := ⟨h, 0, ()⟩
    constructor
    · intro hlist
      have hempty : w.handle.listHead = [] := hlist
      have hunreturned := hreturns Unit (fixedWindow device) startPage w rfl
      exact (not_returnsFirstUnused_nil hstart hempty).2
        (hunreturned (not_returnsFirstUnused_nil hstart hempty).1)
    · refine Nat.lt_of_not_le fun hall => ?_
      obtain ⟨next, hnext⟩ := v120AllocateVme_mapsPages (fixedWindow_mapsPages device) hstart hfits
        w.hasDevice_toNat (startPage - 1)
      have hret := v120AllocateVme_ne hstart hnext
      exact not_returnsFirstUnused_last hstart hnext hall (hreturns Unit _ (startPage - 1) w rfl hret)
  · rintro hcond σ os uninitialised w rfl hret
    obtain ⟨hstart, hok⟩ := v120AllocateVme_ok hret
    have hfits := allocateRegions_fits (Nat.le_of_lt hstart) uninitialised w hok
    obtain ⟨hsome, hroom⟩ := hcond hstart hfits
    exact returnsFirstUnused_of_room hstart hok hsome hroom

/-- Without a region the call returns whatever the local held; with a region that takes the last page
it returns the number of a page that does not exist. -/
theorem v120AllocateVme_returns_else :
    let empty : World AddressSpace := ⟨openHandle [], 0, AddressSpace.empty⟩
    let last : World AddressSpace := ⟨openHandle [⟨0, 0, 0, 0, 0x4000, 0x25⟩], 0, AddressSpace.empty⟩
    ((v120AllocateVme AddressSpace.system 41 7 empty).1 = 42 ∧
      ¬ ReturnsFirstUnused 7 (v120AllocateVme AddressSpace.system 41 7 empty).1
        (v120AllocateVme AddressSpace.system 41 7 empty).2.handle.listHead) ∧
    ((v120AllocateVme AddressSpace.system 0 8191 last).1 = 8192 ∧
      ¬ ReturnsFirstUnused 8191 (v120AllocateVme AddressSpace.system 0 8191 last).1
        (v120AllocateVme AddressSpace.system 0 8191 last).2.handle.listHead) := by
  intro empty last
  have hnone : (allocateRegions AddressSpace.system empty.handle.listHead 7 41 empty).1 = some 42 := by
    decide +kernel
  have hregion : (allocateRegions AddressSpace.system last.handle.listHead 8191 0 last).1 = some 8192 := by
    decide +kernel
  have hseven : (7 : BitVec 32).toNat < v120PageCount := by decide
  have hlast : (8191 : BitVec 32).toNat < v120PageCount := by decide
  refine ⟨⟨by decide +kernel, fun hreturns => ?_⟩, ⟨by decide +kernel, fun hreturns => ?_⟩⟩
  · have hpage := ReturnsFirstUnused.toInt_eq hseven hnone hreturns
    revert hpage
    decide +kernel
  · have hpage := ReturnsFirstUnused.toInt_eq hlast hregion hreturns
    revert hpage
    decide +kernel

end V120.Vme
