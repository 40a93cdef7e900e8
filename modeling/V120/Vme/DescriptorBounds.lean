import V120.Vme.PageCounts

/-!
# Which descriptors are written

The control map begins with 8192 page descriptors, and the configuration registers follow. The calls
that configure pages check their arguments at different places: `v120_allocate_vme` stores the
descriptors of a region before it asks whether its pages were mapped, and `v120_configure_page` checks
its index against the end of the array only.
-/

namespace V120.Vme

open V120.Common

/-- A descriptor of the array. -/
def IsDescriptor (index : ℤ) : Prop := 0 ≤ index ∧ index < v120PageCount

/-- The indices written between two worlds. -/
def newWrites {σ : Type*} (w w' : World σ) : List ℤ :=
  w'.handle.pd.written.drop w.handle.pd.written.length

section Calls

variable {σ : Type*} (os : Os σ)

/-- The loop of `v120_allocate_vme` that starts with a list gets to its rest, at a page and in a world. -/
inductive Gets : List VmeRegion → BitVec 32 → World σ → List VmeRegion → BitVec 32 → World σ → Prop where
  | here (regions : List VmeRegion) (pgno : BitVec 32) (w : World σ) : Gets regions pgno w regions pgno w
  | next {head : VmeRegion} {regions rest : List VmeRegion} {pgno pgno' : BitVec 32} {w w' : World σ}
      (hmapped : (mapRegion os head pgno w).1 ≠ null)
      (h : Gets regions (pgno + head.npages) (mapRegion os head pgno w).2 rest pgno' w') :
      Gets (head :: regions) pgno w rest pgno' w'

/-- A call of `v120_allocate_vme` writes descriptors of the array only, and none of the pages of a
region that do not all exist. -/
structure AllocatesInside (uninitialised startPage : BitVec 32) (w : World σ) : Prop where
  inside : ∀ index ∈ newWrites w (v120AllocateVme os uninitialised startPage w).2, IsDescriptor index
  refused : ∀ region rest pgno w', Gets os w.handle.listHead startPage w (region :: rest) pgno w' →
    v120PageCount < pgno.toNat + region.npages.toNat →
    ∀ index ∈ newWrites w (v120AllocateVme os uninitialised startPage w).2,
      ¬ (pgno.toNat ≤ index ∧ index < pgno.toNat + region.npages.toNat)

/-- A call of `v120_configure_page` writes descriptors of the array only, and none when the page does
not exist. -/
structure ConfiguresInside (idx : ℤ) (base : BitVec 64) (config : V120Pd) (w : World σ) : Prop where
  inside : ∀ index ∈ newWrites w (v120ConfigurePage os idx base config w).2, IsDescriptor index
  refused : ¬ IsDescriptor idx → newWrites w (v120ConfigurePage os idx base config w).2 = []

end Calls

/-- The pages the regions of a list ask for exist, counted from a page on, up to the first region that
asks for no page at either end of the window, where the call stops. -/
def PagesExist : ℕ → List VmeRegion → Prop
  | _, [] => True
  | pgno, region :: rest =>
    if region.npages.toNat = 0 then pgno = 0 ∨ pgno = v120PageCount ∨ PagesExist pgno rest
    else pgno + region.npages.toNat ≤ v120PageCount ∧ PagesExist (pgno + region.npages.toNat) rest

/-- What was written behind what had been written. -/
theorem newWrites_eq {σ : Type*} {w w' : World σ} {later : List ℤ}
    (h : w'.handle.pd.written = w.handle.pd.written ++ later) : newWrites w w' = later := by
  rw [newWrites, h, List.drop_left]

/-- The indices of the descriptors of a region. -/
def VmeRegion.indices (region : VmeRegion) (pgno : BitVec 32) : List ℤ :=
  (rangeStores pgno.toInt region.vmeAddr region.config region.npages.toInt).map Prod.fst

/-- The indices of the descriptors of a region are the pages it asks for. -/
theorem VmeRegion.mem_indices (region : VmeRegion) {pgno : BitVec 32} (hpgno : pgno.toNat ≤ v120PageCount)
    {index : ℤ} : index ∈ region.indices pgno ↔
      pgno.toNat ≤ index ∧ index < pgno.toNat + region.npages.toNat := by
  have hcount : v120PageCount = 8192 := rfl
  have hfew := region.npages_lt
  have hpgnoInt : pgno.toInt = pgno.toNat := BitVec.toInt_eq_toNat_of_lt (by omega)
  have hnpagesInt : region.npages.toInt = region.npages.toNat := BitVec.toInt_eq_toNat_of_lt (by omega)
  rw [indices, mem_rangeStores, hpgnoInt, hnpagesInt]

section Loop

variable {σ : Type*} (os : Os σ)

/-- The descriptors of a region are written whether or not it is mapped. -/
theorem mapRegion_written (region : VmeRegion) (pgno : BitVec 32) (w : World σ) :
    (mapRegion os region pgno w).2.handle.pd.written = w.handle.pd.written ++ region.indices pgno := by
  rw [mapRegion_snd]
  exact w.handle.pd.written_storeAll _

/-- A region that asks for no page at an end of the window is not mapped. -/
theorem mapRegion_none {region : VmeRegion} {pgno : BitVec 32} (hnone : region.npages.toNat = 0)
    (hend : pgno.toNat = 0 ∨ pgno.toNat = v120PageCount) (w : World σ) :
    (mapRegion os region pgno w).1 = null := by
  have hnpages : region.npages = 0 := BitVec.eq_of_toNat_eq hnone
  rw [mapRegion_fst, hnpages]
  rcases hend with hzero | hlast
  · -- the pages 0 and -1 are swapped
    have hpgno : pgno = 0 := BitVec.eq_of_toNat_eq hzero
    subst hpgno
    rfl
  · have hpgno : pgno = 8192 := BitVec.eq_of_toNat_eq hlast
    subst hpgno
    rfl

variable {os}

/-- Behind a region that was mapped there are pages for the rest of the list. -/
theorem PagesExist.next {head : VmeRegion} {rest : List VmeRegion} {pgno : BitVec 32}
    (hpgno : pgno.toNat ≤ v120PageCount) (h : PagesExist pgno.toNat (head :: rest)) {w : World σ}
    (hmapped : (mapRegion os head pgno w).1 ≠ null) :
    pgno.toNat + head.npages.toNat ≤ v120PageCount ∧
      (pgno + head.npages).toNat = pgno.toNat + head.npages.toNat ∧
      PagesExist (pgno + head.npages).toNat rest := by
  have hcount : v120PageCount = 8192 := rfl
  have hboth : pgno.toNat + head.npages.toNat ≤ v120PageCount ∧
      PagesExist (pgno.toNat + head.npages.toNat) rest := by
    rw [PagesExist] at h
    by_cases hnone : head.npages.toNat = 0
    · rw [if_pos hnone] at h
      rw [hnone, Nat.add_zero]
      refine ⟨hpgno, ?_⟩
      rcases h with hzero | hlast | hrest
      · exact absurd (mapRegion_none os hnone (Or.inl hzero) w) hmapped
      · exact absurd (mapRegion_none os hnone (Or.inr hlast) w) hmapped
      · exact hrest
    · rw [if_neg hnone] at h
      exact h
  have hnext : (pgno + head.npages).toNat = pgno.toNat + head.npages.toNat := by
    rw [BitVec.toNat_add]
    exact Nat.mod_eq_of_lt (by omega)
  exact ⟨hboth.1, hnext, hnext ▸ hboth.2⟩

variable (os)

/-- A region that is not mapped is the last one whose descriptors are written. -/
theorem allocateRegions_written_failed {head : VmeRegion} (rest : List VmeRegion) {pgno : BitVec 32}
    (endpage : BitVec 32) {w : World σ} (hfailed : (mapRegion os head pgno w).1 = null) :
    (allocateRegions os (head :: rest) pgno endpage w).2.2.handle.pd.written =
      w.handle.pd.written ++ head.indices pgno := by
  rw [← mapRegion_written os, allocateRegions]
  dsimp only
  rw [if_pos hfailed]

/-- Behind a region that is mapped the loop goes on. -/
theorem allocateRegions_written_mapped {head : VmeRegion} (rest : List VmeRegion) {pgno : BitVec 32}
    (endpage : BitVec 32) {w : World σ} (hmapped : (mapRegion os head pgno w).1 ≠ null) :
    (allocateRegions os (head :: rest) pgno endpage w).2.2.handle.pd.written =
      (allocateRegions os rest (pgno + head.npages) (pgno + head.npages - 1)
        (mapRegion os head pgno w).2).2.2.handle.pd.written := by
  rw [allocateRegions]
  dsimp only
  rw [if_neg hmapped]

/-- The loop adds to what was written. -/
theorem allocateRegions_written (regions : List VmeRegion) (pgno endpage : BitVec 32) (w : World σ) :
    ∃ later, (allocateRegions os regions pgno endpage w).2.2.handle.pd.written =
      w.handle.pd.written ++ later := by
  induction regions generalizing pgno endpage w with
  | nil => exact ⟨[], (List.append_nil _).symm⟩
  | cons head rest ih =>
    by_cases hfailed : (mapRegion os head pgno w).1 = null
    · exact ⟨_, allocateRegions_written_failed os rest endpage hfailed⟩
    · obtain ⟨later, hlater⟩ := ih (pgno + head.npages) (pgno + head.npages - 1) (mapRegion os head pgno w).2
      rw [allocateRegions_written_mapped os rest endpage hfailed, hlater, mapRegion_written, List.append_assoc]
      exact ⟨_, rfl⟩

/-- The loop writes the descriptors of its first region, and whatever it writes for the rest. -/
theorem allocateRegions_cons_written (head : VmeRegion) (rest : List VmeRegion) (pgno endpage : BitVec 32)
    (w : World σ) :
    ∃ later, (allocateRegions os (head :: rest) pgno endpage w).2.2.handle.pd.written =
      w.handle.pd.written ++ (head.indices pgno ++ later) := by
  by_cases hfailed : (mapRegion os head pgno w).1 = null
  · rw [allocateRegions_written_failed os rest endpage hfailed]
    exact ⟨[], by rw [List.append_nil]⟩
  · obtain ⟨later, hlater⟩ := allocateRegions_written os rest (pgno + head.npages) (pgno + head.npages - 1)
      (mapRegion os head pgno w).2
    rw [allocateRegions_written_mapped os rest endpage hfailed, hlater, mapRegion_written, List.append_assoc]
    exact ⟨later, rfl⟩

/-- While the pages of the regions exist, the loop writes descriptors of the array only. -/
theorem allocateRegions_inside {regions : List VmeRegion} {pgno : BitVec 32}
    (hpgno : pgno.toNat ≤ v120PageCount) (hexist : PagesExist pgno.toNat regions) (endpage : BitVec 32)
    (w : World σ) :
    ∃ later, (allocateRegions os regions pgno endpage w).2.2.handle.pd.written =
      w.handle.pd.written ++ later ∧ ∀ index ∈ later, IsDescriptor index := by
  induction regions generalizing pgno endpage w with
  | nil => exact ⟨[], (List.append_nil _).symm, fun _ hmem => absurd hmem List.not_mem_nil⟩
  | cons head rest ih =>
    have hhead : ∀ index ∈ head.indices pgno, IsDescriptor index := by
      intro index hmem
      have hrange := (head.mem_indices hpgno).mp hmem
      have hexists := hexist
      rw [PagesExist, if_neg (by omega)] at hexists
      exact ⟨by omega, by omega⟩
    by_cases hfailed : (mapRegion os head pgno w).1 = null
    · exact ⟨_, allocateRegions_written_failed os rest endpage hfailed, hhead⟩
    · obtain ⟨hfits, hnext, hrest⟩ := hexist.next hpgno hfailed
      obtain ⟨later, hlater, hinside⟩ := ih (hnext ▸ hfits) hrest (pgno + head.npages - 1)
        (mapRegion os head pgno w).2
      refine ⟨head.indices pgno ++ later, ?_, ?_⟩
      · rw [allocateRegions_written_mapped os rest endpage hfailed, hlater, mapRegion_written,
          List.append_assoc]
      · intro index hmem
        rcases List.mem_append.mp hmem with hmem | hmem
        · exact hhead index hmem
        · exact hinside index hmem

variable {os}

/-- While the pages of the regions exist, the loop gets to no region whose pages do not. -/
theorem Gets.exist {regions rest : List VmeRegion} {pgno pgno' : BitVec 32} {w w' : World σ}
    (h : Gets os regions pgno w rest pgno' w') (hpgno : pgno.toNat ≤ v120PageCount)
    (hexist : PagesExist pgno.toNat regions) :
    pgno'.toNat ≤ v120PageCount ∧ PagesExist pgno'.toNat rest := by
  induction h with
  | here => exact ⟨hpgno, hexist⟩
  | next hmapped _ ih =>
    obtain ⟨hfits, hnext, hrest⟩ := hexist.next hpgno hmapped
    exact ih (hnext ▸ hfits) hrest

end Loop

/-- An operating system that opens every device and maps whatever it is asked to. -/
def granting : Os Unit where
  openDevice _ _ s := (.ok 7, s)
  mmap _ _ _ s := (.ok 0x1000, s)
  malloc s := (true, s)
  munmap _ _ s := s
  close _ s := s
  controlMap _ _ _ := 0

/-- `granting` maps all pages, under any descriptor. -/
theorem granting_mapsPages : granting.MapsPages fun _ => True where
  opens _ _ := ⟨7, rfl, trivial⟩
  mmap _ _ _ _ _ _ := ⟨0x1000, rfl, by decide⟩
  malloc _ := rfl

/-- `granting` maps every region that fits. -/
theorem mapRegion_granting {region : VmeRegion} {pgno : BitVec 32} (hpgno : pgno.toNat ≤ v120PageCount)
    (hfits : region.FitsAt pgno.toNat) (w : World Unit) : (mapRegion granting region pgno w).1 ≠ null :=
  (mapRegion_mapsPages granting_mapsPages hpgno hfits (Or.inr trivial)).1

/-- When everything is granted and the loop still writes descriptors of the array only, the pages of the
regions exist. -/
theorem pagesExist_of_inside {regions : List VmeRegion} {pgno : BitVec 32}
    (hpgno : pgno.toNat ≤ v120PageCount) (endpage : BitVec 32) (w : World Unit)
    (h : ∀ later, (allocateRegions granting regions pgno endpage w).2.2.handle.pd.written =
      w.handle.pd.written ++ later → ∀ index ∈ later, IsDescriptor index) :
    PagesExist pgno.toNat regions := by
  induction regions generalizing pgno endpage w with
  | nil => trivial
  | cons head rest ih =>
    have hcount : v120PageCount = 8192 := rfl
    have hhead : ∀ index ∈ head.indices pgno, IsDescriptor index := by
      obtain ⟨later, hlater⟩ := allocateRegions_cons_written granting head rest pgno endpage w
      exact fun index hmem => h _ hlater index (List.mem_append_left _ hmem)
    have hrest (hmapped : (mapRegion granting head pgno w).1 ≠ null)
        (hnext : (pgno + head.npages).toNat ≤ v120PageCount) :
        PagesExist (pgno + head.npages).toNat rest := by
      refine ih hnext (pgno + head.npages - 1) (mapRegion granting head pgno w).2 fun later hlater => ?_
      have hwritten : (allocateRegions granting (head :: rest) pgno endpage w).2.2.handle.pd.written =
          w.handle.pd.written ++ (head.indices pgno ++ later) := by
        rw [allocateRegions_written_mapped granting rest endpage hmapped, hlater, mapRegion_written,
          List.append_assoc]
      exact fun index hmem => h _ hwritten index (List.mem_append_right _ hmem)
    have hcounted := head.toNat_npages_eq
    rw [PagesExist]
    by_cases hnone : head.npages.toNat = 0
    · rw [if_pos hnone]
      have hnext : (pgno + head.npages).toNat = pgno.toNat := by
        rw [BitVec.eq_of_toNat_eq (hnone.trans rfl : head.npages.toNat = (0 : BitVec 32).toNat)]
        exact congrArg BitVec.toNat (BitVec.add_zero pgno)
      by_cases hend : pgno.toNat = 0 ∨ pgno.toNat = v120PageCount
      · exact hend.imp_right Or.inl
      · have hbetween : head.FitsAt pgno.toNat := ⟨by omega, fun _ => not_or.mp hend⟩
        have hmapped := mapRegion_granting hpgno hbetween w
        exact Or.inr (Or.inr (hnext ▸ hrest hmapped (hnext ▸ hpgno)))
    · rw [if_neg hnone]
      -- the last page of the region was written
      have hlast : IsDescriptor (pgno.toNat + head.npages.toNat - 1 : ℕ) :=
        hhead _ ((head.mem_indices hpgno).mpr ⟨by omega, by omega⟩)
      have hfits : pgno.toNat + head.npages.toNat ≤ v120PageCount := by
        have hlt := hlast.2
        omega
      have hnext : (pgno + head.npages).toNat = pgno.toNat + head.npages.toNat := by
        rw [BitVec.toNat_add]
        exact Nat.mod_eq_of_lt (by omega)
      have hroom : head.FitsAt pgno.toNat := ⟨by omega, fun hzero => absurd (hcounted.trans hzero) hnone⟩
      have hmapped := mapRegion_granting hpgno hroom w
      exact ⟨hfits, hnext ▸ hrest hmapped (hnext ▸ hfits)⟩

variable {σ : Type*} (os : Os σ)

/-- A call with a start page that does not exist writes nothing. -/
theorem v120AllocateVme_refused {startPage : BitVec 32} (hstart : v120PageCount ≤ startPage.toNat)
    (uninitialised : BitVec 32) (w : World σ) :
    newWrites w (v120AllocateVme os uninitialised startPage w).2 = [] := by
  have hge : startPage ≥ 8192 := BitVec.le_def.mpr hstart
  rw [v120AllocateVme, if_pos hge]
  exact newWrites_eq (List.append_nil _).symm

/-- Any other call writes what the loop writes. -/
theorem v120AllocateVme_written {uninitialised startPage : BitVec 32}
    (hstart : startPage.toNat < v120PageCount) (w : World σ) :
    (v120AllocateVme os uninitialised startPage w).2.handle.pd.written =
      (allocateRegions os w.handle.listHead startPage uninitialised w).2.2.handle.pd.written := by
  have hlt : ¬ startPage ≥ 8192 := BitVec.not_le.mpr (BitVec.lt_def.mpr hstart)
  rw [v120AllocateVme, if_neg hlt]
  dsimp only
  split <;> rfl

/-- `v120_configure_page` writes the descriptor it was given the index of, unless it refuses. -/
theorem v120ConfigurePage_newWrites (idx : ℤ) (base : BitVec 64) (config : V120Pd) (w : World σ) :
    newWrites w (v120ConfigurePage os idx base config w).2 =
      if idx ≥ v120PageCount ∨ base % 0x4000 ≠ 0 then [] else [idx] := by
  rw [v120ConfigurePage]
  split_ifs with hrefused
  · exact newWrites_eq (List.append_nil _).symm
  · have hframe := v120AllocPages_frame os idx 1 (w.modify (·.configurePd idx base config))
    refine newWrites_eq ?_
    rw [hframe.pd]
    rfl

/-- A call with a start page that does not exist keeps to the array. -/
theorem allocatesInside_of_refused {startPage : BitVec 32} (hstart : v120PageCount ≤ startPage.toNat)
    (uninitialised : BitVec 32) (w : World σ) : AllocatesInside os uninitialised startPage w := by
  have hnone := v120AllocateVme_refused os hstart uninitialised w
  exact ⟨fun _ hmem => absurd (hnone ▸ hmem) List.not_mem_nil,
    fun _ _ _ _ _ _ _ hmem => absurd (hnone ▸ hmem) List.not_mem_nil⟩

/-- A call for regions whose pages exist keeps to the array. -/
theorem allocatesInside_of_pagesExist {startPage : BitVec 32} (hstart : startPage.toNat < v120PageCount)
    (uninitialised : BitVec 32) {w : World σ} (hexist : PagesExist startPage.toNat w.handle.listHead) :
    AllocatesInside os uninitialised startPage w := by
  obtain ⟨later, hlater, hinside⟩ :=
    allocateRegions_inside os (Nat.le_of_lt hstart) hexist uninitialised w
  have hnew := newWrites_eq ((v120AllocateVme_written os hstart w).trans hlater)
  refine ⟨hnew ▸ hinside, fun region rest pgno w' hgets hbeyond => ?_⟩
  -- the loop does not get to such a region
  obtain ⟨hpgno, hrest⟩ := hgets.exist (Nat.le_of_lt hstart) hexist
  rw [PagesExist] at hrest
  split_ifs at hrest with hnone
  · omega
  · exact absurd hrest.1 (Nat.not_le.mpr hbeyond)

/-- A page that is configured lies in the array, unless its index is negative. -/
theorem configuresInside_of_nonneg {idx : ℤ} {base : BitVec 64} (hidx : 0 ≤ idx ∨ base % 0x4000 ≠ 0)
    (config : V120Pd) (w : World σ) : ConfiguresInside os idx base config w := by
  constructor
  · intro index hmem
    rw [v120ConfigurePage_newWrites] at hmem
    split_ifs at hmem with hrefused
    · exact absurd hmem List.not_mem_nil
    · obtain rfl := List.mem_singleton.mp hmem
      rw [not_or] at hrefused
      exact ⟨hidx.resolve_right hrefused.2, Int.not_le.mp hrefused.1⟩
  · intro houtside
    rw [v120ConfigurePage_newWrites]
    split_ifs with hrefused
    · rfl
    · rw [not_or] at hrefused
      exact absurd ⟨hidx.resolve_right hrefused.2, Int.not_le.mp hrefused.1⟩ houtside

/-- A negative index is written. -/
theorem nonneg_of_configuresInside {idx : ℤ} {base : BitVec 64} {config : V120Pd} {w : World σ}
    (h : ConfiguresInside os idx base config w) : 0 ≤ idx ∨ base % 0x4000 ≠ 0 := by
  by_contra hneg
  rw [not_or, not_not, Int.not_le] at hneg
  have haccepted : ¬ (idx ≥ v120PageCount ∨ base % 0x4000 ≠ 0) := by
    rintro (hbig | hbase)
    · omega
    · exact hbase hneg.2
  have hinside := h.inside idx
  rw [v120ConfigurePage_newWrites, if_neg haccepted] at hinside
  have hlow := (hinside List.mem_cons_self).1
  omega

/-- **When only page descriptors are written.** `v120_allocate_vme` keeps to the descriptor array,
whatever the operating system answers, exactly when its start page does not exist or the pages of its
regions do; and `v120_configure_page` exactly when its index is not negative or its address is not the
start of a page. -/
theorem descriptor_writes_inside_iff (h : V120Handle) (startPage : BitVec 32) (idx : ℤ) (base : BitVec 64)
    (config : V120Pd) :
    ((∀ (σ : Type) (os : Os σ) (uninitialised : BitVec 32) (w : World σ), w.handle = h →
        AllocatesInside os uninitialised startPage w) ↔
      v120PageCount ≤ startPage.toNat ∨ PagesExist startPage.toNat h.listHead) ∧
    ((∀ (σ : Type) (os : Os σ) (w : World σ), w.handle = h → ConfiguresInside os idx base config w) ↔
      0 ≤ idx ∨ base % 0x4000 ≠ 0) := by
  refine ⟨⟨fun hinside => ?_, ?_⟩, ⟨fun hinside => ?_, ?_⟩⟩
  · refine (Nat.lt_or_ge startPage.toNat v120PageCount).symm.imp_right fun hstart => ?_
    have hcall := hinside Unit granting 0 ⟨h, 0, ()⟩ rfl
    refine pagesExist_of_inside (Nat.le_of_lt hstart) 0 ⟨h, 0, ()⟩ fun later hlater => ?_
    have hwritten := (v120AllocateVme_written granting hstart ⟨h, 0, ()⟩).trans hlater
    exact newWrites_eq hwritten ▸ hcall.inside
  · rintro hcond σ os uninitialised w rfl
    by_cases hstart : v120PageCount ≤ startPage.toNat
    · exact allocatesInside_of_refused os hstart uninitialised w
    · exact allocatesInside_of_pagesExist os (Nat.lt_of_not_le hstart) uninitialised
        (hcond.resolve_left hstart)
  · exact nonneg_of_configuresInside granting (hinside Unit granting ⟨h, 0, ()⟩ rfl)
  · rintro hcond σ os w rfl
    exact configuresInside_of_nonneg os hcond config w

/-- A region of two pages from page 8191 on is refused, after its descriptors were written: the last page,
and the first configuration register. The index -1 is accepted. -/
theorem descriptor_writes_outside :
    let w : World AddressSpace := ⟨openHandle [⟨0, 0, 0, 0, 0x8000, 0x25⟩], 0, AddressSpace.empty⟩
    (v120AllocateVme AddressSpace.system 0 8191 w).1 = -1 ∧
      newWrites w (v120AllocateVme AddressSpace.system 0 8191 w).2 = [8191, 8192] ∧
      newWrites w (v120ConfigurePage AddressSpace.system (-1) 0 0x25 w).2 = [-1] := by
  decide +kernel

end V120.Vme
