import V120.Vme.Releases

/-!
# What the open handles hold

An open handle holds the descriptors of its devices, its control map and the areas in its list. A process may
have several handles open at a time, make any calls on them, close them and go from one to the next: what the
operating system gave out and did not get back is at any time what these handles hold.
-/

namespace V120.Vme

open V120.Common

/-- What the operating system gives out: a descriptor, or an area of memory. -/
inductive Resource where
  | descriptor (fd : ℤ)
  | area (item : VmeMmlist)
  deriving DecidableEq

/-- Something is given out, or taken back. -/
abbrev ResourceEvent := LedgerEvent Resource

variable {σ : Type*}

/-- An operating system that writes down what it gives out and takes back. -/
def Os.accounted (os : Os σ) : Os (σ × List ResourceEvent) where
  openDevice device crateno s :=
    match os.openDevice device crateno s.1 with
    | (.ok fd, outside) => (.ok fd, (outside, s.2 ++ [.acquire (.descriptor fd)]))
    | (.error errno, outside) => (.error errno, (outside, s.2))
  mmap size fd offset s :=
    match os.mmap size fd offset s.1 with
    | (.ok ptr, outside) => (.ok ptr, (outside, s.2 ++ [.acquire (.area ⟨ptr, size⟩)]))
    | (.error errno, outside) => (.error errno, (outside, s.2))
  malloc s := ((os.malloc s.1).1, ((os.malloc s.1).2, s.2))
  munmap ptr size s := (os.munmap ptr size s.1, s.2 ++ [.release (.area ⟨ptr, size⟩)])
  close fd s := (os.close fd s.1, s.2 ++ [.release (.descriptor fd)])
  controlMap ptr s := os.controlMap ptr s.1

/-- What a handle holds, in the order in which `v120_close` gives it back. -/
def V120Handle.resources (h : V120Handle) : List Resource :=
  h.mmlist.map .area ++ (if h.mapptr ≠ null then [.area ⟨h.mapptr, v120MmapSize⟩] else []) ++
    .descriptor h.fdCtrl :: if h.fdVme ≥ 0 then [.descriptor h.fdVme] else []

/-- What was given out and not taken back. -/
def Holds (s : σ × List ResourceEvent) (holding : Multiset Resource) : Prop := held s.2 0 = some holding

section Events

variable {s s' : σ × List ResourceEvent} {holding : Multiset Resource} {r : Resource}

/-- Something is given out. -/
theorem Holds.acquire (h : Holds s holding) (hlog : s'.2 = s.2 ++ [.acquire r]) : Holds s' (r ::ₘ holding) := by
  rw [Holds, hlog, held_append, h, Option.bind_some, held, held]

/-- Something is taken back. -/
theorem Holds.release (h : Holds s (r ::ₘ holding)) (hlog : s'.2 = s.2 ++ [.release r]) : Holds s' holding := by
  rw [Holds, hlog, held_append, h, Option.bind_some, held, if_pos (Multiset.mem_cons_self r holding),
    Multiset.erase_cons_head, held]

/-- A list of things is taken back. -/
theorem Holds.releases {l : List Resource} (h : Holds s (l + holding))
    (hlog : s'.2 = s.2 ++ l.map LedgerEvent.release) : Holds s' holding := by
  rw [Holds, hlog, held_append, h, Option.bind_some, held_releases]

/-- Nothing is written down. -/
theorem Holds.same (h : Holds s holding) (hlog : s'.2 = s.2) : Holds s' holding := by
  rw [Holds, hlog]
  exact h

end Events

/-- Handles that hold the same. -/
structure SameResources (h h' : V120Handle) : Prop where
  fdCtrl : h'.fdCtrl = h.fdCtrl
  fdVme : h'.fdVme = h.fdVme
  mapptr : h'.mapptr = h.mapptr
  mmlist : h'.mmlist = h.mmlist
  crateno : h'.crateno = h.crateno

/-- Handles with the same descriptors, mappings and lists hold the same resources. -/
theorem SameResources.resources {h h' : V120Handle} (hsame : SameResources h h') :
    h'.resources = h.resources := by
  rw [V120Handle.resources, V120Handle.resources, hsame.fdCtrl, hsame.fdVme, hsame.mapptr, hsame.mmlist]

/-- The descriptors of pages are not held. -/
theorem SameResources.setPd (h : V120Handle) (pd : Memory ℤ V120Pd) : SameResources h (h.setPd pd) :=
  ⟨rfl, rfl, rfl, rfl, rfl⟩

section Relates

variable {os : Os σ} {R : World σ → World σ → Prop}

/-- The calls on a handle are made of allocations, so a relation that these keep, with what changes nothing in what
is held, is kept by every call. -/
structure Os.Relates (os : Os σ) (R : World σ → World σ → Prop) : Prop where
  same : ∀ w w', w'.outside = w.outside → SameResources w.handle w'.handle → R w w'
  trans : ∀ w w' w'', R w w' → R w' w'' → R w w''
  allocPages : ∀ pageno npages w, R w (v120AllocPages os pageno npages w).2

namespace Os.Relates

variable (h : os.Relates R)

include h

/-- `v120_get_vme`. -/
theorem getVme (startPage endPage : ℤ) (w : World σ) : R w (v120GetVme os startPage endPage w).2 := by
  rw [v120GetVme_eq]
  split_ifs
  · exact h.same _ _ rfl ⟨rfl, rfl, rfl, rfl, rfl⟩
  · exact h.allocPages _ _ w

/-- `v120_configure_page`. -/
theorem configurePage (idx : ℤ) (base : BitVec 64) (config : V120Pd) (w : World σ) :
    R w (v120ConfigurePage os idx base config w).2 := by
  unfold v120ConfigurePage
  split_ifs
  · exact h.same _ _ rfl ⟨rfl, rfl, rfl, rfl, rfl⟩
  · have hconfigured : R w (w.modify (·.configurePd idx base config)) :=
      h.same _ _ rfl (.setPd w.handle (w.handle.pd.store idx (descriptor config base)))
    exact h.trans _ _ _ hconfigured (h.allocPages idx 1 (w.modify (·.configurePd idx base config)))

/-- The descriptors of pages are stored. -/
theorem setPd (w : World σ) (pd : Memory ℤ V120Pd) : R w (w.modify (·.setPd pd)) :=
  h.same w _ rfl (.setPd w.handle pd)

/-- A region is mapped. -/
theorem mapRegion (region : VmeRegion) (pgno : BitVec 32) (w : World σ) : R w (mapRegion os region pgno w).2 := by
  rw [mapRegion_snd]
  exact h.trans _ _ _ (h.getVme _ _ w) (h.setPd _ _)

/-- The loop over the regions. -/
theorem allocateRegions (regions : List VmeRegion) (pgno endpage : BitVec 32) (w : World σ) :
    R w (allocateRegions os regions pgno endpage w).2.2 := by
  induction regions generalizing pgno endpage w with
  | nil => exact h.same _ _ rfl ⟨rfl, rfl, rfl, rfl, rfl⟩
  | cons head rest ih =>
    have hhead := h.mapRegion head pgno w
    rw [Vme.allocateRegions]
    dsimp only
    split_ifs
    · exact hhead
    · exact h.trans _ _ _ hhead (ih _ _ _)

/-- `v120_allocate_vme`. -/
theorem allocateVme (uninitialised startPage : BitVec 32) (w : World σ) :
    R w (v120AllocateVme os uninitialised startPage w).2 := by
  have hloop := h.allocateRegions w.handle.listHead startPage uninitialised w
  unfold v120AllocateVme
  split_ifs
  · exact h.same _ _ rfl ⟨rfl, rfl, rfl, rfl, rfl⟩
  · generalize Vme.allocateRegions os w.handle.listHead startPage uninitialised w = placed at hloop ⊢
    obtain ⟨_ | next, regions, w'⟩ := placed
    · exact h.trans _ _ _ hloop (h.same _ _ rfl ⟨rfl, rfl, rfl, rfl, rfl⟩)
    · exact h.trans _ _ _ hloop (h.same _ _ rfl ⟨rfl, rfl, rfl, rfl, rfl⟩)

/-- Every call. -/
theorem run (call : Call) (w : World σ) : R w (call.run os w) := by
  cases call with
  | addVmeRegion region => exact h.same _ _ rfl ⟨rfl, rfl, rfl, rfl, rfl⟩
  | deleteVmeList => exact h.same _ _ rfl ⟨rfl, rfl, rfl, rfl, rfl⟩
  | getVme startPage endPage => exact h.getVme startPage endPage w
  | getAllVme => exact h.allocPages 0 v120PageCount w
  | configurePage idx base config => exact h.configurePage idx base config w
  | allocateVme uninitialised startPage => exact h.allocateVme uninitialised startPage w

end Os.Relates

end Relates

/-- A stretch of calls on a handle, in which what is held beside it stays held. -/
structure KeepsAccount (w w' : World (σ × List ResourceEvent)) : Prop where
  crateno : w'.handle.crateno = w.handle.crateno
  holds : ∀ others : Multiset Resource, Holds w.outside (w.handle.resources + others) →
    Holds w'.outside (w'.handle.resources + others)

namespace KeepsAccount

/-- Nothing that is held changed. -/
theorem same {w w' : World (σ × List ResourceEvent)} (houtside : w'.outside.2 = w.outside.2)
    (hsame : SameResources w.handle w'.handle) : KeepsAccount w w' :=
  ⟨hsame.crateno, fun others h => by
    rw [hsame.resources]
    exact h.same houtside⟩

/-- One stretch after another. -/
theorem trans {w w' w'' : World (σ × List ResourceEvent)} (h : KeepsAccount w w') (h' : KeepsAccount w' w'') :
    KeepsAccount w w'' :=
  ⟨h'.crateno.trans h.crateno, fun others hholds => h'.holds others (h.holds others hholds)⟩

end KeepsAccount

/-- A device that was not open, and is now. -/
theorem V120Handle.resources_opened {h : V120Handle} (hclosed : h.fdVme < 0) (fd : ℕ) :
    ({ h with fdVme := fd } : V120Handle).resources = h.resources ++ [.descriptor fd] := by
  have hopened : ((fd : ℤ) ≥ 0) := Int.natCast_nonneg fd
  rw [V120Handle.resources, V120Handle.resources, if_pos hopened, if_neg (Int.not_le.mpr hclosed),
    List.append_assoc _ [_] [_]]
  rfl

/-- A device that was not open, and is not open yet. -/
theorem V120Handle.resources_notOpened {h : V120Handle} (hclosed : h.fdVme < 0) :
    ({ h with fdVme := -1 } : V120Handle).resources = h.resources := by
  have hnone : ¬((-1 : ℤ) ≥ 0) := by decide
  rw [V120Handle.resources, V120Handle.resources, if_neg hnone, if_neg (Int.not_le.mpr hclosed)]

/-- An area that is put in the list. -/
theorem V120Handle.resources_added (h : V120Handle) (item : VmeMmlist) :
    ({ h with mmlist := item :: h.mmlist } : V120Handle).resources = .area item :: h.resources := rfl

variable {os : Os σ}

variable (os) in
/-- Opening the VME device gives its descriptor to the handle, unless it has one already. -/
theorem openVme_keepsAccount (w : World (σ × List ResourceEvent)) : KeepsAccount w (openVme os.accounted w).2 := by
  unfold openVme
  by_cases hclosed : w.handle.fdVme < 0
  · rw [if_pos hclosed, World.openDevice, Os.accounted]
    dsimp only
    generalize os.openDevice .vme w.handle.crateno w.outside.1 = answer
    obtain ⟨errno | fd, outside⟩ := answer
    · refine ⟨rfl, fun others h => ?_⟩
      change Holds _ (↑({ w.handle with fdVme := -1 } : V120Handle).resources + others)
      rw [V120Handle.resources_notOpened hclosed]
      exact h.same rfl
    · dsimp only
      rw [if_neg (Int.not_lt.mpr (Int.natCast_nonneg fd))]
      refine ⟨rfl, fun others h => ?_⟩
      have hgiven : Holds (outside, w.outside.2 ++ [.acquire (.descriptor fd)]) _ := h.acquire rfl
      change Holds _ (↑({ w.handle with fdVme := fd } : V120Handle).resources + others)
      rw [V120Handle.resources_opened hclosed, ← Multiset.coe_add, Multiset.coe_singleton, Multiset.add_comm _ {_},
        Multiset.singleton_add, Multiset.cons_add]
      exact hgiven
  · rw [if_neg hclosed]
    exact .same rfl ⟨rfl, rfl, rfl, rfl, rfl⟩

/-- `mmap` writes down the area it returns, or fails. -/
theorem mmap_accounted (hpointers : os.MapsPointers) (size : ℕ) (fd : ℤ) (offset : ℕ)
    (w : World (σ × List ResourceEvent)) :
    (((w.mmap os.accounted size fd offset).1 = null ∨ (w.mmap os.accounted size fd offset).1 = mapFailed) →
      KeepsAccount w (w.mmap os.accounted size fd offset).2) ∧
    (¬((w.mmap os.accounted size fd offset).1 = null ∨ (w.mmap os.accounted size fd offset).1 = mapFailed) →
      (w.mmap os.accounted size fd offset).2.handle = w.handle ∧
        (w.mmap os.accounted size fd offset).2.outside.2 =
          w.outside.2 ++ [.acquire (.area ⟨(w.mmap os.accounted size fd offset).1, size⟩)]) := by
  have hpointer := hpointers size fd offset w.outside.1
  rw [World.mmap, Os.accounted]
  dsimp only
  generalize os.mmap size fd offset w.outside.1 = answer at hpointer ⊢
  obtain ⟨errno | ptr, outside⟩ := answer
  · exact ⟨fun _ => .same rfl ⟨rfl, rfl, rfl, rfl, rfl⟩, fun hsome => absurd (Or.inr rfl) hsome⟩
  · exact ⟨fun hfailed => absurd hfailed (not_or.mpr (hpointer ptr rfl)), fun _ => ⟨rfl, rfl⟩⟩

variable (os) in
/-- An area that was mapped is put in the list, or there is no memory for an item and it is unmapped. -/
theorem addToMmList_keepsAccount {w w' : World (σ × List ResourceEvent)} {ptr : Pointer} {size : ℕ}
    (hhandle : w'.handle = w.handle) (hlog : w'.outside.2 = w.outside.2 ++ [.acquire (.area ⟨ptr, size⟩)]) :
    KeepsAccount w
      (let added := v120AddToMmList os.accounted ptr size w'
        if added.1 < 0 then
          { added.2 with outside := os.accounted.munmap ptr size added.2.outside }.setErrno enomem
        else added.2) := by
  have hcrateno : w'.handle.crateno = w.handle.crateno := congrArg V120Handle.crateno hhandle
  rw [v120AddToMmList, Os.accounted]
  dsimp only
  cases (os.malloc w'.outside.1).1 with
  | true =>
    rw [if_pos rfl, if_neg (Int.lt_irrefl 0)]
    refine ⟨hcrateno, fun others h => ?_⟩
    change Holds _ (↑({ w'.handle with mmlist := ⟨ptr, size⟩ :: w'.handle.mmlist } : V120Handle).resources + others)
    rw [V120Handle.resources_added, hhandle, ← Multiset.cons_coe, Multiset.cons_add]
    exact h.acquire hlog
  | false =>
    rw [if_neg Bool.false_ne_true, if_pos (show (-1 : ℤ) < 0 by decide)]
    refine ⟨hcrateno, fun others h => ?_⟩
    change Holds _ (↑w'.handle.resources + others)
    rw [hhandle]
    exact (h.acquire hlog).release rfl

/-- `v120_alloc_pages` puts the area it maps in the list, or gives it back. -/
theorem v120AllocPages_keepsAccount (hpointers : os.MapsPointers) (pageno npages : ℤ)
    (w : World (σ × List ResourceEvent)) : KeepsAccount w (v120AllocPages os.accounted pageno npages w).2 := by
  unfold v120AllocPages
  split_ifs with hpageno hnpages
  · exact .same rfl ⟨rfl, rfl, rfl, rfl, rfl⟩
  · exact .same rfl ⟨rfl, rfl, rfl, rfl, rfl⟩
  · have hopen := openVme_keepsAccount os w
    dsimp only
    generalize openVme os.accounted w = opened at hopen ⊢
    obtain ⟨fine, w'⟩ := opened
    cases fine with
    | false => exact hopen
    | true =>
      rw [if_pos rfl]
      obtain ⟨hfailure, hsuccess⟩ := mmap_accounted hpointers (v120PageSize * npages.toNat)
        w'.handle.fdVme (v120PageSize * pageno.toNat) w'
      generalize w'.mmap os.accounted _ _ _ = mapped at hfailure hsuccess ⊢
      apply hopen.trans
      by_cases hfailed : mapped.1 = null ∨ mapped.1 = mapFailed
      · rw [if_pos hfailed]
        exact (hfailure hfailed).trans (.same rfl ⟨rfl, rfl, rfl, rfl, rfl⟩)
      · rw [if_neg hfailed]
        obtain ⟨hhandle, hlog⟩ := hsuccess hfailed
        have hadded := addToMmList_keepsAccount os hhandle hlog
        dsimp only at hadded
        split_ifs at hadded ⊢
        · exact hadded
        · exact hadded

/-- Every call on a handle keeps the account. -/
theorem relates_keepsAccount (hpointers : os.MapsPointers) : os.accounted.Relates KeepsAccount where
  same _ _ houtside hsame := .same (congrArg Prod.snd houtside) hsame
  trans _ _ _ h h' := h.trans h'
  allocPages := v120AllocPages_keepsAccount hpointers

/-- What a call holds that may have opened a crate. -/
def openedResources (opened : Option V120Handle) : List Resource := opened.toList.flatMap V120Handle.resources

/-- A crate that opens holds its descriptor and its control map, and one that does not open holds nothing. -/
theorem v120Open_holds (hpointers : os.MapsPointers) (unitId : ℤ) {u : Unopened (σ × List ResourceEvent)}
    {others : Multiset Resource} (h : Holds u.outside others) :
    Holds (v120Open os.accounted unitId u).2.outside
      (openedResources (v120Open os.accounted unitId u).1 + others) := by
  have hnone {s : σ × List ResourceEvent} (hs : Holds s others) : Holds s (openedResources none + others) := by
    rw [openedResources, Option.toList_none, List.flatMap_nil, Multiset.coe_nil, Multiset.zero_add]
    exact hs
  unfold v120Open
  split_ifs with hunit
  · exact hnone h
  · rw [Os.accounted]
    dsimp only
    split_ifs with hgranted
    · generalize os.openDevice .ctrl unitId (os.malloc u.outside.1).2 = answer
      obtain ⟨errno | fd, outside⟩ := answer
      · exact hnone (h.same rfl)
      · dsimp only
        have hopened : Holds (outside, u.outside.2 ++ [.acquire (.descriptor fd)]) _ := h.acquire rfl
        have hpointer := hpointers v120MmapSize fd 0 outside
        generalize os.mmap v120MmapSize fd 0 outside = answer at hpointer ⊢
        obtain ⟨errno | ptr, outside'⟩ := answer
        · exact hnone (hopened.release rfl)
        · obtain ⟨hptr, hmap⟩ := hpointer ptr rfl
          dsimp only
          rw [if_neg (not_or.mpr ⟨hptr, hmap⟩)]
          have hmapped : Holds (outside',
              u.outside.2 ++ [.acquire (.descriptor fd)] ++ [.acquire (.area ⟨ptr, v120MmapSize⟩)]) _ :=
            hopened.acquire (r := .area ⟨ptr, v120MmapSize⟩) rfl
          rw [openedResources, Option.toList_some, List.flatMap_singleton, V120Handle.resources, if_pos hptr,
            if_neg (show ¬((-1 : ℤ) ≥ 0) by decide)]
          rw [← Multiset.zero_add others, ← Multiset.cons_add, ← Multiset.cons_add] at hmapped
          exact hmapped
    · exact hnone (h.same rfl)

variable (os) in
/-- Unmapping the areas of a list is written down in order. -/
theorem munmap_accounted (items : List VmeMmlist) (s : σ × List ResourceEvent) :
    (items.foldl (fun s item => os.accounted.munmap item.ptr item.size s) s).2 =
      s.2 ++ (items.map Resource.area).map LedgerEvent.release := by
  induction items generalizing s with
  | nil => exact (List.append_nil _).symm
  | cons item items ih =>
    rw [List.foldl_cons, ih, List.map_cons, List.map_cons]
    exact List.append_assoc _ _ _

variable (os) in
/-- `v120_close` gives back what the handle holds. -/
theorem v120Close_accounted (h : V120Handle) (u : Unopened (σ × List ResourceEvent)) :
    (v120Close os.accounted h u).outside.2 = u.outside.2 ++ h.resources.map LedgerEvent.release := by
  have hitems := munmap_accounted os h.mmlist u.outside
  unfold v120Close V120Handle.resources
  dsimp only
  generalize h.mmlist.foldl (fun s item => os.accounted.munmap item.ptr item.size s) u.outside = s at hitems ⊢
  have hmap : (if h.mapptr ≠ null then os.accounted.munmap h.mapptr v120MmapSize s else s).2 =
      s.2 ++ (if h.mapptr ≠ null then [.area ⟨h.mapptr, v120MmapSize⟩] else []).map LedgerEvent.release := by
    split_ifs
    · rfl
    · exact (List.append_nil _).symm
  generalize (if h.mapptr ≠ null then os.accounted.munmap h.mapptr v120MmapSize s else s) = s' at hmap ⊢
  have hclosed (s : σ × List ResourceEvent) :
      (if h.fdVme ≥ 0 then os.accounted.close h.fdVme s else s).2 =
        s.2 ++ (if h.fdVme ≥ 0 then [.descriptor h.fdVme] else []).map LedgerEvent.release := by
    split_ifs
    · rfl
    · exact (List.append_nil _).symm
  rw [hclosed, List.map_append, List.map_append, List.map_cons, ← List.append_assoc, ← List.append_assoc, ← hitems,
    ← hmap]
  exact List.append_assoc _ [_] _

variable (os) in
/-- What is held beside a handle is still held when it is closed. -/
theorem v120Close_holds {h : V120Handle} {u : Unopened (σ × List ResourceEvent)} {others : Multiset Resource}
    (hholds : Holds u.outside (h.resources + others)) : Holds (v120Close os.accounted h u).outside others :=
  hholds.releases (v120Close_accounted os h u)

/-- The crates that are tried in vain hold nothing. -/
theorem nextCrate_holds (hpointers : os.MapsPointers) (left : ℕ) {u : Unopened (σ × List ResourceEvent)}
    {others : Multiset Resource} (h : Holds u.outside others) :
    Holds (nextCrate os.accounted left u).2.outside
      (openedResources (nextCrate os.accounted left u).1 + others) := by
  induction left generalizing u with
  | zero =>
    change Holds u.outside (0 + others)
    rw [Multiset.zero_add]
    exact h
  | succ left ih =>
    have htried := v120Open_holds hpointers (15 - left) h
    rw [nextCrate]
    cases hopened : (v120Open os.accounted (15 - left) u).1 with
    | some opened =>
      rw [hopened] at htried
      exact htried
    | none =>
      rw [hopened] at htried
      change Holds _ (0 + others) at htried
      rw [Multiset.zero_add] at htried
      exact ih htried

/-- `v120_next` gives back what its handle holds. -/
theorem v120Next_holds (hpointers : os.MapsPointers) (hV120 : Option V120Handle)
    {u : Unopened (σ × List ResourceEvent)} {others : Multiset Resource}
    (h : Holds u.outside (openedResources hV120 + others)) :
    Holds (v120Next os.accounted hV120 u).2.outside
      (openedResources (v120Next os.accounted hV120 u).1 + others) := by
  cases hV120 with
  | none =>
    change Holds u.outside (0 + others) at h
    rw [Multiset.zero_add] at h
    exact nextCrate_holds hpointers 16 h
  | some handle =>
    rw [openedResources, Option.toList_some, List.flatMap_singleton] at h
    exact nextCrate_holds hpointers _ (v120Close_holds os h)

/-- The operating system leaves a part of the outside alone. -/
structure Os.KeepsView {ρ : Type*} (os : Os σ) (view : σ → ρ) : Prop where
  openDevice : ∀ device crateno s, view (os.openDevice device crateno s).2 = view s
  mmap : ∀ size fd offset s, view (os.mmap size fd offset s).2 = view s
  malloc : ∀ s, view (os.malloc s).2 = view s
  munmap : ∀ ptr size s, view (os.munmap ptr size s) = view s
  close : ∀ fd s, view (os.close fd s) = view s

section Views

variable {ρ : Type*} {view : σ → ρ}

/-- A view that the calls keep is kept with their account written down beside it. -/
theorem Os.KeepsView.accounted (hview : os.KeepsView view) :
    os.accounted.KeepsView (fun s : σ × List ResourceEvent => view s.1) where
  openDevice device crateno s := by
    rw [← hview.openDevice device crateno s.1, Os.accounted]
    dsimp only
    generalize os.openDevice device crateno s.1 = answer
    obtain ⟨errno | fd, outside⟩ := answer
    · rfl
    · rfl
  mmap size fd offset s := by
    rw [← hview.mmap size fd offset s.1, Os.accounted]
    dsimp only
    generalize os.mmap size fd offset s.1 = answer
    obtain ⟨errno | ptr, outside⟩ := answer
    · rfl
    · rfl
  malloc s := hview.malloc s.1
  munmap ptr size s := hview.munmap ptr size s.1
  close fd s := hview.close fd s.1

/-- `v120_open` leaves it alone. -/
theorem v120Open_view (hview : os.KeepsView view) (unitId : ℤ) (u : Unopened σ) :
    view (v120Open os unitId u).2.outside = view u.outside := by
  unfold v120Open
  split_ifs
  · rfl
  · dsimp only
    split_ifs
    · rw [← hview.malloc u.outside, ← hview.openDevice .ctrl unitId (os.malloc u.outside).2]
      generalize os.openDevice .ctrl unitId (os.malloc u.outside).2 = answer
      obtain ⟨errno | fd, outside⟩ := answer
      · rfl
      · dsimp only
        rw [← hview.mmap v120MmapSize fd 0 outside]
        generalize os.mmap v120MmapSize fd 0 outside = answer
        obtain ⟨errno | ptr, outside'⟩ := answer
        · exact hview.close _ _
        · dsimp only
          split_ifs
          · exact hview.close _ _
          · rfl
    · exact hview.malloc u.outside

/-- `v120_close` leaves a view alone that the calls keep. -/
theorem v120Close_view (hview : os.KeepsView view) (h : V120Handle) (u : Unopened σ) :
    view (v120Close os h u).outside = view u.outside := by
  have hitems (s : σ) : view (h.mmlist.foldl (fun s item => os.munmap item.ptr item.size s) s) = view s := by
    induction h.mmlist generalizing s with
    | nil => rfl
    | cons item items ih => exact (ih _).trans (hview.munmap _ _ _)
  unfold v120Close
  dsimp only
  split_ifs
  · rw [hview.close, hview.close, hview.munmap, hitems]
  · rw [hview.close, hview.close, hitems]
  · rw [hview.close, hview.munmap, hitems]
  · rw [hview.close, hitems]

/-- Trying the crates leaves a view alone that the calls keep. -/
theorem nextCrate_view (hview : os.KeepsView view) (left : ℕ) (u : Unopened σ) :
    view (nextCrate os left u).2.outside = view u.outside := by
  induction left generalizing u with
  | zero => rfl
  | succ left ih =>
    have htried := v120Open_view hview (15 - left) u
    rw [nextCrate]
    cases hopened : (v120Open os (15 - left) u).1 with
    | some h => exact htried
    | none => exact (ih _).trans htried

/-- `v120_next` leaves it alone. -/
theorem v120Next_view (hview : os.KeepsView view) (hV120 : Option V120Handle) (u : Unopened σ) :
    view (v120Next os hV120 u).2.outside = view u.outside := by
  cases hV120 with
  | none => exact nextCrate_view hview 16 u
  | some h => exact (nextCrate_view hview _ _).trans (v120Close_view hview h u)

end Views

/-- A process that uses the library: its open handles, `errno` and the outside. -/
structure LibraryUser (σ : Type*) where
  handles : List V120Handle
  errno : ℤ
  outside : σ

/-- What a process does with the library: it opens a crate, goes on to the next one with a handle or without,
closes a handle, or makes a call on one. -/
inductive LibraryOp where
  | openCrate (unitId : ℤ)
  | first
  | next (i : ℕ)
  | close (i : ℕ)
  | call (i : ℕ) (call : Call)

namespace LibraryUser

/-- The process has a handle more, if a crate was opened. -/
def opened (p : LibraryUser σ) (result : Option V120Handle × Unopened σ) : LibraryUser σ :=
  ⟨result.1.toList ++ p.handles, result.2.errno, result.2.outside⟩

/-- The process without one of its handles, which something else was done with. -/
def without (p : LibraryUser σ) (i : ℕ) : LibraryUser σ := { p with handles := p.handles.eraseIdx i }

/-- What an operation does. There is nothing to do it with when there is no such handle. -/
def step (os : Os σ) (p : LibraryUser σ) (op : LibraryOp) : LibraryUser σ :=
  match op with
  | .openCrate unitId => p.opened (v120Open os unitId ⟨p.errno, p.outside⟩)
  | .first => p.opened (v120Next os none ⟨p.errno, p.outside⟩)
  | .next i =>
    match p.handles[i]? with
    | none => p
    | some h => (p.without i).opened (v120Next os (some h) ⟨p.errno, p.outside⟩)
  | .close i =>
    match p.handles[i]? with
    | none => p
    | some h => (p.without i).opened (none, v120Close os h ⟨p.errno, p.outside⟩)
  | .call i call =>
    match p.handles[i]? with
    | none => p
    | some h =>
      let w := call.run os ⟨h, p.errno, p.outside⟩
      ⟨p.handles.set i w.handle, w.errno, w.outside⟩

/-- One operation after another. -/
def run (os : Os σ) (p : LibraryUser σ) (ops : List LibraryOp) : LibraryUser σ := ops.foldl (step os) p

/-- What the open handles hold is what was given out and not taken back. -/
def Accounted (p : LibraryUser (σ × List ResourceEvent)) : Prop :=
  Holds p.outside (p.handles.flatMap V120Handle.resources)

/-- What a handle holds, and what the others hold. -/
theorem resources_perm {handles : List V120Handle} {i : ℕ} {h : V120Handle} (hi : handles[i]? = some h) :
    ((handles.flatMap V120Handle.resources : List Resource) : Multiset Resource) =
      h.resources + (handles.eraseIdx i).flatMap V120Handle.resources := by
  obtain ⟨hless, rfl⟩ := List.getElem?_eq_some_iff.mp hi
  have hperm := (List.getElem_cons_eraseIdx_perm hless).flatMap_right V120Handle.resources
  rw [Multiset.coe_add, Multiset.coe_eq_coe]
  exact hperm.symm

/-- What a handle holds that took the place of another, and what the others hold. -/
theorem resources_set {handles : List V120Handle} {i : ℕ} (hi : i < handles.length) (h : V120Handle) :
    (((handles.set i h).flatMap V120Handle.resources : List Resource) : Multiset Resource) =
      h.resources + (handles.eraseIdx i).flatMap V120Handle.resources := by
  have hperm := (List.set_perm_cons_eraseIdx hi h).flatMap_right V120Handle.resources
  rw [Multiset.coe_add, Multiset.coe_eq_coe]
  exact hperm

/-- The handle that was opened is one more. -/
theorem Accounted.opened {p : LibraryUser (σ × List ResourceEvent)}
    {result : Option V120Handle × Unopened (σ × List ResourceEvent)}
    (h : Holds result.2.outside (openedResources result.1 + p.handles.flatMap V120Handle.resources)) :
    (p.opened result).Accounted := by
  rw [Multiset.coe_add, openedResources, ← List.flatMap_append] at h
  exact h

/-- **Every operation keeps the account.** -/
theorem Accounted.step (hpointers : os.MapsPointers) {p : LibraryUser (σ × List ResourceEvent)} (h : p.Accounted)
    (op : LibraryOp) : (p.step os.accounted op).Accounted := by
  cases op with
  | openCrate unitId => exact .opened (v120Open_holds hpointers unitId (u := ⟨p.errno, p.outside⟩) h)
  | first => exact .opened (nextCrate_holds hpointers 16 (u := ⟨p.errno, p.outside⟩) h)
  | next i =>
    rw [LibraryUser.step]
    cases hi : p.handles[i]? with
    | none => exact h
    | some handle =>
      rw [Accounted, resources_perm hi] at h
      apply Accounted.opened
      apply nextCrate_holds hpointers
      exact v120Close_holds os h
  | close i =>
    rw [LibraryUser.step]
    cases hi : p.handles[i]? with
    | none => exact h
    | some handle =>
      rw [Accounted, resources_perm hi] at h
      exact v120Close_holds os (u := ⟨p.errno, p.outside⟩) h
  | call i call =>
    rw [LibraryUser.step]
    cases hi : p.handles[i]? with
    | none => exact h
    | some handle =>
      obtain ⟨hless, -⟩ := List.getElem?_eq_some_iff.mp hi
      rw [Accounted, resources_perm hi] at h
      have hkept := ((relates_keepsAccount hpointers).run call ⟨handle, p.errno, p.outside⟩).holds _ h
      rw [Accounted, resources_set hless]
      exact hkept

/-- **Nothing is lost and nothing is given back twice.** Whatever a process does with the library, whatever crates
it has open at a time, and whatever the operating system answers, what was given out and not taken back is at any
time what the open handles hold: so every descriptor and every area has been given back once when no handle is
open. -/
theorem run_accounted (hpointers : os.MapsPointers) (errno : ℤ) (outside : σ) (ops : List LibraryOp) :
    let p := run os.accounted ⟨[], errno, (outside, [])⟩ ops
    held p.outside.2 0 = some (p.handles.flatMap V120Handle.resources : List Resource) ∧
      (p.handles = [] → Balanced p.outside.2) := by
  intro p
  have haccounted : p.Accounted := by
    change (ops.foldl (LibraryUser.step os.accounted) _).Accounted
    induction ops using List.reverseRecOn with
    | nil => exact rfl
    | append_singleton ops op ih =>
      rw [List.foldl_append]
      exact Accounted.step hpointers ih op
  refine ⟨haccounted, fun hnone => ?_⟩
  rw [Accounted, hnone] at haccounted
  exact haccounted

/-- Two crates are open at a time, and memory fails for every other item: everything was given back. -/
theorem run_accounted_sparing :
    Balanced (run sparing.accounted ⟨[], 0, (0, [])⟩
      [.openCrate 3, .first, .call 0 (.getVme 0 1), .next 0, .call 1 .getAllVme, .close 1, .close 0]).outside.2 := by
  have hpointers : sparing.MapsPointers := by
    intro size fd offset s ptr hptr
    obtain rfl := Except.ok.inj hptr
    decide
  exact (run_accounted hpointers 0 0 _).2 rfl

end LibraryUser

end V120.Vme
