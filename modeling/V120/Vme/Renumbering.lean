import V120.Vme.Crates

/-!
# Crates under another number

What the library does with a crate does not depend on the number of the crate, but for the crates of
lower numbers that `v120_next` tries in vain: in two systems in which the same crate has two numbers, the
calls have the same results, and what they leave differs in the number of the crate and in `errno`.
-/

namespace V120.Vme

/-- `ENOENT`. -/
def enoent : ℤ := 2

section Systems

variable {σ : Type*}

/-- Two systems that differ in the numbers of the crates: number `n'` of the one is number `n` of the
other. -/
structure Os.Renumbered (os os' : Os σ) (n n' : ℤ) : Prop where
  openDevice : ∀ device s, os'.openDevice device n' s = os.openDevice device n s
  mmap : os'.mmap = os.mmap
  malloc : os'.malloc = os.malloc
  munmap : os'.munmap = os.munmap
  close : os'.close = os.close
  controlMap : os'.controlMap = os.controlMap

/-- The crate of the lowest number that is present: it opens, and to try a lower number comes to nothing
and leaves the outside as it was. -/
structure Os.Lowest (os : Os σ) (n : ℤ) (s : σ) : Prop where
  nonneg : 0 ≤ n
  le : n ≤ 15
  opens : os.opens n s = true
  absent : ∀ c, 0 ≤ c → c < n → ∀ errno,
    (v120Open os c ⟨errno, s⟩).1 = none ∧ (v120Open os c ⟨errno, s⟩).2.outside = s

/-- Two worlds that differ in the number of the crate and in `errno`. -/
def Alike (n n' : ℤ) (w w' : World σ) : Prop :=
  w.handle.crateno = n ∧ ∃ errno, w' = ⟨{ w.handle with crateno := n' }, errno, w.outside⟩

variable {os os' : Os σ} {n n' : ℤ} {w w' : World σ}

/-- A change of the handle that has nothing to do with its number. -/
theorem Alike.modify (h : Alike n n' w w') {f : V120Handle → V120Handle}
    (hf : ∀ handle, f { handle with crateno := n' } = { f handle with crateno := n' } ∧
      (f handle).crateno = handle.crateno) : Alike n n' (w.modify f) (w'.modify f) := by
  obtain ⟨hn, errno, rfl⟩ := h
  refine ⟨(hf w.handle).2.trans hn, errno, ?_⟩
  rw [World.modify, (hf w.handle).1]
  rfl

/-- Handles that are alike have the same regions. -/
theorem Alike.listHead (h : Alike n n' w w') : w'.handle.listHead = w.handle.listHead := by
  obtain ⟨-, errno, rfl⟩ := h
  rfl

/-- An error code. -/
theorem Alike.setErrno (h : Alike n n' w w') (err : ℤ) : Alike n n' (w.setErrno err) (w'.setErrno err) := by
  obtain ⟨hn, errno, rfl⟩ := h
  exact ⟨hn, err, rfl⟩

/-- Something happened outside. -/
theorem Alike.outside (h : Alike n n' w w') (f : σ → σ) :
    Alike n n' { w with outside := f w.outside } { w' with outside := f w'.outside } := by
  obtain ⟨hn, errno, rfl⟩ := h
  exact ⟨hn, errno, rfl⟩

/-- The device is opened alike. -/
theorem openVme_alike (hos : os.Renumbered os' n n') (h : Alike n n' w w') :
    (openVme os' w').1 = (openVme os w).1 ∧ Alike n n' (openVme os w).2 (openVme os' w').2 := by
  obtain ⟨hn, errno, rfl⟩ := h
  unfold openVme
  dsimp only
  by_cases hopen : w.handle.fdVme < 0
  · rw [if_pos hopen, if_pos hopen, World.openDevice, World.openDevice]
    dsimp only
    rw [hos.openDevice, hn]
    generalize os.openDevice .vme n w.outside = answer
    obtain ⟨code | fd, outside⟩ := answer
    · exact ⟨rfl, hn, _, rfl⟩
    · dsimp only
      split_ifs
      · exact ⟨rfl, hn, _, rfl⟩
      · exact ⟨rfl, hn, errno, rfl⟩
  · rw [if_neg hopen, if_neg hopen]
    exact ⟨rfl, hn, errno, rfl⟩

/-- Pages are mapped alike. -/
theorem mmap_alike (hos : os.Renumbered os' n n') (h : Alike n n' w w') (size : ℕ) (fd : ℤ) (offset : ℕ) :
    (w'.mmap os' size fd offset).1 = (w.mmap os size fd offset).1 ∧
      Alike n n' (w.mmap os size fd offset).2 (w'.mmap os' size fd offset).2 := by
  obtain ⟨hn, errno, rfl⟩ := h
  unfold World.mmap
  rw [hos.mmap]
  dsimp only
  generalize os.mmap size fd offset w.outside = answer
  obtain ⟨code | ptr, outside⟩ := answer
  · exact ⟨rfl, hn, _, rfl⟩
  · exact ⟨rfl, hn, errno, rfl⟩

/-- The list of mapped areas grows alike. -/
theorem v120AddToMmList_alike (hos : os.Renumbered os' n n') (h : Alike n n' w w') (ptr : Pointer)
    (size : ℕ) : (v120AddToMmList os' ptr size w').1 = (v120AddToMmList os ptr size w).1 ∧
      Alike n n' (v120AddToMmList os ptr size w).2 (v120AddToMmList os' ptr size w').2 := by
  obtain ⟨hn, errno, rfl⟩ := h
  unfold v120AddToMmList
  rw [hos.malloc]
  dsimp only
  split_ifs
  · exact ⟨rfl, hn, errno, rfl⟩
  · exact ⟨rfl, hn, _, rfl⟩

/-- `v120_alloc_pages` maps alike. -/
theorem v120AllocPages_alike (hos : os.Renumbered os' n n') (h : Alike n n' w w') (pageno npages : ℤ) :
    (v120AllocPages os' pageno npages w').1 = (v120AllocPages os pageno npages w).1 ∧
      Alike n n' (v120AllocPages os pageno npages w).2 (v120AllocPages os' pageno npages w').2 := by
  unfold v120AllocPages
  by_cases hpageno : pageno < 0
  · rw [if_pos hpageno, if_pos hpageno]
    exact ⟨rfl, h.setErrno _⟩
  · rw [if_neg hpageno, if_neg hpageno]
    by_cases hnpages : npages < 0
    · rw [if_pos hnpages, if_pos hnpages]
      exact ⟨rfl, h.setErrno _⟩
    · rw [if_neg hnpages, if_neg hnpages]
      obtain ⟨hopened, hopen⟩ := openVme_alike hos h
      have hfd : (openVme os' w').2.handle.fdVme = (openVme os w).2.handle.fdVme := by
        obtain ⟨-, errno, hworld⟩ := hopen
        rw [hworld]
      dsimp only
      rw [hopened, hfd]
      cases (openVme os w).1 with
      | false => exact ⟨rfl, hopen⟩
      | true =>
        rw [if_pos rfl, if_pos rfl]
        obtain ⟨hptr, hmap⟩ := mmap_alike hos hopen (v120PageSize * npages.toNat)
          (openVme os w).2.handle.fdVme (v120PageSize * pageno.toNat)
        rw [hptr]
        generalize World.mmap os _ _ _ (openVme os w).2 = mapped at hmap ⊢
        generalize World.mmap os' _ _ _ (openVme os' w').2 = mapped' at hmap ⊢
        by_cases hfailed : mapped.1 = null ∨ mapped.1 = mapFailed
        · rw [if_pos hfailed, if_pos hfailed]
          exact ⟨rfl, hmap.setErrno _⟩
        · obtain ⟨hadded, hadd⟩ := v120AddToMmList_alike hos hmap mapped.1 (v120PageSize * npages.toNat)
          rw [if_neg hfailed, if_neg hfailed, hadded, hos.munmap]
          split_ifs
          · exact ⟨rfl, (hadd.outside _).setErrno _⟩
          · exact ⟨rfl, hadd⟩

/-- `v120_get_vme` maps alike. -/
theorem v120GetVme_alike (hos : os.Renumbered os' n n') (h : Alike n n' w w') (startPage endPage : ℤ) :
    (v120GetVme os' startPage endPage w').1 = (v120GetVme os startPage endPage w).1 ∧
      Alike n n' (v120GetVme os startPage endPage w).2 (v120GetVme os' startPage endPage w').2 := by
  unfold v120GetVme
  generalize (if startPage > endPage then (endPage, startPage) else (startPage, endPage)) = pages
  dsimp only
  split_ifs
  · exact ⟨rfl, h.setErrno _⟩
  · exact v120AllocPages_alike hos h _ _

/-- The page descriptors are written alike. -/
theorem configurePdRange_crateno (h : V120Handle) (crateno startpg npages : ℤ) (base : BitVec 64)
    (config : V120Pd) :
    V120Handle.configurePdRange { h with crateno := crateno } startpg base config npages =
        { h.configurePdRange startpg base config npages with crateno := crateno } ∧
      (h.configurePdRange startpg base config npages).crateno = h.crateno := by
  unfold V120Handle.configurePdRange
  induction List.range npages.toNat generalizing h with
  | nil => exact ⟨rfl, rfl⟩
  | cons i pages ih => exact ih (h.configurePd (startpg + i) (pageAddr base i) config)

/-- Descriptors are written in both worlds. -/
theorem Alike.configurePdRange (h : Alike n n' w w') (startpg npages : ℤ) (base : BitVec 64)
    (config : V120Pd) : Alike n n' (w.modify (·.configurePdRange startpg base config npages))
      (w'.modify (·.configurePdRange startpg base config npages)) :=
  h.modify fun handle => configurePdRange_crateno handle n' _ _ _ _

/-- The pages of a region are mapped and configured alike. -/
theorem mapRegion_alike (hos : os.Renumbered os' n n') (h : Alike n n' w w') (region : VmeRegion)
    (pgno : BitVec 32) : (mapRegion os' region pgno w').1 = (mapRegion os region pgno w).1 ∧
      Alike n n' (mapRegion os region pgno w).2 (mapRegion os' region pgno w').2 := by
  obtain ⟨hptr, hget⟩ := v120GetVme_alike hos h pgno.toInt (pgno + region.npages - 1).toInt
  rw [mapRegion_eq, mapRegion_eq]
  exact ⟨hptr, hget.configurePdRange _ _ _ _⟩

/-- The regions are placed alike. -/
theorem allocateRegions_alike (hos : os.Renumbered os' n n') (h : Alike n n' w w')
    (regions : List VmeRegion) (pgno endpage : BitVec 32) :
    (allocateRegions os' regions pgno endpage w').1 = (allocateRegions os regions pgno endpage w).1 ∧
      (allocateRegions os' regions pgno endpage w').2.1 = (allocateRegions os regions pgno endpage w).2.1 ∧
      Alike n n' (allocateRegions os regions pgno endpage w).2.2
        (allocateRegions os' regions pgno endpage w').2.2 := by
  induction regions generalizing pgno endpage w w' with
  | nil => exact ⟨rfl, rfl, h⟩
  | cons head rest ih =>
    obtain ⟨hptr, hmap⟩ := mapRegion_alike hos h head pgno
    rw [allocateRegions, allocateRegions]
    dsimp only
    rw [hptr]
    split_ifs
    · exact ⟨rfl, rfl, hmap⟩
    · obtain ⟨hnext, hplaced, hrest⟩ := ih hmap (pgno + head.npages) (pgno + head.npages - 1)
      exact ⟨hnext, congrArg (List.cons _) hplaced, hrest⟩

/-- `v120_allocate_vme` places the regions alike. -/
theorem v120AllocateVme_alike (hos : os.Renumbered os' n n') (h : Alike n n' w w')
    (uninitialised startPage : BitVec 32) :
    (v120AllocateVme os' uninitialised startPage w').1 = (v120AllocateVme os uninitialised startPage w).1 ∧
      Alike n n' (v120AllocateVme os uninitialised startPage w).2
        (v120AllocateVme os' uninitialised startPage w').2 := by
  unfold v120AllocateVme
  split_ifs
  · exact ⟨rfl, h.setErrno _⟩
  · obtain ⟨hret, hplaced, hworld⟩ := allocateRegions_alike hos h w.handle.listHead startPage uninitialised
    rw [h.listHead]
    dsimp only
    rw [hret, hplaced]
    have hlist := hworld.modify (f := fun handle =>
      { handle with listHead := (allocateRegions os w.handle.listHead startPage uninitialised w).2.1 })
      fun handle => ⟨rfl, rfl⟩
    cases (allocateRegions os w.handle.listHead startPage uninitialised w).1 with
    | none => exact ⟨rfl, hlist⟩
    | some next => exact ⟨rfl, hlist⟩

/-- A crate opens alike under both numbers. -/
theorem v120Open_alike (hos : os.Renumbered os' n n') (hn : n ≤ 15) (hn' : n' ≤ 15)
    (errno errno' : ℤ) (s : σ) :
    (v120Open os' n' ⟨errno', s⟩).1 =
        (v120Open os n ⟨errno, s⟩).1.map (fun handle => { handle with crateno := n' }) ∧
      (v120Open os' n' ⟨errno', s⟩).2.outside = (v120Open os n ⟨errno, s⟩).2.outside := by
  unfold v120Open
  rw [if_neg (Int.not_lt.mpr hn), if_neg (Int.not_lt.mpr hn'), hos.malloc, hos.mmap, hos.close]
  dsimp only
  split_ifs
  · rw [hos.openDevice]
    generalize os.openDevice .ctrl n (os.malloc s).2 = answer
    obtain ⟨code | fd, outside⟩ := answer
    · exact ⟨rfl, rfl⟩
    · dsimp only
      generalize os.mmap v120MmapSize fd 0 outside = answer
      obtain ⟨code | ptr, outside⟩ := answer
      · exact ⟨rfl, rfl⟩
      · dsimp only
        rw [hos.controlMap]
        split_ifs
        · exact ⟨rfl, rfl⟩
        · exact ⟨rfl, rfl⟩
  · exact ⟨rfl, rfl⟩

variable {window : σ → Pointer → Option (ℤ × ℕ)} {s : σ}

/-- The crate of the lowest number is found, whatever `errno` says. -/
theorem Os.Lowest.isSome (hlowest : os.Lowest n s) (hmaps : os.Maps window) (errno : ℤ) :
    (v120Open os n ⟨errno, s⟩).1.isSome = true :=
  (v120Open_isSome hmaps hlowest.le ⟨errno, s⟩).trans hlowest.opens

/-- The loop of `v120_next` comes to the crate of the lowest number, with the `errno` of the last one that
was tried in vain, if there was one. -/
theorem nextCrate_lowest (hmaps : os.Maps window) (hlowest : os.Lowest n s) {left : ℕ} (hleft : left ≤ 15)
    (hreach : 15 - (left : ℤ) ≤ n) (errno : ℤ) :
    ∃ errno', nextCrate os (left + 1) ⟨errno, s⟩ = v120Open os n ⟨errno', s⟩ ∧
      (15 - (left : ℤ) = n → errno' = errno) ∧ (15 - (left : ℤ) < n → 0 < errno') := by
  induction left generalizing errno with
  | zero =>
    have hlast : n = 15 - ((0 : ℕ) : ℤ) := Int.le_antisymm hlowest.le hreach
    obtain ⟨h, hopen⟩ := Option.isSome_iff_exists.mp (hlowest.isSome hmaps errno)
    refine ⟨errno, ?_, fun _ => rfl, fun hless => absurd hless (hlast ▸ Int.lt_irrefl _)⟩
    rw [nextCrate, ← hlast, hopen]
    exact Prod.ext hopen.symm rfl
  | succ left ih =>
    by_cases hfound : 15 - ((left + 1 : ℕ) : ℤ) = n
    · obtain ⟨h, hopen⟩ := Option.isSome_iff_exists.mp (hlowest.isSome hmaps errno)
      refine ⟨errno, ?_, fun _ => rfl, fun hless => absurd hfound (Int.ne_of_lt hless)⟩
      rw [nextCrate, hfound, hopen]
      exact Prod.ext hopen.symm rfl
    · -- a lower number, which leaves its `errno`
      have hless := lt_of_le_of_ne hreach hfound
      obtain ⟨hnone, hsame⟩ := hlowest.absent (15 - ((left + 1 : ℕ) : ℤ)) (by omega) hless errno
      have hstale := v120Open_none hmaps hnone
      obtain ⟨errno', hnext, hlast, hmore⟩ := ih (by omega) (by omega)
        (v120Open os (15 - ((left + 1 : ℕ) : ℤ)) ⟨errno, s⟩).2.errno
      refine ⟨errno', ?_, fun h => absurd h hfound, fun _ => ?_⟩
      · rw [nextCrate, hnone, ← hnext]
        exact congrArg (nextCrate os (left + 1)) (congrArg (Unopened.mk _) hsame)
      · rcases (show 15 - (left : ℤ) ≤ n by omega).lt_or_eq with hlow | hhere
        · exact hmore hlow
        · exact hlast hhere ▸ hstale

/-- `v120_next` opens the crate of the lowest number, and `errno` is clean exactly when this is number 0. -/
theorem v120Next_lowest (hmaps : os.Maps window) (hlowest : os.Lowest n s) :
    ∃ errno, v120Next os none ⟨0, s⟩ = v120Open os n ⟨errno, s⟩ ∧ (errno = 0 ↔ n = 0) := by
  have hnonneg := hlowest.nonneg
  obtain ⟨errno, hnext, hfirst, hmore⟩ :=
    nextCrate_lowest hmaps hlowest (Nat.le_refl 15) (by simpa using hnonneg) 0
  refine ⟨errno, hnext, fun hzero => ?_, fun hzero => hfirst hzero.symm⟩
  by_contra hnumber
  have hpositive := hmore (by omega)
  omega

end Systems

namespace AddressSpace

/-- A system in which the crates from a number on are present. -/
def systemFrom (n : ℤ) : Os AddressSpace :=
  { system with
    openDevice := fun _ c space => if c < n then (.error ⟨enoent, by decide⟩, space) else (.ok 7, space) }

/-- A system with crates from a number on maps as documented. -/
theorem systemFrom_maps (n : ℤ) : (systemFrom n).Maps AddressSpace.window where
  pointer := system_maps.pointer
  mmap := system_maps.mmap
  mmapKeeps := system_maps.mmapKeeps
  mallocKeeps := system_maps.mallocKeeps
  openKeeps _ c _ _ _ hp := by
    change AddressSpace.window (if c < n then _ else _ : Except Errno ℕ × AddressSpace).2 _ = _
    split_ifs
    · exact hp
    · exact hp

/-- Two of them differ in the number of the first crate. -/
theorem systemFrom_renumbered (n n' : ℤ) : (systemFrom n).Renumbered (systemFrom n') n n' :=
  ⟨fun _ _ => (if_neg (Int.lt_irrefl n')).trans (if_neg (Int.lt_irrefl n)).symm, rfl, rfl, rfl, rfl, rfl⟩

end AddressSpace

end V120.Vme
