import V120.Common.Ledger
import V120.Common.Runs
import V120.Vme.Crates
import V120.Vme.PageCounts

/-!
# Which mappings are taken away

A handle keeps a list of the areas that were mapped for it, and `v120_close` unmaps what is in the list
and the control map. Here the calls of a whole session are made on an operating system that writes down
which areas it maps and unmaps: each of them is unmapped once, at once when there was no memory for an
item of the list and otherwise by `v120_close`.
-/

namespace V120.Vme

open V120.Common

deriving instance DecidableEq for VmeMmlist

section Lists

variable {σ : Type*} (os : Os σ)

/-- The loop of `v120_remove_from_mm_list` from an item on: the list behind it with an item linked out. A
pointer to an item is the list from this item on, and `NULL` the empty list. -/
def linkOut (item : VmeMmlist) (next : List VmeMmlist) : List VmeMmlist → Option (List VmeMmlist)
  | [] => none
  | plist :: rest =>
    if rest = item :: next then some (plist :: next)
    else if rest = [] then none
    else (linkOut item next rest).map (plist :: ·)

/-- `v120_remove_from_mm_list`, for the item at the head of a list. -/
def v120RemoveFromMmList (item : VmeMmlist) (next : List VmeMmlist) (w : World σ) : ℤ × World σ :=
  let linkedOut :=
    if w.handle.mmlist = [] then none
    else if w.handle.mmlist = item :: next then some next
    else linkOut item next w.handle.mmlist
  match linkedOut with
  | none => (-1, w)
  | some mmlist =>
    (0, { w.modify fun h => { h with mmlist := mmlist } with
      outside := os.munmap item.ptr item.size w.outside })

/-- An item behind another one is linked out. -/
theorem linkOut_behind (item plist : VmeMmlist) (next before : List VmeMmlist) :
    linkOut item next (before ++ plist :: item :: next) = some (before ++ plist :: next) := by
  induction before with
  | nil => exact if_pos rfl
  | cons other before ih =>
    have hlonger : before ++ plist :: item :: next ≠ item :: next := fun hsame => by
      have hlength := congrArg List.length hsame
      simp only [List.length_append, List.length_cons] at hlength
      omega
    rw [List.cons_append, linkOut, if_neg hlonger,
      if_neg (List.append_ne_nil_of_right_ne_nil _ (List.cons_ne_nil _ _)),
      ih]
    rfl

/-- `v120_remove_from_mm_list` takes an item out of the list and unmaps its area, wherever it stands. -/
theorem v120RemoveFromMmList_mem {item : VmeMmlist} {next before : List VmeMmlist} {w : World σ}
    (h : w.handle.mmlist = before ++ item :: next) :
    v120RemoveFromMmList os item next w =
      (0, { w.modify fun h => { h with mmlist := before ++ next } with
        outside := os.munmap item.ptr item.size w.outside }) := by
  unfold v120RemoveFromMmList
  rw [h, if_neg (List.append_ne_nil_of_right_ne_nil _ (List.cons_ne_nil _ _))]
  rcases List.eq_nil_or_concat before with rfl | ⟨before, plist, rfl⟩
  · rw [List.nil_append, if_pos rfl]
    rfl
  · have hlonger : before.concat plist ++ item :: next ≠ item :: next := fun hsame => by
      have hlength := congrArg List.length hsame
      simp only [List.length_append, List.length_concat, List.length_cons] at hlength
      omega
    rw [if_neg hlonger, List.concat_eq_append, List.append_assoc, List.singleton_append, linkOut_behind,
      List.append_assoc, List.singleton_append]

/-- `v120_clean_mem_list`. -/
def v120CleanMemList (w : World σ) : ℤ × World σ :=
  match hlist : w.handle.mmlist with
  | [] => (0, w)
  | item :: next =>
    let removed := v120RemoveFromMmList os item next w
    if removed.1 < 0 then (-1, removed.2) else v120CleanMemList removed.2
termination_by w.handle.mmlist.length
decreasing_by
  rw [v120RemoveFromMmList_mem os (hlist.trans (List.nil_append _).symm), hlist]
  exact Nat.lt_succ_self _

/-- How `v120_cleanup` ends: it returns, or it exits with "unknown state of V120_HANDLE". -/
inductive Cleanup (σ : Type*) where
  | exited (u : Unopened σ)
  | returned (ret : ℤ) (u : Unopened σ)

/-- `v120_cleanup`. -/
def v120Cleanup (w : World σ) : Cleanup σ :=
  let (ret, w) := v120CleanMemList os w
  if ret < 0 then .exited ⟨w.errno, w.outside⟩
  else
    let s := if w.handle.mapptr ≠ null then os.munmap w.handle.mapptr v120MmapSize w.outside else w.outside
    let s := os.close w.handle.fdCtrl s
    .returned 0 ⟨w.errno, if w.handle.fdVme ≥ 0 then os.close w.handle.fdVme s else s⟩

/-- `v120_get_all_vme`. -/
def v120GetAllVme (w : World σ) : Pointer × World σ := v120AllocPages os 0 v120PageCount w

/-- The loop unmaps the areas of the list in order, and ends with an empty list. -/
theorem v120CleanMemList_eq (w : World σ) :
    v120CleanMemList os w = (0, { w.modify fun h => { h with mmlist := [] } with
      outside := w.handle.mmlist.foldl (fun s item => os.munmap item.ptr item.size s) w.outside }) := by
  generalize hitems : w.handle.mmlist = items
  induction items generalizing w with
  | nil =>
    rw [v120CleanMemList]
    split
    · obtain ⟨⟨_, _, _, _, _, _, mmlist, _⟩, _, _⟩ := w
      obtain rfl : mmlist = [] := hitems
      rfl
    · rename_i hlist
      exact absurd (hitems.symm.trans hlist) (List.cons_ne_nil _ _).symm
  | cons item next ih =>
    rw [v120CleanMemList]
    split
    · rename_i hlist
      exact absurd (hitems.symm.trans hlist) (List.cons_ne_nil _ _)
    · rename_i item' next' hlist
      obtain ⟨rfl, rfl⟩ := List.cons.inj (hitems.symm.trans hlist)
      rw [v120RemoveFromMmList_mem os (hlist.trans (List.nil_append _).symm), if_neg (Int.lt_irrefl 0)]
      exact ih _ rfl

/-- **The clean-up never finds the handle in an unknown state.** It does what `v120_close` is modelled to do. -/
theorem v120Cleanup_eq (w : World σ) :
    v120Cleanup os w = .returned 0 (v120Close os w.handle ⟨w.errno, w.outside⟩) := by
  unfold v120Cleanup
  rw [v120CleanMemList_eq]
  rfl

end Lists

/-- Something is mapped, or unmapped. -/
abbrev MapEvent := LedgerEvent VmeMmlist

variable {σ : Type*}

/-- An operating system that writes down what it maps and unmaps. -/
def Os.logged (os : Os σ) : Os (σ × List MapEvent) where
  openDevice device crateno s :=
    ((os.openDevice device crateno s.1).1, ((os.openDevice device crateno s.1).2, s.2))
  mmap size fd offset s :=
    match os.mmap size fd offset s.1 with
    | (.ok ptr, outside) => (.ok ptr, (outside, s.2 ++ [.acquire ⟨ptr, size⟩]))
    | (.error errno, outside) => (.error errno, (outside, s.2))
  malloc s := ((os.malloc s.1).1, ((os.malloc s.1).2, s.2))
  munmap ptr size s := (os.munmap ptr size s.1, s.2 ++ [.release ⟨ptr, size⟩])
  close fd s := (os.close fd s.1, s.2)
  controlMap ptr s := os.controlMap ptr s.1

/-- A successful `mmap` returns a pointer that can be told from an error. -/
def Os.MapsPointers (os : Os σ) : Prop :=
  ∀ size fd offset s ptr, (os.mmap size fd offset s).1 = .ok ptr → ptr ≠ null ∧ ptr ≠ mapFailed

/-- A call on an open handle. -/
inductive Call where
  | addVmeRegion (region : VmeRegion)
  | deleteVmeList
  | getVme (startPage endPage : ℤ)
  | getAllVme
  | configurePage (idx : ℤ) (base : BitVec 64) (config : V120Pd)
  | allocateVme (uninitialised startPage : BitVec 32)

/-- What the call does. -/
def Call.run (os : Os σ) (call : Call) (w : World σ) : World σ :=
  match call with
  | .addVmeRegion region => w.modify (·.addVmeRegion region)
  | .deleteVmeList => w.modify fun h => { h with listHead := [] }
  | .getVme startPage endPage => (v120GetVme os startPage endPage w).2
  | .getAllVme => (v120GetAllVme os w).2
  | .configurePage idx base config => (v120ConfigurePage os idx base config w).2
  | .allocateVme uninitialised startPage => (v120AllocateVme os uninitialised startPage w).2

/-- What the calls of a session map and unmap, and which areas are in the list behind them: an area is put
in the list when it is mapped, or else unmapped at once. -/
inductive Records : List MapEvent → List VmeMmlist → Prop where
  | nothing : Records [] []
  | recorded {events : List MapEvent} {items : List VmeMmlist} (h : Records events items)
      (item : VmeMmlist) : Records (events ++ [.acquire item]) (item :: items)
  | dropped {events : List MapEvent} {items : List VmeMmlist} (h : Records events items)
      (item : VmeMmlist) : Records (events ++ [.acquire item, .release item]) items

/-- What is mapped and unmapped in a session on a crate whose control map is at this pointer. -/
structure ReleasedOnce (control : Pointer) (log : List MapEvent) : Prop where
  balanced : Common.Balanced log
  released : ∃ events items, Records events items ∧
    log = .acquire ⟨control, v120MmapSize⟩ :: (events ++ items.map LedgerEvent.release) ++
      [.release ⟨control, v120MmapSize⟩]

/-- Each area is unmapped as often as it is mapped, and was never unmapped more often than mapped. -/
theorem ReleasedOnce.count {control : Pointer} {log : List MapEvent} (h : ReleasedOnce control log)
    (item : VmeMmlist) :
    log.count (.acquire item) = log.count (.release item) ∧
      ∀ before, before <+: log → before.count (.release item) ≤ before.count (.acquire item) :=
  h.balanced.count item

/-- One stretch of a session after another. -/
theorem Records.append {events events' : List MapEvent} {items items' : List VmeMmlist}
    (h : Records events items) (h' : Records events' items') :
    Records (events ++ events') (items' ++ items) := by
  induction h' with
  | nothing => exact (List.append_nil events).symm ▸ h
  | recorded _ item ih => exact List.append_assoc _ _ _ ▸ ih.recorded item
  | dropped _ item ih => exact List.append_assoc _ _ _ ▸ ih.dropped item

/-- What was dropped is not held, and what was recorded is. -/
theorem Records.held_eq {events : List MapEvent} {items : List VmeMmlist} (h : Records events items)
    (holding : Multiset VmeMmlist) : held events holding = some (items + holding) := by
  induction h with
  | nothing => exact congrArg some (Multiset.zero_add holding).symm
  | recorded _ item ih =>
    rw [held_append, ih, Option.bind_some, held, held, ← Multiset.cons_coe, Multiset.cons_add]
  | dropped _ item ih =>
    rw [held_append, ih, Option.bind_some, held, held, if_pos (Multiset.mem_cons_self _ _),
      Multiset.erase_cons_head, held]

/-- A stretch of a session: the control map stays, and the list of areas grows by what was recorded. -/
structure Recorded (w w' : World (σ × List MapEvent)) : Prop where
  mapptr : w'.handle.mapptr = w.handle.mapptr
  records : ∃ events items, Records events items ∧ w'.outside.2 = w.outside.2 ++ events ∧
    w'.handle.mmlist = items ++ w.handle.mmlist

/-- A stretch in which nothing is mapped. -/
structure Quiet (w w' : World (σ × List MapEvent)) : Prop where
  mapptr : w'.handle.mapptr = w.handle.mapptr
  log : w'.outside.2 = w.outside.2
  mmlist : w'.handle.mmlist = w.handle.mmlist

namespace Quiet

/-- Nothing happened. -/
theorem refl (w : World (σ × List MapEvent)) : Quiet w w := ⟨rfl, rfl, rfl⟩

/-- One stretch after another. -/
theorem trans {w₁ w₂ w₃ : World (σ × List MapEvent)} (h : Quiet w₁ w₂) (h' : Quiet w₂ w₃) : Quiet w₁ w₃ :=
  ⟨h'.mapptr.trans h.mapptr, h'.log.trans h.log, h'.mmlist.trans h.mmlist⟩

/-- Nothing was recorded. -/
theorem recorded {w w' : World (σ × List MapEvent)} (h : Quiet w w') : Recorded w w' :=
  ⟨h.mapptr, [], [], .nothing, h.log.trans (List.append_nil _).symm, h.mmlist⟩

end Quiet

/-- One stretch of a session after another. -/
theorem Recorded.trans {w₁ w₂ w₃ : World (σ × List MapEvent)} (h : Recorded w₁ w₂) (h' : Recorded w₂ w₃) :
    Recorded w₁ w₃ := by
  obtain ⟨events, items, hrecords, hlog, hmmlist⟩ := h.records
  obtain ⟨events', items', hrecords', hlog', hmmlist'⟩ := h'.records
  refine ⟨h'.mapptr.trans h.mapptr, events ++ events', items' ++ items, hrecords.append hrecords', ?_, ?_⟩
  · rw [hlog', hlog, List.append_assoc]
  · rw [hmmlist', hmmlist, List.append_assoc]

variable {os : Os σ}

variable (os) in
/-- Opening the device maps nothing. -/
theorem openVme_quiet (w : World (σ × List MapEvent)) : Quiet w (openVme os.logged w).2 := by
  unfold openVme
  by_cases hopen : w.handle.fdVme < 0
  · have hlog : (os.logged.openDevice .vme w.handle.crateno w.outside).2.2 = w.outside.2 := rfl
    rw [if_pos hopen, World.openDevice]
    generalize os.logged.openDevice .vme w.handle.crateno w.outside = answer at hlog
    obtain ⟨errno | fd, outside⟩ := answer <;> dsimp only <;> split_ifs
    all_goals exact ⟨rfl, hlog, rfl⟩
  · rw [if_neg hopen]
    exact .refl w

/-- `mmap` maps the area it returns, or fails and maps nothing. -/
theorem mmap_logged (hpointers : os.MapsPointers) (size : ℕ) (fd : ℤ) (offset : ℕ)
    (w : World (σ × List MapEvent)) :
    (((w.mmap os.logged size fd offset).1 = null ∨ (w.mmap os.logged size fd offset).1 = mapFailed) →
      Quiet w (w.mmap os.logged size fd offset).2) ∧
    (¬ ((w.mmap os.logged size fd offset).1 = null ∨ (w.mmap os.logged size fd offset).1 = mapFailed) →
      (w.mmap os.logged size fd offset).2.handle = w.handle ∧
        (w.mmap os.logged size fd offset).2.outside.2 =
          w.outside.2 ++ [.acquire ⟨(w.mmap os.logged size fd offset).1, size⟩]) := by
  have hpointer := hpointers size fd offset w.outside.1
  rw [World.mmap, Os.logged]
  dsimp only
  generalize os.mmap size fd offset w.outside.1 = answer at hpointer ⊢
  obtain ⟨errno | ptr, outside⟩ := answer
  · exact ⟨fun _ => ⟨rfl, rfl, rfl⟩, fun hsome => absurd (Or.inr rfl) hsome⟩
  · exact ⟨fun hfailed => absurd hfailed (not_or.mpr (hpointer ptr rfl)), fun _ => ⟨rfl, rfl⟩⟩

variable (os) in
/-- An item is added, or there is no memory for it. -/
theorem v120AddToMmList_logged (ptr : Pointer) (size : ℕ) (w : World (σ × List MapEvent)) :
    ((v120AddToMmList os.logged ptr size w).1 < 0 → Quiet w (v120AddToMmList os.logged ptr size w).2) ∧
    (¬ (v120AddToMmList os.logged ptr size w).1 < 0 →
      (v120AddToMmList os.logged ptr size w).2.handle.mapptr = w.handle.mapptr ∧
        (v120AddToMmList os.logged ptr size w).2.outside.2 = w.outside.2 ∧
        (v120AddToMmList os.logged ptr size w).2.handle.mmlist = ⟨ptr, size⟩ :: w.handle.mmlist) := by
  rw [v120AddToMmList_fst]
  unfold v120AddToMmList
  dsimp only
  split_ifs with hgranted
  · exact ⟨fun hfull => absurd (hgranted.symm.trans hfull) Bool.noConfusion, fun _ => ⟨rfl, rfl, rfl⟩⟩
  · exact ⟨fun _ => ⟨rfl, rfl, rfl⟩, fun hfull => absurd (Bool.not_eq_true _ ▸ hgranted) hfull⟩

/-- `v120_alloc_pages` records what it maps, or unmaps it at once. -/
theorem v120AllocPages_recorded (hpointers : os.MapsPointers) (pageno npages : ℤ)
    (w : World (σ × List MapEvent)) : Recorded w (v120AllocPages os.logged pageno npages w).2 := by
  unfold v120AllocPages
  split_ifs with hpageno hnpages
  · exact Quiet.recorded ⟨rfl, rfl, rfl⟩
  · exact Quiet.recorded ⟨rfl, rfl, rfl⟩
  · have hopen := openVme_quiet os w
    dsimp only
    obtain ⟨hfailure, hsuccess⟩ := mmap_logged hpointers (v120PageSize * npages.toNat)
      (openVme os.logged w).2.handle.fdVme (v120PageSize * pageno.toNat) (openVme os.logged w).2
    generalize (openVme os.logged w).2.mmap os.logged _ _ _ = mapped at hfailure hsuccess ⊢
    let item : VmeMmlist := ⟨mapped.1, v120PageSize * npages.toNat⟩
    obtain ⟨hfull, hadded⟩ := v120AddToMmList_logged os mapped.1 (v120PageSize * npages.toNat) mapped.2
    split_ifs with hopened hfailed hret
    · exact (hopen.trans (hfailure hfailed)).recorded.trans (Quiet.recorded ⟨rfl, rfl, rfl⟩)
    · obtain ⟨hhandle, hmaplog⟩ := hsuccess hfailed
      have hquiet := hfull hret
      refine ⟨hquiet.mapptr.trans (hhandle ▸ hopen.mapptr), [.acquire item, .release item], [],
        .dropped .nothing item, ?_, hquiet.mmlist.trans (hhandle ▸ hopen.mmlist)⟩
      change (v120AddToMmList os.logged mapped.1 _ mapped.2).2.outside.2 ++ [.release item] = _
      rw [hquiet.log, hmaplog, hopen.log, List.append_assoc]
      rfl
    · obtain ⟨hhandle, hmaplog⟩ := hsuccess hfailed
      obtain ⟨hmapptr, hlog, hmmlist⟩ := hadded hret
      refine ⟨hmapptr.trans (hhandle ▸ hopen.mapptr), [.acquire item], [item],
        .recorded .nothing item, ?_, ?_⟩
      · rw [hlog, hmaplog, hopen.log]
      · rw [hmmlist, hhandle, hopen.mmlist]
        rfl
    · exact hopen.recorded

/-- `v120_get_vme` records what it maps. -/
theorem v120GetVme_recorded (hpointers : os.MapsPointers) (startPage endPage : ℤ)
    (w : World (σ × List MapEvent)) : Recorded w (v120GetVme os.logged startPage endPage w).2 := by
  rw [v120GetVme_eq]
  split_ifs
  · exact Quiet.recorded ⟨rfl, rfl, rfl⟩
  · exact v120AllocPages_recorded hpointers _ _ w

/-- `v120_configure_page` records what it maps. -/
theorem v120ConfigurePage_recorded (hpointers : os.MapsPointers) (idx : ℤ) (base : BitVec 64)
    (config : V120Pd)
    (w : World (σ × List MapEvent)) : Recorded w (v120ConfigurePage os.logged idx base config w).2 := by
  have hconfigured : Quiet w (w.modify (·.configurePd idx base config)) := ⟨rfl, rfl, rfl⟩
  unfold v120ConfigurePage
  split_ifs
  · exact Quiet.recorded ⟨rfl, rfl, rfl⟩
  · exact hconfigured.recorded.trans (v120AllocPages_recorded hpointers idx 1 _)

/-- Storing descriptors maps nothing. -/
theorem Quiet.setPd (w : World (σ × List MapEvent)) (pd : Memory ℤ V120Pd) :
    Quiet w (w.modify (·.setPd pd)) :=
  ⟨rfl, rfl, rfl⟩

/-- A region is recorded when it is mapped. -/
theorem mapRegion_recorded (hpointers : os.MapsPointers) (region : VmeRegion) (pgno : BitVec 32)
    (w : World (σ × List MapEvent)) : Recorded w (mapRegion os.logged region pgno w).2 := by
  rw [mapRegion_snd]
  exact (v120GetVme_recorded hpointers _ _ w).trans (Quiet.setPd _ _).recorded

/-- The loop over the regions records what it maps, wherever it stops. -/
theorem allocateRegions_recorded (hpointers : os.MapsPointers) (regions : List VmeRegion)
    (pgno endpage : BitVec 32) (w : World (σ × List MapEvent)) :
    Recorded w (allocateRegions os.logged regions pgno endpage w).2.2 := by
  induction regions generalizing pgno endpage w with
  | nil => exact (Quiet.refl w).recorded
  | cons head rest ih =>
    have hhead := mapRegion_recorded hpointers head pgno w
    rw [allocateRegions]
    dsimp only
    split_ifs
    · exact hhead
    · exact hhead.trans (ih _ _ _)

/-- `v120_allocate_vme` records what it maps. -/
theorem v120AllocateVme_recorded (hpointers : os.MapsPointers) (uninitialised startPage : BitVec 32)
    (w : World (σ × List MapEvent)) :
    Recorded w (v120AllocateVme os.logged uninitialised startPage w).2 := by
  have hloop := allocateRegions_recorded hpointers w.handle.listHead startPage uninitialised w
  unfold v120AllocateVme
  split_ifs
  · exact Quiet.recorded ⟨rfl, rfl, rfl⟩
  · generalize allocateRegions os.logged w.handle.listHead startPage uninitialised w = placed at hloop ⊢
    obtain ⟨_ | next, regions, w'⟩ := placed
    · exact hloop.trans (Quiet.recorded ⟨rfl, rfl, rfl⟩)
    · exact hloop.trans (Quiet.recorded ⟨rfl, rfl, rfl⟩)

/-- Every call records what it maps. -/
theorem Call.run_recorded (hpointers : os.MapsPointers) (call : Call) (w : World (σ × List MapEvent)) :
    Recorded w (call.run os.logged w) := by
  cases call with
  | addVmeRegion region => exact Quiet.recorded ⟨rfl, rfl, rfl⟩
  | deleteVmeList => exact Quiet.recorded ⟨rfl, rfl, rfl⟩
  | getVme startPage endPage => exact v120GetVme_recorded hpointers startPage endPage w
  | getAllVme => exact v120AllocPages_recorded hpointers 0 v120PageCount w
  | configurePage idx base config => exact v120ConfigurePage_recorded hpointers idx base config w
  | allocateVme uninitialised startPage => exact v120AllocateVme_recorded hpointers uninitialised startPage w

/-- A session records what it maps. -/
theorem session_recorded (hpointers : os.MapsPointers) (calls : List Call) (w : World (σ × List MapEvent)) :
    Recorded w (calls.foldl (fun w call => call.run os.logged w) w) := by
  induction calls generalizing w with
  | nil => exact (Quiet.refl w).recorded
  | cons call calls ih => exact (call.run_recorded hpointers w).trans (ih _)

/-- A crate that is opened has mapped its control map. -/
theorem v120Open_logged (hpointers : os.MapsPointers) {unitId : ℤ} {u : Unopened (σ × List MapEvent)}
    {h : V120Handle} (hopen : (v120Open os.logged unitId u).1 = some h) :
    h.mapptr ≠ null ∧ h.mmlist = [] ∧
      (v120Open os.logged unitId u).2.outside.2 = u.outside.2 ++ [.acquire ⟨h.mapptr, v120MmapSize⟩] := by
  unfold v120Open at hopen ⊢
  split_ifs at hopen ⊢ with hunit
  dsimp only at hopen ⊢
  split_ifs at hopen ⊢ with hgranted
  have hlog : (os.logged.openDevice .ctrl unitId (os.logged.malloc u.outside).2).2.2 = u.outside.2 := rfl
  generalize os.logged.openDevice .ctrl unitId (os.logged.malloc u.outside).2 = answer at hopen hlog ⊢
  obtain ⟨errno | fd, outside⟩ := answer
  · exact absurd hopen (Option.some_ne_none h).symm
  · dsimp only at hopen hlog ⊢
    have hpointer := hpointers v120MmapSize fd 0 outside.1
    rw [Os.logged] at hopen ⊢
    dsimp only at hopen ⊢
    generalize os.mmap v120MmapSize fd 0 outside.1 = answer at hopen hpointer ⊢
    obtain ⟨errno | ptr, outside'⟩ := answer
    · exact absurd hopen (Option.some_ne_none h).symm
    · dsimp only at hopen ⊢
      split_ifs at hopen ⊢ with hfailed
      obtain rfl := Option.some.inj hopen
      exact ⟨(not_or.mp hfailed).1, rfl, by rw [← hlog]⟩

/-- Unmapping the areas of a list is written down in order. -/
theorem munmap_logged (items : List VmeMmlist) (s : σ × List MapEvent) :
    (items.foldl (fun s item => os.logged.munmap item.ptr item.size s) s).2 =
      s.2 ++ items.map LedgerEvent.release := by
  induction items generalizing s with
  | nil => exact (List.append_nil _).symm
  | cons item items ih =>
    rw [List.foldl_cons, ih, List.map_cons]
    exact List.append_assoc _ _ _

/-- What `v120_close` unmaps. -/
theorem v120Close_logged {h : V120Handle} (hmapptr : h.mapptr ≠ null) (u : Unopened (σ × List MapEvent)) :
    (v120Close os.logged h u).outside.2 =
      u.outside.2 ++ h.mmlist.map LedgerEvent.release ++ [.release ⟨h.mapptr, v120MmapSize⟩] := by
  have hunmapped : (h.mmlist.foldl (fun s item => os.logged.munmap item.ptr item.size s) u.outside).2 = _ :=
    munmap_logged h.mmlist u.outside
  unfold v120Close
  dsimp only
  rw [if_pos hmapptr, ← hunmapped]
  split_ifs <;> rfl

/-- What is recorded and released between the mapping of a control map and its release is released once. -/
theorem Records.releasedOnce {events : List MapEvent} {items : List VmeMmlist} (h : Records events items)
    (control : Pointer) :
    ReleasedOnce control (.acquire ⟨control, v120MmapSize⟩ :: (events ++ items.map LedgerEvent.release) ++
      [.release ⟨control, v120MmapSize⟩]) := by
  refine ⟨?_, events, items, h, rfl⟩
  have hevents := h.held_eq (⟨control, v120MmapSize⟩ ::ₘ 0)
  have hitems := held_releases items (⟨control, v120MmapSize⟩ ::ₘ 0)
  rw [Common.Balanced, List.cons_append, held, held_append, held_append, hevents, Option.bind_some, hitems,
    Option.bind_some, held, if_pos (Multiset.mem_cons_self _ _), Multiset.erase_cons_head, held]

/-- **Every mapping is released exactly once.** Whatever calls are made on a crate that was opened, and
whatever the operating system answers to them, the loop of the clean-up comes to an empty list,
`v120_close` returns, and each area that was mapped has been unmapped once with the size it was mapped
with: at once when it could not be recorded, and otherwise by `v120_close`, the control map last. -/
theorem session_releasedOnce (hpointers : os.MapsPointers) {unitId : ℤ} {u : Unopened σ} {h : V120Handle}
    (hopen : (v120Open os.logged unitId ⟨u.errno, (u.outside, [])⟩).1 = some h) (calls : List Call) :
    let opened := (v120Open os.logged unitId ⟨u.errno, (u.outside, [])⟩).2
    let w := calls.foldl (fun w call => call.run os.logged w) ⟨h, opened.errno, opened.outside⟩
    (v120CleanMemList os.logged w).1 = 0 ∧ (v120CleanMemList os.logged w).2.handle.mmlist = [] ∧
      ∃ closed, v120Cleanup os.logged w = .returned 0 closed ∧ ReleasedOnce h.mapptr closed.outside.2 := by
  intro opened w
  obtain ⟨hmapptr, hmmlist, hlog⟩ := v120Open_logged hpointers hopen
  obtain ⟨hsame, events, items, hrecords, hevents, hitems⟩ :=
    session_recorded hpointers calls ⟨h, opened.errno, opened.outside⟩
  have hclean := v120CleanMemList_eq os.logged w
  refine ⟨congrArg Prod.fst hclean, congrArg (fun cleaned => cleaned.2.handle.mmlist) hclean, _,
    v120Cleanup_eq os.logged w, ?_⟩
  have hcontrol : w.handle.mapptr = h.mapptr := hsame
  have hlist : w.handle.mmlist = items := by
    rw [show w.handle.mmlist = items ++ h.mmlist from hitems, hmmlist, List.append_nil]
  have hopened : w.outside.2 = .acquire ⟨h.mapptr, v120MmapSize⟩ :: events :=
    hevents.trans (congrArg (· ++ events) hlog)
  rw [v120Close_logged (hcontrol ▸ hmapptr), hlist, hcontrol, hopened, List.cons_append]
  exact hrecords.releasedOnce h.mapptr

/-- A system that has memory for every other item. -/
def sparing : Os ℕ where
  openDevice _ _ s := (.ok 7, s)
  mmap _ _ _ s := (.ok 0x1000, s)
  malloc s := (s % 2 == 0, s + 1)
  munmap _ _ s := s
  close _ s := s
  controlMap _ _ _ := 0

/-- The first pages that are asked for cannot be recorded, and are unmapped before the others are mapped. -/
theorem session_releasedOnce_sparing :
    ReleasedOnce 0x1000 [.acquire ⟨0x1000, 0x20000⟩, .acquire ⟨0x1000, 0x8000⟩, .release ⟨0x1000, 0x8000⟩,
      .acquire ⟨0x1000, 0x4000⟩, .release ⟨0x1000, 0x4000⟩, .release ⟨0x1000, 0x20000⟩] := by
  have hpointers : sparing.MapsPointers := by
    rintro size fd offset s ptr hptr
    obtain rfl := Except.ok.inj hptr
    decide
  let u : Unopened ℕ := ⟨0, 0⟩
  obtain ⟨h, hopen⟩ : ∃ h, (v120Open sparing.logged 0 ⟨u.errno, (u.outside, [])⟩).1 = some h := ⟨_, rfl⟩
  obtain ⟨-, -, closed, hclosed, hreleased⟩ :=
    session_releasedOnce hpointers hopen [.getVme 0 1, .configurePage 5 0 0x25]
  rw [v120Cleanup_eq] at hclosed
  obtain rfl := Option.some.inj hopen
  cases hclosed
  refine (congrArg (ReleasedOnce 0x1000) ?_).mp hreleased
  decide +kernel

end V120.Vme
