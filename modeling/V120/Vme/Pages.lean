import V120.Vme.PageCounts
import V120.Vme.Translation

/-!
# Pages that are configured one by one

`v120_configure_page` stores a descriptor and maps its page, be it mapped already or not, and fails without taking
the descriptor back. Whether or not pages are mapped for them, the descriptors behind a run of such calls are those
of the last calls, and a pointer that was mapped before still accesses the same byte of the window.
-/

namespace V120.Vme

open V120.Common

variable {σ : Type*} {os : Os σ} {window : σ → Pointer → Option (ℤ × ℕ)}

/-- What is mapped stays mapped. -/
def KeepsWindow (window : σ → Pointer → Option (ℤ × ℕ)) (s s' : σ) : Prop :=
  ∀ p byte, window s p = some byte → window s' p = some byte

/-- To unmap an area that was mapped last leaves the other mappings alone. -/
structure Os.Unmaps (os : Os σ) (window : σ → Pointer → Option (ℤ × ℕ)) : Prop extends Os.Maps os window where
  munmapKeeps : ∀ size fd offset s s' ptr, (os.mmap size fd offset s).1 = .ok ptr →
    KeepsWindow window (os.mmap size fd offset s).2 s' → KeepsWindow window s (os.munmap ptr size s')

/-- One stretch after another. -/
theorem KeepsWindow.trans {s s' s'' : σ} (h : KeepsWindow window s s') (h' : KeepsWindow window s' s'') :
    KeepsWindow window s s'' :=
  fun p byte hp => h' p byte (h p byte hp)

/-- Opening the device takes no mapping away, whether or not it opens. -/
theorem openVme_keepsWindow (hmaps : os.Maps window) (w : World σ) :
    KeepsWindow window w.outside (openVme os w).2.outside := by
  unfold openVme
  split_ifs with hclosed
  · have hopen := hmaps.openKeeps .vme w.handle.crateno w.outside
    rw [World.openDevice]
    generalize os.openDevice .vme w.handle.crateno w.outside = answer at hopen
    obtain ⟨errno | fd, outside⟩ := answer
    · exact hopen
    · dsimp only
      split_ifs
      · exact hopen
      · exact hopen
  · exact fun p byte hp => hp

/-- An item for the list takes no mapping away, whether or not there is memory for it. -/
theorem v120AddToMmList_keepsWindow (hmaps : os.Maps window) (ptr : Pointer) (size : ℕ) (w : World σ) :
    KeepsWindow window w.outside (v120AddToMmList os ptr size w).2.outside := by
  unfold v120AddToMmList
  dsimp only
  split_ifs
  · exact hmaps.mallocKeeps w.outside
  · exact hmaps.mallocKeeps w.outside

/-- Mapping pages takes no other mapping away, whether or not they are mapped. -/
theorem v120AllocPages_keepsWindow (hmaps : os.Unmaps window) (pageno npages : ℤ) (w : World σ) :
    KeepsWindow window w.outside (v120AllocPages os pageno npages w).2.outside := by
  unfold v120AllocPages
  split_ifs
  · exact fun p byte hp => hp
  · exact fun p byte hp => hp
  · have hopen := openVme_keepsWindow hmaps.toMaps w
    dsimp only
    generalize openVme os w = opened at hopen ⊢
    obtain ⟨fine, w'⟩ := opened
    cases fine with
    | false => exact hopen
    | true =>
      apply hopen.trans
      rw [if_pos rfl]
      have hkeeps := hmaps.mmapKeeps (v120PageSize * npages.toNat) w'.handle.fdVme (v120PageSize * pageno.toNat)
        w'.outside
      have hunmaps := hmaps.munmapKeeps (v120PageSize * npages.toNat) w'.handle.fdVme (v120PageSize * pageno.toNat)
        w'.outside
      have hpointer := hmaps.pointer (v120PageSize * npages.toNat) w'.handle.fdVme (v120PageSize * pageno.toNat)
        w'.outside
      rw [World.mmap]
      generalize os.mmap (v120PageSize * npages.toNat) w'.handle.fdVme (v120PageSize * pageno.toNat)
        w'.outside = answer at hkeeps hunmaps hpointer
      obtain ⟨errno | ptr, outside⟩ := answer
      · exact hkeeps
      · dsimp only
        rw [if_neg (not_or.mpr (hpointer ptr rfl))]
        have hadded := v120AddToMmList_keepsWindow hmaps.toMaps ptr (v120PageSize * npages.toNat)
          ⟨w'.handle, w'.errno, outside⟩
        generalize v120AddToMmList os ptr (v120PageSize * npages.toNat) ⟨w'.handle, w'.errno, outside⟩ = added
          at hadded ⊢
        split_ifs
        · -- the area that was mapped just now is unmapped
          exact hunmaps added.2.outside ptr rfl hadded
        · exact KeepsWindow.trans hkeeps hadded

/-- The pages of a range that starts at page 0 are configured one by one, each for its own VME address. -/
def configurePages (os : Os σ) (config : V120Pd) (npages : ℕ) (w : World σ) : World σ :=
  (List.range npages).foldl (fun w (page : ℕ) =>
    (v120ConfigurePage os page (BitVec.ofNat 64 (v120PageSize * page)) config w).2) w

/-- A page that exists is configured and mapped. -/
theorem v120ConfigurePage_page {page : ℕ} (hpage : page < v120PageCount) (config : V120Pd) (w : World σ) :
    v120ConfigurePage os page (BitVec.ofNat 64 (v120PageSize * page)) config w =
      v120AllocPages os page 1 (w.modify (·.configurePd page (BitVec.ofNat 64 (v120PageSize * page)) config)) := by
  have haligned : BitVec.ofNat 64 (v120PageSize * page) % 0x4000 = 0 := by
    apply BitVec.eq_of_toNat_eq
    rw [BitVec.toNat_umod, BitVec.toNat_ofNat, v120PageSize]
    simp only [BitVec.reduceToNat]
    omega
  rw [v120ConfigurePage, if_neg]
  rintro (hlarge | hunaligned)
  · omega
  · exact hunaligned haligned

/-- The number of the crate stays. -/
theorem v120ConfigurePage_crateno (idx : ℤ) (base : BitVec 64) (config : V120Pd) (w : World σ) :
    (v120ConfigurePage os idx base config w).2.handle.crateno = w.handle.crateno := by
  rw [v120ConfigurePage]
  split_ifs
  · rfl
  · exact (v120AllocPages_frame os idx 1 (w.modify (·.configurePd idx base config))).crateno

/-- The number of the crate stays whatever pages are configured. -/
theorem configurePages_crateno (config : V120Pd) (npages : ℕ) (w : World σ) :
    (configurePages os config npages w).handle.crateno = w.handle.crateno := by
  rw [configurePages]
  induction List.range npages generalizing w with
  | nil => rfl
  | cons page pages ih => exact (ih _).trans (v120ConfigurePage_crateno _ _ _ w)

/-- What a run of configurations leaves: the handle of the crate, the mappings, and a descriptor for each page. -/
structure Configured (window : σ → Pointer → Option (ℤ × ℕ)) (config : V120Pd) (npages : ℕ) (w w' : World σ) :
    Prop where
  crateno : w'.handle.crateno = w.handle.crateno
  window : KeepsWindow window w.outside w'.outside
  pages : ∀ page < npages, w'.handle.pd.cells page = descriptor config (BitVec.ofNat 64 (v120PageSize * page))

/-- **Pages are configured whether or not they are mapped again.** -/
theorem configured_configurePages (hmaps : os.Unmaps window) (config : V120Pd) {npages : ℕ}
    (hnpages : npages ≤ v120PageCount) (w : World σ) :
    Configured window config npages w (configurePages os config npages w) := by
  induction npages with
  | zero => exact ⟨rfl, fun p byte hp => hp, fun page hpage => absurd hpage (Nat.not_lt_zero page)⟩
  | succ npages ih =>
    have hbefore := ih (Nat.le_of_succ_le hnpages)
    have hlast : configurePages os config (npages + 1) w =
        (v120ConfigurePage os npages (BitVec.ofNat 64 (v120PageSize * npages)) config
          (configurePages os config npages w)).2 := by
      rw [configurePages, List.range_succ, List.foldl_append]
      rfl
    rw [hlast, v120ConfigurePage_page hnpages]
    generalize configurePages os config npages w = w' at hbefore
    have hframe := v120AllocPages_frame os npages 1
      (w'.modify (·.configurePd npages (BitVec.ofNat 64 (v120PageSize * npages)) config))
    refine ⟨hframe.crateno.trans hbefore.crateno, ?_, fun page hpage => ?_⟩
    · exact hbefore.window.trans (v120AllocPages_keepsWindow hmaps _ _
        (w'.modify (·.configurePd npages (BitVec.ofNat 64 (v120PageSize * npages)) config)))
    · rw [hframe.pd]
      change Function.update w'.handle.pd.cells (npages : ℤ) _ (page : ℤ) = _
      cases Nat.lt_succ_iff_lt_or_eq.mp hpage with
      | inl hless =>
        rw [Function.update_of_ne (by omega)]
        exact hbefore.pages page hless
      | inr hsame =>
        subst hsame
        exact Function.update_self _ _ _

/-- A byte of a page that was configured is accessed with the flags of the page, at its own number. -/
theorem Configured.translate {config : V120Pd} {npages : ℕ} {w w' : World σ}
    (h : Configured window config npages w w') (hconfig : config.toNat < 2 ^ 14) (hnpages : npages ≤ v120PageCount)
    {byte : ℕ} (hbyte : byte < v120PageSize * npages) :
    translate w'.handle.pd.cells byte = (config.setWidth 14, byte) := by
  have hpage : byte / v120PageSize < npages := Nat.div_lt_of_lt_mul hbyte
  have hbase : (BitVec.ofNat 64 (v120PageSize * (byte / v120PageSize))).toNat / 0x4000 = byte / v120PageSize := by
    have hcount : v120PageSize * npages ≤ v120PageSize * v120PageCount := Nat.mul_le_mul_left _ hnpages
    have hsmall : v120PageSize * (byte / v120PageSize) < 2 ^ 64 :=
      (Nat.mul_div_le byte _).trans_lt ((hbyte.trans_le hcount).trans (by decide))
    rw [BitVec.toNat_ofNat, Nat.mod_eq_of_lt hsmall]
    exact Nat.mul_div_cancel_left _ (by decide)
  rw [Vme.translate, h.pages _ hpage, flags_descriptor hconfig, vmePage_descriptor hconfig, hbase,
    Nat.div_add_mod']

/-- A system with the window at a fixed place unmaps nothing. -/
theorem fixedWindow_unmaps (device : ℕ) : (fixedWindow device).Unmaps (fixedBytes device) where
  toMaps := fixedWindow_maps device
  munmapKeeps _ _ _ _ _ _ _ _ _ _ hp := hp

end V120.Vme
