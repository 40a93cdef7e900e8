import V120.Vme.Mapping

/-!
# Opening and closing crates

`v120_open` makes a handle for a crate, and `v120_next` tries the crates in order of their numbers. A
call that fails sets `errno`, and one that succeeds leaves it as it was, so the `errno` of the crates
that were tried in vain stays behind a crate that was opened.
-/

namespace V120.Vme

open V120.Common

/-- `V120_MMAP_SIZE`. -/
def v120MmapSize : ℕ := 0x20000

/-- `errno` and the outside, while no crate is open. -/
structure Unopened (σ : Type*) where
  errno : ℤ
  outside : σ

section Calls

variable {σ : Type*} (os : Os σ)

/-- `v120_open`. The fields of the handle that are not set are zero. -/
def v120Open (unitId : ℤ) (u : Unopened σ) : Option V120Handle × Unopened σ :=
  if unitId > 15 then (none, { u with errno := einval })
  else
    let (granted, outside) := os.malloc u.outside
    let u := { u with outside := outside }
    if granted then
      match os.openDevice .ctrl unitId u.outside with
      | (.error errno, outside) => (none, ⟨errno, outside⟩)
      | (.ok fd, outside) =>
        match os.mmap v120MmapSize fd 0 outside with
        | (.error errno, outside) => (none, ⟨errno, os.close fd outside⟩)
        | (.ok ptr, outside) =>
          if ptr = null ∨ ptr = mapFailed then (none, { u with outside := os.close fd outside })
          else
            (some
              { listHead := []
                fdCtrl := fd
                fdVme := -1
                pd := ⟨os.controlMap ptr outside, []⟩
                mapptr := ptr
                errnum := 0
                mmlist := []
                crateno := unitId },
              { u with outside := outside })
    else (none, { u with errno := enomem })

/-- Whether a crate can be opened. -/
def Os.opens (unitId : ℤ) (s : σ) : Bool :=
  let (granted, s) := os.malloc s
  granted &&
    match os.openDevice .ctrl unitId s with
    | (.error _, _) => false
    | (.ok fd, s) => (os.mmap v120MmapSize fd 0 s).1.isOk

/-- `v120_close`. -/
def v120Close (h : V120Handle) (u : Unopened σ) : Unopened σ :=
  let s := h.mmlist.foldl (fun s item => os.munmap item.ptr item.size s) u.outside
  let s := if h.mapptr ≠ null then os.munmap h.mapptr v120MmapSize s else s
  let s := os.close h.fdCtrl s
  { u with outside := if h.fdVme ≥ 0 then os.close h.fdVme s else s }

/-- The loop of `v120_next`, with so many crate numbers left to try up to 15. -/
def nextCrate : ℕ → Unopened σ → Option V120Handle × Unopened σ
  | 0, u => (none, u)
  | left + 1, u =>
    let tried := v120Open os (15 - left) u
    match tried.1 with
    | some h => (some h, tried.2)
    | none => nextCrate left tried.2

/-- `v120_next`. -/
def v120Next (hV120 : Option V120Handle) (u : Unopened σ) : Option V120Handle × Unopened σ :=
  match hV120 with
  | none => nextCrate os 16 u
  | some h => nextCrate os (16 - (h.crateno + 1)).toNat (v120Close os h u)

/-- A handle for which nothing was mapped or configured yet. -/
structure V120Handle.Fresh (h : V120Handle) : Prop where
  listHead : h.listHead = []
  fdVme : h.fdVme = -1
  written : h.pd.written = []
  mmlist : h.mmlist = []

variable {os}

/-- A crate that opens has a fresh handle, and `errno` stays as it was. -/
theorem v120Open_some {unitId : ℤ} {u : Unopened σ} {h : V120Handle}
    (hopen : (v120Open os unitId u).1 = some h) :
    h.Fresh ∧ h.crateno = unitId ∧ (v120Open os unitId u).2.errno = u.errno := by
  unfold v120Open at hopen ⊢
  split_ifs at hopen ⊢ with hunit
  dsimp only at hopen ⊢
  split_ifs at hopen ⊢ with hgranted
  generalize os.openDevice .ctrl unitId (os.malloc u.outside).2 = answer at hopen ⊢
  obtain ⟨errno | fd, outside⟩ := answer
  · exact absurd hopen (Option.some_ne_none h).symm
  · dsimp only at hopen ⊢
    generalize os.mmap v120MmapSize fd 0 outside = answer at hopen ⊢
    obtain ⟨errno | ptr, outside⟩ := answer
    · exact absurd hopen (Option.some_ne_none h).symm
    · dsimp only at hopen ⊢
      split_ifs at hopen ⊢
      obtain rfl := Option.some.inj hopen
      exact ⟨⟨rfl, rfl, rfl, rfl⟩, rfl, rfl⟩

/-- A crate that does not open leaves an `errno`. -/
theorem v120Open_none {window : σ → Pointer → Option (ℤ × ℕ)} (hmaps : os.Maps window) {unitId : ℤ}
    {u : Unopened σ} (hopen : (v120Open os unitId u).1 = none) : 0 < (v120Open os unitId u).2.errno := by
  have heinval : 0 < einval := by decide
  unfold v120Open at hopen ⊢
  split_ifs at hopen ⊢ with hunit
  · exact heinval
  · dsimp only at hopen ⊢
    split_ifs at hopen ⊢ with hgranted
    · generalize os.openDevice .ctrl unitId (os.malloc u.outside).2 = answer at hopen ⊢
      obtain ⟨errno | fd, outside⟩ := answer
      · exact errno.property
      · have hpointer := hmaps.pointer v120MmapSize fd 0 outside
        dsimp only at hopen ⊢
        generalize os.mmap v120MmapSize fd 0 outside = answer at hopen hpointer ⊢
        obtain ⟨errno | ptr, outside⟩ := answer
        · exact errno.property
        · dsimp only at hopen ⊢
          split_ifs at hopen ⊢ with hfailed
          exact absurd hfailed (not_or.mpr (hpointer ptr rfl))
    · exact enomem_pos

/-- `v120_open` opens the crates that can be opened. -/
theorem v120Open_isSome {window : σ → Pointer → Option (ℤ × ℕ)} (hmaps : os.Maps window) {unitId : ℤ}
    (hunit : unitId ≤ 15) (u : Unopened σ) : (v120Open os unitId u).1.isSome = os.opens unitId u.outside := by
  unfold v120Open Os.opens
  rw [if_neg (Int.not_lt.mpr hunit)]
  dsimp only
  cases (os.malloc u.outside).1 with
  | false => rfl
  | true =>
    rw [if_pos rfl, Bool.true_and]
    generalize os.openDevice .ctrl unitId (os.malloc u.outside).2 = answer
    obtain ⟨errno | fd, outside⟩ := answer
    · rfl
    · have hpointer := hmaps.pointer v120MmapSize fd 0 outside
      dsimp only
      generalize os.mmap v120MmapSize fd 0 outside = answer at hpointer
      obtain ⟨errno | ptr, outside⟩ := answer
      · rfl
      · dsimp only
        rw [if_neg (not_or.mpr (hpointer ptr rfl))]
        rfl

/-- A crate that was found has a fresh handle. -/
theorem nextCrate_fresh {left : ℕ} {u : Unopened σ} {h : V120Handle}
    (hopen : (nextCrate os left u).1 = some h) : h.Fresh := by
  induction left generalizing u with
  | zero => exact absurd hopen (Option.some_ne_none h).symm
  | succ left ih =>
    rw [nextCrate] at hopen
    cases htried : (v120Open os (15 - left) u).1 with
    | some h' =>
      rw [htried] at hopen
      obtain rfl := Option.some.inj hopen
      exact (v120Open_some htried).1
    | none =>
      rw [htried] at hopen
      exact ih hopen

/-- An `errno` stays until a crate is found. -/
theorem nextCrate_errno {window : σ → Pointer → Option (ℤ × ℕ)} (hmaps : os.Maps window) {left : ℕ}
    {u : Unopened σ} (hstale : 0 < u.errno) : 0 < (nextCrate os left u).2.errno := by
  induction left generalizing u with
  | zero => exact hstale
  | succ left ih =>
    rw [nextCrate]
    cases htried : (v120Open os (15 - left) u).1 with
    | some h' =>
      have hsame := (v120Open_some htried).2.2
      exact hsame ▸ hstale
    | none => exact ih (v120Open_none hmaps htried)

/-- `v120_next` leaves `errno` as it was exactly when the first crate opens. -/
theorem v120Next_errno {window : σ → Pointer → Option (ℤ × ℕ)} (hmaps : os.Maps window) {u : Unopened σ}
    (hclean : u.errno = 0) : (v120Next os none u).2.errno = 0 ↔ (v120Open os 0 u).1.isSome = true := by
  have hcall : v120Next os none u = nextCrate os 16 u := rfl
  rw [hcall, nextCrate]
  cases htried : (v120Open os (15 - ((15 : ℕ) : ℤ)) u).1 with
  | some h' =>
    have hsame := (v120Open_some htried).2.2
    have hfirst : (v120Open os 0 u).1.isSome = true := by
      rw [show v120Open os 0 u = v120Open os (15 - ((15 : ℕ) : ℤ)) u from rfl, htried]
      rfl
    exact ⟨fun _ => hfirst, fun _ => hsame.trans hclean⟩
  | none =>
    have hstale : 0 < (nextCrate os 15 (v120Open os (15 - ((15 : ℕ) : ℤ)) u).2).2.errno :=
      nextCrate_errno hmaps (v120Open_none hmaps htried)
    have hfirst : (v120Open os 0 u).1 = none := htried
    rw [hfirst]
    exact ⟨fun hzero => absurd hstale (hzero ▸ Int.lt_irrefl _), fun hsome => absurd hsome Bool.false_ne_true⟩

end Calls

end V120.Vme
