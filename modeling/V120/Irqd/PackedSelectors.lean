import V120.Irqd.TableRuns

/-!
# The comparison of packed selectors

With `USE_U64_HASH` the two comparisons of the vector table read crate, irq and vector as one number of
64 bits. The functions of the table are the same in both builds, so they are stated here with the
comparisons as a parameter; those of the plain build are the ones used elsewhere.
-/

namespace V120.Irqd

open V120.Common

/-- The order of the bytes of a number in memory. -/
inductive ByteOrder where
  | little
  | big
  deriving DecidableEq

/-- `*(uint64_t *)&sel->crate`, where crate, irq and vector follow one another in eight bytes. -/
def packedSelector : ByteOrder → V120irqdSelector → BitVec 64
  | .little, sel => packed sel.vector sel.irq sel.crate
  | .big, sel => packed sel.crate sel.irq sel.vector

/-- `hashmatch` with `USE_U64_HASH`. -/
def hashmatchU64 (order : ByteOrder) (sel req : V120irqdSelector) : Bool :=
  packedSelector order sel &&& packedSelector order req == packedSelector order req

/-- `hasheq` with `USE_U64_HASH`. -/
def hasheqU64 (order : ByteOrder) (sel req : V120irqdSelector) : Bool :=
  packedSelector order sel == packedSelector order req

/-- What a build compares selectors with. -/
structure Build where
  hashmatch : V120irqdSelector → V120irqdSelector → Bool
  hasheq : V120irqdSelector → V120irqdSelector → Bool

/-- The build without `USE_U64_HASH`. -/
def Build.plain : Build := ⟨Irqd.hashmatch, Irqd.hasheq⟩

/-- The build with `USE_U64_HASH`. -/
def Build.u64 (order : ByteOrder) : Build := ⟨hashmatchU64 order, hasheqU64 order⟩

namespace Build

/-- The test of an entry in `locate_interrupt`. -/
def entryMatches (build : Build) (request sel : V120irqdSelector) : Bool :=
  build.hashmatch sel request && (sel.vector == anyVector || sel.vector == request.vector)

/-- `locate_interrupt`. -/
def locateInterrupt (build : Build) (request : V120irqdSelector) (table : VectorTable) (start : ℕ) :
    Option ℕ :=
  match foreachVectorSt (fun ptr => build.entryMatches request ptr.selector) table start with
  | (ptr, true) => some ptr
  | (_, false) => none

/-- `find_interrupt`. -/
def findInterrupt (build : Build) (request : V120irqdSelector) (table : VectorTable) :
    Except ℤ (ℤ × V120irqdSelector) :=
  match build.locateInterrupt request table 0 with
  | none => .error einval
  | some ptr =>
    let entry := table.getD ptr TableT.zero
    .ok (entry.data, { request with payload := entry.selector.payload })

/-- `register_interrupt`. -/
def registerInterrupt (build : Build) (realloc : Realloc) (sd : ℤ) (request : V120irqdSelector)
    (table : VectorTable) : ℤ × VectorTable :=
  if sd = 0 then (-einval, table)
  else if request.crate = 0 then (-einval, table)
  else if request.irq = 0 ∨ request.irq &&& ~~~anyIrq ≠ 0 then (-einval, table)
  else
    match build.locateInterrupt request table 0 with
    | some _ => (-eaddrinuse, table)
    | none =>
      let ptr := (foreachVectorSt (fun _ => false) table 0).1
      if ptr = table.length then
        match realloc with
        | .failed errno => (-errno.val, table)
        | .moved stale =>
          let oldCount := table.length
          let grown := memset (table ++ List.ofFn stale) oldCount interruptVectorIncr TableT.zero
          (0, grown.set oldCount ⟨request, sd⟩)
      else (0, table.set ptr ⟨request, sd⟩)

/-- `release_interrupt`. -/
def releaseInterrupt (build : Build) (sd : ℤ) (request : V120irqdSelector) (table : VectorTable) :
    ℤ × VectorTable :=
  match foreachVectorSt (fun ptr => build.hasheq ptr.selector request) table 0 with
  | (_, false) => (-einval, table)
  | (current, true) =>
    if (table.getD current TableT.zero).data ≠ sd then (-einval, table)
    else (0, removeEntry table current)

/-- A call on the block in a build. -/
def onTable (build : Build) : TableOp → VectorTable → TableResult × VectorTable
  | .register realloc sd request, table =>
    let (ret, after) := build.registerInterrupt realloc sd request table
    (.code ret, after)
  | .release sd request, table =>
    let (ret, after) := build.releaseInterrupt sd request table
    (.code ret, after)
  | .releaseAll sd, table =>
    let (ret, after) := releaseAllInterrupts sd table
    (.code ret, after)
  | .find request, table => (.found (build.findInterrupt request table), table)
  | .count, table => (.number (countRegisteredInterrupts table), table)
  | .list, table => (.masks (listRegisteredInterrupts table), table)

end Build

/-- The functions of the plain build are those of the vector table. -/
theorem plain_locateInterrupt : Build.plain.locateInterrupt = locateInterrupt := rfl

/-- Looking up. -/
theorem plain_findInterrupt : Build.plain.findInterrupt = findInterrupt := rfl

/-- Registering. -/
theorem plain_registerInterrupt : Build.plain.registerInterrupt = registerInterrupt := rfl

/-- Releasing. -/
theorem plain_releaseInterrupt : Build.plain.releaseInterrupt = releaseInterrupt := rfl

/-- Any call. -/
theorem plain_onTable : Build.plain.onTable = TableOp.onTable := by
  funext op table
  cases op <;> rfl

/-- Packed selectors are equal when their keys are. -/
theorem hasheqU64_eq (order : ByteOrder) : hasheqU64 order = hasheq := by
  funext sel req
  apply Bool.eq_iff_iff.mpr
  rw [hasheqU64, beq_iff_eq, hasheq, Bool.and_eq_true, Bool.and_eq_true, beq_iff_eq, beq_iff_eq, beq_iff_eq]
  cases order with
  | little =>
    rw [packedSelector, packedSelector]
    apply (packed_inj_iff _ _ _ _ _ _).trans
    exact and_comm.trans (and_congr_left' and_comm)
  | big =>
    rw [packedSelector, packedSelector]
    exact (packed_inj_iff _ _ _ _ _ _).trans and_assoc.symm

/-- A packed selector contains another when each field does. -/
theorem hashmatchU64_eq (order : ByteOrder) : hashmatchU64 order = hashmatch := by
  funext sel req
  apply Bool.eq_iff_iff.mpr
  rw [hashmatchU64, beq_iff_eq, hashmatch, Bool.and_eq_true, Bool.and_eq_true, beq_iff_eq, beq_iff_eq,
    beq_iff_eq]
  cases order with
  | little =>
    rw [packedSelector, packedSelector]
    have hshared := packed_and sel.vector req.vector sel.irq req.irq sel.crate req.crate
    apply ((Eq.congr_left hshared).trans (packed_inj_iff _ _ _ _ _ _)).trans
    exact and_comm.trans (and_congr_left' and_comm)
  | big =>
    rw [packedSelector, packedSelector]
    have hshared := packed_and sel.crate req.crate sel.irq req.irq sel.vector req.vector
    exact (Eq.congr_left hshared).trans ((packed_inj_iff _ _ _ _ _ _).trans and_assoc.symm)

/-- The 64-bit and the plain build compare alike. -/
theorem u64_eq_plain (order : ByteOrder) : Build.u64 order = Build.plain := by
  rw [Build.u64, hashmatchU64_eq, hasheqU64_eq, Build.plain]

/-- A build behaves as the functions of the plain vector table: the comparisons and the calls give the same
results and leave the same table, in any sequence of calls on any table, and an entry matches a request
when it covers it. -/
structure Build.BehavesAsPlain (build : Build) : Prop where
  hashmatch : ∀ sel req, build.hashmatch sel req = Irqd.hashmatch sel req
  hasheq : ∀ sel req, build.hasheq sel req = Irqd.hasheq sel req
  locate : ∀ request table start,
    build.locateInterrupt request table start = Irqd.locateInterrupt request table start
  find : ∀ request table, build.findInterrupt request table = Irqd.findInterrupt request table
  register : ∀ realloc sd request table,
    build.registerInterrupt realloc sd request table = Irqd.registerInterrupt realloc sd request table
  release : ∀ sd request table,
    build.releaseInterrupt sd request table = Irqd.releaseInterrupt sd request table
  runs : ∀ ops table, runOps build.onTable ops table = runOps TableOp.onTable ops table
  covers : ∀ request sel, build.entryMatches request sel = true ↔ Covers sel request

/-- The build with `USE_U64_HASH` behaves as the plain one, and so does the plain one. -/
theorem builds_behave_alike (order : ByteOrder) :
    (Build.u64 order).BehavesAsPlain ∧ Build.plain.BehavesAsPlain := by
  have hplain : Build.plain.BehavesAsPlain := by
    constructor
    · exact fun _ _ => rfl
    · exact fun _ _ => rfl
    · intro request table start
      rw [plain_locateInterrupt]
    · intro request table
      rw [plain_findInterrupt]
    · intro realloc sd request table
      rw [plain_registerInterrupt]
    · intro sd request table
      rw [plain_releaseInterrupt]
    · intro ops table
      rw [plain_onTable]
    · intro request sel
      exact hashmatch_and_vector_iff sel request
  refine ⟨?_, hplain⟩
  rw [u64_eq_plain]
  exact hplain

end V120.Irqd
