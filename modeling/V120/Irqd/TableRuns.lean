import V120.Common.FirstMatch
import V120.Common.Runs
import V120.Irqd.TableRefinement

/-!
# Runs of the vector table

Any sequence of table calls from the empty table, with any pattern of allocation failures,
gives the answers of the list of registrations and leaves the block that stores it. Calls
made for other clients never move a client's registrations or the lookups they win.
-/

namespace V120.Irqd

open V120.Common

/-- A call of `irq_vector_table.c`; a registration carries what `realloc` would answer. -/
inductive TableOp where
  | register (realloc : Realloc) (sd : ℤ) (request : V120irqdSelector)
  | release (sd : ℤ) (request : V120irqdSelector)
  | releaseAll (sd : ℤ)
  | find (request : V120irqdSelector)
  | count
  | list

/-- What a call returns. -/
inductive TableResult where
  | code (ret : ℤ)
  | found (answer : Except ℤ (ℤ × V120irqdSelector))
  | number (n : ℕ)
  | masks (irqs : CrateMasks)

/-- The client a call is made for; lookups and listings are made for nobody. -/
def TableOp.client : TableOp → Option ℤ
  | .register _ sd _ => some sd
  | .release sd _ => some sd
  | .releaseAll sd => some sd
  | .find _ => none
  | .count => none
  | .list => none

/-- A call on the block. -/
def TableOp.onTable : TableOp → VectorTable → TableResult × VectorTable
  | .register realloc sd request, table =>
    let (ret, after) := registerInterrupt realloc sd request table
    (.code ret, after)
  | .release sd request, table =>
    let (ret, after) := releaseInterrupt sd request table
    (.code ret, after)
  | .releaseAll sd, table =>
    let (ret, after) := releaseAllInterrupts sd table
    (.code ret, after)
  | .find request, table => (.found (findInterrupt request table), table)
  | .count, table => (.number (countRegisteredInterrupts table), table)
  | .list, table => (.masks (listRegisteredInterrupts table), table)

/-- A call on the list of registrations. -/
def TableOp.onRegistry : TableOp → Registry → TableResult × Registry
  | .register realloc sd request, r =>
    let (ret, after) := r.register realloc sd request
    (.code ret, after)
  | .release sd request, r =>
    let (ret, after) := r.release sd request
    (.code ret, after)
  | .releaseAll sd, r => (.code 0, r.releaseAll sd)
  | .find request, r =>
    (.found (match r.lookup request with
      | none => .error einval
      | some reg => .ok (reg.owner, { request with payload := reg.selector.payload })), r)
  | .count, r => (.number r.entries.length, r)
  | .list, r => (.masks r.lines, r)

/-- One call on a stored registry is the same call on the registry. -/
theorem TableOp.onTable_layout (op : TableOp) (r : Registry) :
    op.onTable r.layout = ((op.onRegistry r).1, (op.onRegistry r).2.layout) := by
  cases op with
  | register realloc sd request =>
    simp only [TableOp.onTable, TableOp.onRegistry, r.registerInterrupt_layout]
  | release sd request => simp only [TableOp.onTable, TableOp.onRegistry, r.releaseInterrupt_layout]
  | releaseAll sd => simp only [TableOp.onTable, TableOp.onRegistry, r.releaseAllInterrupts_layout]
  | find request =>
    exact congrArg (fun found => (TableResult.found found, r.layout)) (r.findInterrupt_layout request)
  | count =>
    simp only [TableOp.onTable, TableOp.onRegistry, r.countRegisteredInterrupts_layout]
  | list => simp only [TableOp.onTable, TableOp.onRegistry, r.listRegisteredInterrupts_layout]

/-- Runs on the block and on the list of registrations stay together. -/
theorem runTable_layout (ops : List TableOp) (r : Registry) :
    (runOps TableOp.onTable ops r.layout).1 = (runOps TableOp.onRegistry ops r).1 ∧
      (runOps TableOp.onTable ops r.layout).2 = (runOps TableOp.onRegistry ops r).2.layout := by
  refine runOps_simulation TableOp.onTable TableOp.onRegistry (fun table r => table = r.layout)
    ?_ ops r.layout r rfl
  rintro op _ r rfl
  rw [op.onTable_layout r]
  exact ⟨rfl, rfl⟩

/-- The tables that calls can lead to, starting with no memory at all. -/
def ReachableTable (table : VectorTable) : Prop :=
  ∃ ops, (runOps TableOp.onTable ops []).2 = table

/-- Every reachable table stores the registry reached by the same calls. -/
theorem ReachableTable.exists_registry {table : VectorTable} (h : ReachableTable table) :
    ∃ r : Registry, table = r.layout := by
  obtain ⟨ops, rfl⟩ := h
  exact ⟨_, (runTable_layout ops Registry.empty).2⟩

/-- **The flat table refines the ordered list of registrations.** After any calls from the empty
table, under any pattern of allocation failures, every answer is the list model's and the block
is the model's list of valid entries followed by zero cells only. -/
theorem vectorTable_refines_registry (ops : List TableOp) :
    (runOps TableOp.onTable ops []).1 = (runOps TableOp.onRegistry ops Registry.empty).1 ∧
      ∃ spare,
        (runOps TableOp.onTable ops []).2 =
          (runOps TableOp.onRegistry ops Registry.empty).2.entries.map Registration.entry ++
            List.replicate spare TableT.zero ∧
        ∀ reg ∈ (runOps TableOp.onRegistry ops Registry.empty).2.entries,
          reg.entry.data ≠ 0 ∧ reg.entry.selector.crate ≠ 0 ∧ reg.entry.selector.irq ≠ 0 ∧
            MaskIn reg.entry.selector.irq anyIrq := by
  obtain ⟨hanswers, htable⟩ := runTable_layout ops Registry.empty
  exact ⟨hanswers, _, htable, fun reg _ =>
    ⟨reg.legal.owner, reg.legal.crate, reg.legal.irq, reg.legal.lines⟩⟩

/-- What a client can observe of its own registrations: their order and contents, and that it
still wins a lookup it won before. -/
structure Undisturbed (sd : ℤ) (request : V120irqdSelector) (before after : Registry) : Prop where
  owned : after.owned sd = before.owned sd
  lookup : ∀ reg, before.lookup request = some reg → reg.owner = sd →
    after.lookup request = some reg

/-- Nothing happened. -/
theorem Undisturbed.refl (sd : ℤ) (request : V120irqdSelector) (r : Registry) :
    Undisturbed sd request r r :=
  ⟨rfl, fun _ h _ => h⟩

/-- Appending another client's registration disturbs nobody. -/
theorem undisturbed_append {sd : ℤ} (request : V120irqdSelector) {r after : Registry}
    (reg : Registration) (howner : reg.owner ≠ sd) (hafter : after.entries = r.entries ++ [reg]) :
    Undisturbed sd request r after := by
  constructor
  · rw [Registry.owned, Registry.owned, hafter, List.filter_append,
      List.filter_cons_of_neg (by simpa using howner), List.filter_nil, List.append_nil]
  · intro found hfound _
    rw [Registry.lookup, hafter]
    exact find?_append_of_some hfound [reg]

/-- A registration for another client disturbs nobody. -/
theorem undisturbed_register {sd other : ℤ} (hother : other ≠ sd) (request : V120irqdSelector)
    (r : Registry) (realloc : Realloc) (added : V120irqdSelector) :
    Undisturbed sd request r (r.register realloc other added).2 := by
  unfold Registry.register
  split
  · next hlegal =>
    split
    · split
      · exact undisturbed_append request (.ofRequest other added hlegal) hother rfl
      · cases realloc with
        | failed errno => exact .refl sd request r
        | moved stale => exact undisturbed_append request (.ofRequest other added hlegal) hother rfl
    · exact .refl sd request r
  · exact .refl sd request r

/-- A release for another client removes one of that client's own registrations, or none. -/
theorem undisturbed_release {sd other : ℤ} (hother : other ≠ sd) (request : V120irqdSelector)
    (r : Registry) (removed : V120irqdSelector) :
    Undisturbed sd request r (r.release other removed).2 := by
  unfold Registry.release
  split
  · exact .refl sd request r
  · next reg hfind =>
    split
    · next howner =>
      constructor
      · apply filter_eraseP
        intro dropped hdropped
        rw [hfind, Option.some.injEq] at hdropped
        subst hdropped
        rw [howner]
        exact beq_false_of_ne hother
      · intro found hfound hsd
        apply find?_eraseP_of_some hfound
        rintro dropped hdropped rfl
        rw [hfind, Option.some.injEq] at hdropped
        subst hdropped
        exact hother (howner ▸ hsd)
    · exact .refl sd request r

/-- Dropping all of another client's registrations disturbs nobody. -/
theorem undisturbed_releaseAll {sd other : ℤ} (hother : other ≠ sd) (request : V120irqdSelector)
    (r : Registry) : Undisturbed sd request r (r.releaseAll other) := by
  constructor
  · rw [Registry.owned, Registry.owned, Registry.releaseAll, Registry.entries_filter,
      List.filter_filter]
    apply List.filter_congr
    intro reg _
    by_cases hreg : reg.owner = sd
    · simp [hreg, hother.symm]
    · simp [hreg]
  · intro found hfound hsd
    exact find?_filter_of_some hfound _ (by simpa [hsd] using hother.symm)

/-- No call made for another client disturbs a client. -/
theorem undisturbed_onRegistry {sd : ℤ} (request : V120irqdSelector) (op : TableOp)
    (hop : op.client ≠ some sd) (r : Registry) : Undisturbed sd request r (op.onRegistry r).2 := by
  cases op with
  | register realloc other added =>
    exact undisturbed_register (fun h => hop (congrArg some h)) request r realloc added
  | release other removed =>
    exact undisturbed_release (fun h => hop (congrArg some h)) request r removed
  | releaseAll other => exact undisturbed_releaseAll (fun h => hop (congrArg some h)) request r
  | find _ => exact .refl sd request r
  | count => exact .refl sd request r
  | list => exact .refl sd request r

/-- Undisturbed steps compose: a lookup won in between is won by the same registration. -/
theorem Undisturbed.trans {sd : ℤ} {request : V120irqdSelector} {r₁ r₂ r₃ : Registry}
    (h₁ : Undisturbed sd request r₁ r₂) (h₂ : Undisturbed sd request r₂ r₃) :
    Undisturbed sd request r₁ r₃ :=
  ⟨h₂.owned.trans h₁.owned, fun reg hreg hsd => h₂.lookup reg (h₁.lookup reg hreg hsd) hsd⟩

/-- No run of calls made for other clients disturbs a client. -/
theorem undisturbed_runs {sd : ℤ} (request : V120irqdSelector) (ops : List TableOp)
    (hops : ∀ op ∈ ops, op.client ≠ some sd) (r : Registry) :
    Undisturbed sd request r (runOps TableOp.onRegistry ops r).2 :=
  runOps_invariant TableOp.onRegistry (Undisturbed sd request r) (fun op => op.client ≠ some sd)
    (fun op s hop hs => hs.trans (undisturbed_onRegistry request op hop s)) ops hops r
    (.refl sd request r)

/-- The entries one client owns, in table order. -/
def ownedEntries (sd : ℤ) (table : VectorTable) : List TableT :=
  (foreachVector table).filter fun entry => entry.data == sd

/-- The owned entries of a stored registry. -/
theorem ownedEntries_layout (sd : ℤ) (r : Registry) :
    ownedEntries sd r.layout = (r.owned sd).map Registration.entry := by
  rw [ownedEntries, r.foreachVector_layout, List.filter_map]
  rfl

/-- **No client can take an interrupt away from another.** From any reachable table, calls made
for other clients leave a client's entries unchanged, and a request that the client received
with some payload is still the client's with the same payload. -/
theorem noClient_takes_interrupt {table : VectorTable} (hreach : ReachableTable table) (sd : ℤ)
    (request answer : V120irqdSelector) (ops : List TableOp)
    (hfound : findInterrupt request table = .ok (sd, answer))
    (hops : ∀ op ∈ ops, op.client ≠ some sd) :
    findInterrupt request (runOps TableOp.onTable ops table).2 = .ok (sd, answer) ∧
      ownedEntries sd (runOps TableOp.onTable ops table).2 = ownedEntries sd table := by
  obtain ⟨r, rfl⟩ := hreach.exists_registry
  have hsame := undisturbed_runs request ops hops r
  rw [(runTable_layout ops r).2, ownedEntries_layout, ownedEntries_layout, hsame.owned]
  refine ⟨?_, rfl⟩
  rw [r.findInterrupt_layout] at hfound
  cases hlookup : r.lookup request with
  | none => simp [hlookup] at hfound
  | some reg =>
    rw [hlookup] at hfound
    simp only [Except.ok.injEq, Prod.mk.injEq] at hfound
    rw [Registry.findInterrupt_layout, hsame.lookup reg hlookup hfound.1]
    simp only [hfound.1, hfound.2]

/-- Client 5 registered crate 0, line 1 for every vector; client 6 tries to take one vector of it,
registers another line, and drops everything again. -/
theorem noClient_takes_interrupt_overlap :
    let table := (runOps TableOp.onTable
      [.register (.moved fun _ => TableT.zero) 5 ⟨1, 2, anyVector, 7⟩] []).2
    let ops : List TableOp :=
      [.register (.moved fun _ => TableT.zero) 6 ⟨1, 6, 9, 8⟩,
        .register (.moved fun _ => TableT.zero) 6 ⟨1, 4, 9, 8⟩, .release 6 ⟨1, 2, anyVector, 0⟩,
        .releaseAll 6]
    findInterrupt ⟨1, 2, 9, 0⟩ (runOps TableOp.onTable ops table).2 = .ok (5, ⟨1, 2, 9, 7⟩) ∧
      ownedEntries 5 (runOps TableOp.onTable ops table).2 = ownedEntries 5 table :=
  noClient_takes_interrupt ⟨_, rfl⟩ 5 _ _ _ rfl (by decide)

end V120.Irqd
