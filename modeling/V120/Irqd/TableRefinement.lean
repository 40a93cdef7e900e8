import V120.Irqd.Registry
import Mathlib.Data.List.InsertIdx

/-!
# The vector table refines the list of registrations

Each function of `irq_vector_table.c`, run on the block that stores a registry, returns the
registry's answer and leaves the block that stores the registry's next state. The run
theorem composes these over any sequence of calls from the empty table.
-/

namespace V120.Irqd

open V120.Common

/-- The zero cell ends every loop. -/
theorem inUse_zero : TableT.zero.inUse = false := rfl

/-- Running off the last item, a loop without a body stops at the item count. -/
theorem foreachVectorSt_end {table : VectorTable} {items : List TableT}
    (h : Stores TableT.inUse TableT.zero table items) (start : ℕ) (hstart : start ≤ items.length) :
    (foreachVectorSt (fun _ => false) table start).1 = items.length :=
  h.scan_end inUse_zero start hstart

/-- Removing an entry deletes exactly that item and keeps the block's size. -/
theorem removeEntry_spec {table : VectorTable} {items : List TableT}
    (h : Stores TableT.inUse TableT.zero table items) (victim : ℕ) (hvictim : victim < items.length) :
    Stores TableT.inUse TableT.zero (removeEntry table victim) (items.eraseIdx victim) ∧
      (removeEntry table victim).length = table.length := by
  have hle := h.length_le
  have hmove : (if items.length - 1 ≠ victim then
        memmove table victim (victim + 1) (items.length - 1 - victim) else table) =
      memmove table victim (victim + 1) (items.length - 1 - victim) := by
    split
    · rfl
    · next hlast =>
      rw [not_not] at hlast
      rw [memmove, hlast, Nat.sub_self, List.take_zero, List.append_nil, Nat.add_zero,
        List.take_append_drop]
  rw [removeEntry, foreachVectorSt_end h victim hvictim.le]
  simp only [hmove]
  refine ⟨h.eraseIdx victim hvictim, ?_⟩
  simp only [memmove, List.length_set, List.length_append, List.length_take, List.length_drop]
  omega

namespace Registry

/-- `locate_interrupt` finds the position of the first covering registration. -/
theorem locateInterrupt_layout (r : Registry) (request : V120irqdSelector) :
    locateInterrupt request r.layout 0 =
      r.entries.findIdx? fun reg => decide (Covers reg.selector request) := by
  have htest : ((fun ptr : TableT => hashmatch ptr.selector request &&
      (ptr.selector.vector == anyVector || ptr.selector.vector == request.vector)) ∘
        Registration.entry) = fun reg : Registration => decide (Covers reg.selector request) := by
    funext reg
    rw [Bool.eq_iff_iff, decide_eq_true_iff]
    exact hashmatch_and_vector_iff _ _
  rw [locateInterrupt, foreachVectorSt, r.stores_layout.scan_eq inUse_zero _ 0 (Nat.zero_le _),
    List.drop_zero, List.findIdx?_map, htest]
  cases r.entries.findIdx? _ with
  | none => rfl
  | some i => simp

/-- `find_interrupt` answers with the registry's lookup. -/
theorem findInterrupt_layout (r : Registry) (request : V120irqdSelector) :
    findInterrupt request r.layout =
      match r.lookup request with
      | none => .error einval
      | some reg => .ok (reg.owner, { request with payload := reg.selector.payload }) := by
  rw [findInterrupt, locateInterrupt_layout, lookup]
  cases hfind : r.entries.findIdx? _ with
  | none =>
    rw [List.findIdx?_eq_none_iff] at hfind
    rw [List.find?_eq_none.mpr fun reg hreg => by simp [hfind reg hreg]]
  | some i =>
    obtain ⟨hi, htest, hbefore⟩ := List.findIdx?_eq_some_iff_getElem.mp hfind
    have hfirst : r.entries.find? (fun reg => decide (Covers reg.selector request)) =
        some r.entries[i] := by
      rw [List.find?_eq_some_iff_getElem]
      exact ⟨htest, i, hi, rfl, fun j hj => by simpa using hbefore j hj⟩
    have hcell : r.layout.getD i TableT.zero = r.entries[i].entry := by
      rw [r.stores_layout.getD_eq _ i (by simpa using hi), List.getElem_map]
    simp only [hfirst, hcell]
    rfl

/-- A request is covered exactly when `locate_interrupt` finds an entry. -/
theorem locateInterrupt_isSome (r : Registry) (request : V120irqdSelector) :
    (locateInterrupt request r.layout 0).isSome = (r.lookup request).isSome := by
  rw [locateInterrupt_layout, lookup, List.findIdx?_isSome, Bool.eq_iff_iff, List.any_eq_true,
    List.find?_isSome]

/-- The unused bits test of `register_interrupt` is inclusion in `ANYIRQ`. -/
theorem irq_and_not_eq_zero_iff (irq : BitVec 16) :
    irq &&& ~~~anyIrq = 0 ↔ MaskIn irq anyIrq := by
  constructor
  · intro h i hi
    have hbit := congrArg (fun mask => mask.getLsbD i) h
    have hlt : i < 16 := BitVec.lt_of_getLsbD hi
    simpa [hi, hlt] using hbit
  · intro h
    apply BitVec.eq_of_getLsbD_eq
    intro i hi
    cases hbit : irq.getLsbD i with
    | false => simp [hbit]
    | true => simp [hbit, h i hbit]

/-- `register_interrupt` refuses an illegal request and leaves the table alone. -/
theorem registerInterrupt_illegal (realloc : Realloc) (sd : ℤ) (request : V120irqdSelector)
    (table : VectorTable) (h : ¬ Legal sd request) :
    registerInterrupt realloc sd request table = (-einval, table) := by
  unfold registerInterrupt
  split
  · rfl
  · next howner =>
    split
    · rfl
    · next hcrate =>
      rw [if_pos]
      by_contra hirq
      rw [not_or, not_not, irq_and_not_eq_zero_iff] at hirq
      exact h ⟨howner, hcrate, hirq.1, hirq.2⟩

/-- The cell a new registration is written to, in the old block or in a grown one. -/
theorem set_layout {table : VectorTable} (r : Registry) (reg : Registration) (capacity : ℕ)
    (hroom : r.entries.length < capacity) (hfree : r.lookup reg.selector = none)
    (h : Stores TableT.inUse TableT.zero table (r.entries.map Registration.entry))
    (hlen : table.length = capacity) :
    table.set r.entries.length reg.entry = (r.append reg capacity hroom hfree).layout := by
  have hlength : (r.entries.map Registration.entry).length = r.entries.length := List.length_map _
  apply eq_layout
  · have hpush := h.push reg.entry reg.inUse (by omega)
    rw [hlength] at hpush
    simpa only [append, List.map_append, List.map_singleton] using hpush
  · rw [List.length_set, hlen]
    rfl

/-- `register_interrupt` is the registry's `register`. -/
theorem registerInterrupt_layout (r : Registry) (realloc : Realloc) (sd : ℤ)
    (request : V120irqdSelector) :
    registerInterrupt realloc sd request r.layout =
      ((r.register realloc sd request).1, (r.register realloc sd request).2.layout) := by
  by_cases hlegal : Legal sd request
  · have hirq : ¬ (request.irq = 0 ∨ request.irq &&& ~~~anyIrq ≠ 0) := by
      rw [not_or, not_not, irq_and_not_eq_zero_iff]
      exact ⟨hlegal.irq, hlegal.lines⟩
    have hend : (foreachVectorSt (fun _ => false) r.layout 0).1 = r.entries.length := by
      rw [foreachVectorSt_end r.stores_layout 0 (Nat.zero_le _), List.length_map]
    have hsome := r.locateInterrupt_isSome request
    unfold registerInterrupt register
    rw [if_neg hlegal.owner, if_neg hlegal.crate, if_neg hirq, dif_pos hlegal]
    cases hfind : locateInterrupt request r.layout 0 with
    | some i =>
      rw [hfind, Option.isSome_some] at hsome
      rw [dif_neg (Option.isSome_iff_ne_none.mp hsome.symm)]
    | none =>
      rw [hfind, Option.isSome_none] at hsome
      have hfree : r.lookup request = none := Option.isNone_iff_eq_none.mp (by simpa using hsome.symm)
      simp only [hend, length_layout, dif_pos hfree]
      by_cases hroom : r.entries.length < r.capacity
      · rw [if_neg hroom.ne, dif_pos hroom,
          ← set_layout r (.ofRequest sd request hlegal) r.capacity hroom hfree r.stores_layout
            r.length_layout]
        rfl
      · have hfull : r.capacity = r.entries.length :=
          Nat.le_antisymm (Nat.le_of_not_lt hroom) r.fits
        rw [if_pos hfull.symm, dif_neg hroom]
        cases realloc with
        | failed errno => rfl
        | moved stale =>
          have hgrow := r.stores_layout.grow (List.ofFn stale)
          have hlength := length_memset_grow r.layout (List.ofFn stale) TableT.zero
          rw [List.length_ofFn, length_layout] at hgrow hlength
          have hset := set_layout r (.ofRequest sd request hlegal)
            (r.capacity + interruptVectorIncr)
            (Nat.lt_of_le_of_lt r.fits (Nat.lt_add_of_pos_right (by decide))) hfree hgrow hlength
          exact Prod.ext rfl ((congrArg (fun cell => List.set _ cell _) hfull).trans hset)
  · rw [registerInterrupt_illegal realloc sd request r.layout hlegal, register, dif_neg hlegal]

/-- `release_interrupt` is the registry's `release`. -/
theorem releaseInterrupt_layout (r : Registry) (sd : ℤ) (request : V120irqdSelector) :
    releaseInterrupt sd request r.layout =
      ((r.release sd request).1, (r.release sd request).2.layout) := by
  have htest : ((fun ptr : TableT => hasheq ptr.selector request) ∘ Registration.entry) =
      fun reg : Registration => decide (SameKey reg.selector request) := by
    funext reg
    rw [Bool.eq_iff_iff, decide_eq_true_iff]
    exact hasheq_iff _ _
  unfold releaseInterrupt release
  rw [foreachVectorSt, r.stores_layout.scan_eq inUse_zero _ 0 (Nat.zero_le _), List.drop_zero,
    List.findIdx?_map, htest]
  cases hfind : r.entries.findIdx? fun reg => decide (SameKey reg.selector request) with
  | none =>
    rw [List.findIdx?_eq_none_iff] at hfind
    rw [List.find?_eq_none.mpr fun reg hreg => by simp [hfind reg hreg]]
  | some i =>
    obtain ⟨hi, hkey, hbefore⟩ := List.findIdx?_eq_some_iff_getElem.mp hfind
    have hfirst : r.entries.find? (fun reg => decide (SameKey reg.selector request)) =
        some r.entries[i] := by
      rw [List.find?_eq_some_iff_getElem]
      exact ⟨hkey, i, hi, rfl, fun j hj => by simpa using hbefore j hj⟩
    have hcell : r.layout.getD i TableT.zero = r.entries[i].entry := by
      rw [r.stores_layout.getD_eq _ i (by simpa using hi), List.getElem_map]
    have herase : (r.eraseP fun reg => decide (SameKey reg.selector request)).entries =
        r.entries.eraseIdx i := by
      rw [entries_eraseP, List.eraseP_eq_eraseIdx, hfind]
    have hdata : (r.layout.getD i TableT.zero).data = r.entries[i].owner := congrArg TableT.data hcell
    simp only [hfirst, Nat.zero_add, hdata]
    by_cases howner : r.entries[i].owner = sd
    · obtain ⟨hstores, hlen⟩ := removeEntry_spec r.stores_layout i (by simpa using hi)
      rw [if_neg (not_not.mpr howner), if_pos howner]
      refine Prod.ext rfl (eq_layout ?_ (hlen.trans r.length_layout))
      rw [herase, ← List.eraseIdx_map Registration.entry]
      exact hstores
    · rw [if_pos howner, if_neg howner]

/-- `count_registered_interrupts` is the number of registrations. -/
theorem countRegisteredInterrupts_layout (r : Registry) :
    countRegisteredInterrupts r.layout = r.entries.length := by
  rw [countRegisteredInterrupts, foreachVectorSt_end r.stores_layout 0 (Nat.zero_le _),
    List.length_map]

/-- `foreach_vector` visits the registrations in order. -/
theorem foreachVector_layout (r : Registry) :
    foreachVector r.layout = r.entries.map Registration.entry :=
  (r.stores_layout.items_eq_takeWhile inUse_zero).symm

/-- `list_registered_interrupts` fills in the registry's masks. -/
theorem listRegisteredInterrupts_layout (r : Registry) :
    listRegisteredInterrupts r.layout = r.lines := by
  rw [listRegisteredInterrupts, foreachVector_layout, lines]

end Registry

/-- The inner loop returns at once when its test fails. -/
theorem removeWhileOwned_of_ne {sd : ℤ} {ptr : ℕ} {table : VectorTable}
    (h : (table.getD ptr TableT.zero).data ≠ sd) (fuel : ℕ) :
    removeWhileOwned sd ptr fuel table = table := by
  cases fuel with
  | zero => rfl
  | succ fuel => rw [removeWhileOwned, if_neg h]

/-- The inner loop removes the run of owned entries at the pointer, and the block's length is
fuel enough for it to end by its own test. -/
theorem removeWhileOwned_spec {sd : ℤ} (hsd : sd ≠ 0) (kept todo : List TableT) (fuel : ℕ)
    {table : VectorTable} (h : Stores TableT.inUse TableT.zero table (kept ++ todo))
    (hfuel : todo.length ≤ fuel) :
    Stores TableT.inUse TableT.zero (removeWhileOwned sd kept.length fuel table)
        (kept ++ todo.dropWhile fun entry => entry.data == sd) ∧
      (removeWhileOwned sd kept.length fuel table).length = table.length := by
  induction fuel generalizing todo table with
  | zero =>
    rw [List.eq_nil_of_length_eq_zero (Nat.le_zero.mp hfuel)] at h ⊢
    exact ⟨h, rfl⟩
  | succ fuel ih =>
    cases todo with
    | nil =>
      rw [removeWhileOwned_of_ne (by
        rw [h.getD_blank _ (by simp)]
        exact hsd.symm)]
      exact ⟨h, rfl⟩
    | cons entry rest =>
      have hcell : table.getD kept.length TableT.zero = entry := by
        rw [h.getD_eq _ _ (by simp)]
        simp
      by_cases hentry : entry.data = sd
      · obtain ⟨hstores, hlen⟩ := removeEntry_spec h kept.length (by simp)
        rw [List.eraseIdx_append_of_length_le le_rfl, Nat.sub_self, List.eraseIdx_cons_zero]
          at hstores
        have hrest := ih rest hstores (by simpa using hfuel)
        rw [removeWhileOwned, hcell, if_pos hentry, List.dropWhile_cons_of_pos (by simpa using hentry),
          ← hlen]
        exact hrest
      · rw [removeWhileOwned_of_ne (hcell ▸ hentry),
          List.dropWhile_cons_of_neg (by simpa using hentry)]
        exact ⟨h, rfl⟩

/-- Past the last item the outer loop ends without touching the table. -/
theorem releaseAllFrom_past {table : VectorTable} {items : List TableT}
    (h : Stores TableT.inUse TableT.zero table items) (sd : ℤ) (left ptr : ℕ)
    (hptr : items.length ≤ ptr) : releaseAllFrom sd left ptr table = table := by
  cases left with
  | zero => rfl
  | succ left =>
    rw [releaseAllFrom, h.getD_blank ptr hptr, inUse_zero]
    rfl

/-- Entries the inner loop drops are also dropped by the filter. -/
theorem filter_dropWhile_owned (sd : ℤ) (todo : List TableT) :
    (todo.dropWhile fun entry => entry.data == sd).filter (fun entry => entry.data != sd) =
      todo.filter fun entry => entry.data != sd := by
  induction todo with
  | nil => rfl
  | cons entry rest ih => by_cases hentry : entry.data = sd <;> simp [hentry, ih]

/-- The outer loop keeps exactly the entries of other owners, also when removals shift entries
under the pointer and when the block has no zero cell. -/
theorem releaseAllFrom_spec (sd : ℤ) (left : ℕ) (kept todo : List TableT) {table : VectorTable}
    (h : Stores TableT.inUse TableT.zero table (kept ++ todo))
    (hleft : table.length = kept.length + left) :
    Stores TableT.inUse TableT.zero (releaseAllFrom sd left kept.length table)
        (kept ++ todo.filter fun entry => entry.data != sd) ∧
      (releaseAllFrom sd left kept.length table).length = table.length := by
  induction left generalizing kept todo table with
  | zero =>
    have htodo : todo = [] := by
      have hle := h.length_le
      rw [List.length_append] at hle
      exact List.eq_nil_of_length_eq_zero (by omega)
    rw [htodo] at h ⊢
    exact ⟨h, rfl⟩
  | succ left ih =>
    -- advance past one kept entry, with the table already as the inner loop left it
    have hadvance (other : VectorTable) (entry : TableT) (rest : List TableT)
        (hother : Stores TableT.inUse TableT.zero other (kept ++ entry :: rest))
        (hlen : other.length = table.length) (hentry : entry.data ≠ sd) :
        Stores TableT.inUse TableT.zero (releaseAllFrom sd left (kept.length + 1) other)
            (kept ++ (entry :: rest).filter fun entry => entry.data != sd) ∧
          (releaseAllFrom sd left (kept.length + 1) other).length = table.length := by
      have hmoved : Stores TableT.inUse TableT.zero other ((kept ++ [entry]) ++ rest) := by
        simpa only [List.append_assoc, List.singleton_append] using hother
      have hnext := ih (kept ++ [entry]) rest hmoved
        (by rw [List.length_append, List.length_singleton]; omega)
      rw [List.filter_cons_of_pos (by simpa using hentry)]
      simpa only [List.length_append, List.length_singleton, List.append_assoc,
        List.singleton_append, hlen] using hnext
    cases todo with
    | nil =>
      rw [releaseAllFrom_past h sd (left + 1) kept.length (by simp)]
      exact ⟨h, rfl⟩
    | cons entry rest =>
      have hcell : table.getD kept.length TableT.zero = entry := by
        rw [h.getD_eq _ _ (by simp)]
        simp
      have hinUse : entry.inUse = true := h.live entry (by simp)
      rw [releaseAllFrom, hcell, if_pos hinUse]
      by_cases hentry : entry.data = sd
      · have hsd : sd ≠ 0 := hentry ▸ bne_iff_ne.mp hinUse
        obtain ⟨hstores, hlen⟩ := removeWhileOwned_spec hsd kept (entry :: rest) table.length h
          (by have hle := h.length_le; rw [List.length_append] at hle; omega)
        rw [← filter_dropWhile_owned]
        cases hdrop : (entry :: rest).dropWhile fun entry => entry.data == sd with
        | nil =>
          rw [hdrop] at hstores
          rw [releaseAllFrom_past hstores sd left _ (by simp)]
          exact ⟨hstores, hlen⟩
        | cons next rest' =>
          rw [hdrop] at hstores
          have hnext : (next.data == sd) = false := by
            have hhead := List.head?_dropWhile_not (fun entry : TableT => entry.data == sd)
              (entry :: rest)
            rw [hdrop] at hhead
            simpa using hhead
          exact hadvance _ next rest' hstores hlen (by simpa using hnext)
      · rw [removeWhileOwned_of_ne (hcell ▸ hentry)]
        exact hadvance table entry rest h rfl hentry

/-- `release_all_interrupts` is the registry's `releaseAll`, and returns 0. -/
theorem Registry.releaseAllInterrupts_layout (r : Registry) (sd : ℤ) :
    releaseAllInterrupts sd r.layout = (0, (r.releaseAll sd).layout) := by
  obtain ⟨hstores, hlen⟩ := releaseAllFrom_spec sd r.layout.length [] _ r.stores_layout
    (by rw [List.length_nil, Nat.zero_add])
  refine Prod.ext rfl (eq_layout ?_ (hlen.trans r.length_layout))
  rw [List.nil_append, List.filter_map] at hstores
  exact hstores

end V120.Irqd
