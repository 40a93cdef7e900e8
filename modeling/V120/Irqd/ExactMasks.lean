import V120.Irqd.Coverage
import V120.Irqd.FatalBranches

/-!
# The recomputed masks are exact

`list_registered_interrupts` joins the lines of all entries in octets, and `find_interrupt` searches for
the first entry that covers a single interrupt. A line is in the mask of a crate exactly when the search
can find a client for some vector on it, so recomputing the enable registers neither switches off a line
a client waits for nor leaves one on that nobody could be told about.
-/

namespace V120.Irqd

open V120.Common

/-- A line is in the joined mask of a crate when some entry has both. -/
theorem getLsbD_foldl_addEntryMasks (entries : List TableT) (irqs : CrateMasks) (n : Fin 16) (i : ℕ) :
    (entries.foldl addEntryMasks irqs n).getLsbD i = true ↔
      (irqs n).getLsbD i = true ∨ i < 8 ∧ ∃ entry ∈ entries,
        entry.selector.crate.getLsbD n.val = true ∧ entry.selector.irq.getLsbD i = true := by
  induction entries generalizing irqs with
  | nil => simp
  | cons entry entries ih =>
    have hstep : (addEntryMasks irqs entry n).getLsbD i = true ↔
        (irqs n).getLsbD i = true ∨ i < 8 ∧
          (entry.selector.crate.getLsbD n.val = true ∧ entry.selector.irq.getLsbD i = true) := by
      rw [addEntryMasks]
      by_cases hcrate : entry.selector.crate.getLsbD n.val = true
      · rw [if_pos ((and_bit_ne_zero_iff _ _).mpr hcrate), BitVec.getLsbD_or, Bool.or_eq_true,
          BitVec.getLsbD_setWidth, Bool.and_eq_true, decide_eq_true_iff]
        simp only [hcrate, true_and]
      · rw [if_neg fun h => hcrate ((and_bit_ne_zero_iff _ _).mp h)]
        simp only [hcrate, false_and, and_false, or_false, Bool.false_eq_true]
    rw [List.foldl_cons, ih, hstep]
    simp only [List.mem_cons, exists_eq_or_imp]
    tauto

/-- The lines a request may name are 1 to 7. -/
theorem anyIrq_bit {i : ℕ} (h : anyIrq.getLsbD i = true) : 1 ≤ i ∧ i ≤ 7 := by
  have hbits : ∀ j : Fin 16, anyIrq.getLsbD j.val = true → 1 ≤ j.val ∧ j.val ≤ 7 := by decide
  exact hbits ⟨i, BitVec.lt_of_getLsbD h⟩ h

namespace Registry

/-- A line of a crate is in its mask when a registration names both. -/
theorem lines_bit_iff (r : Registry) (n : Fin 16) (i : ℕ) :
    (r.lines n).getLsbD i = true ↔ i < 8 ∧ ∃ reg ∈ r.entries,
      reg.selector.crate.getLsbD n.val = true ∧ reg.selector.irq.getLsbD i = true := by
  rw [lines, getLsbD_foldl_addEntryMasks]
  simp only [List.mem_map, exists_exists_and_eq_and, BitVec.ofNat_eq_ofNat, BitVec.getLsbD_zero,
    Bool.false_eq_true, false_or]
  rfl

/-- A look-up of one interrupt, with a vector of one's choice, succeeds when a registration names its
crate and its line. -/
theorem lookup_concrete_iff (r : Registry) (n : Fin 16) {i : ℕ} (hi : i < 16) (payload : BitVec 32) :
    (∃ vector reg, r.lookup (concrete n i vector payload) = some reg) ↔
      ∃ reg ∈ r.entries,
        reg.selector.crate.getLsbD n.val = true ∧ reg.selector.irq.getLsbD i = true := by
  simp only [r.lookup_isSome_iff]
  constructor
  · rintro ⟨vector, reg, hreg, hcovers⟩
    exact ⟨reg, hreg, (maskIn_bit_iff _ n.isLt).mp hcovers.crate, (maskIn_bit_iff _ hi).mp hcovers.irq⟩
  · rintro ⟨reg, hreg, hcrate, hirq⟩
    -- the entry's own vector is served by it, wildcard or not
    exact ⟨reg.selector.vector, reg, hreg, (maskIn_bit_iff _ n.isLt).mpr hcrate,
      (maskIn_bit_iff _ hi).mpr hirq, Or.inr rfl⟩

/-- The mask of a crate has the lines on which some interrupt finds a registration. -/
theorem lines_exact (r : Registry) (n : Fin 16) (i : ℕ) (payload : BitVec 32) :
    (r.lines n).getLsbD i = true ↔ (1 ≤ i ∧ i ≤ 7) ∧
      ∃ vector found, findInterrupt (concrete n i vector payload) r.layout = .ok found := by
  simp only [r.findInterrupt_ok_iff, r.lines_bit_iff]
  constructor
  · rintro ⟨hi, reg, hreg, hcrate, hirq⟩
    exact ⟨anyIrq_bit (reg.legal.lines i hirq),
      (r.lookup_concrete_iff n (by omega) payload).mpr ⟨reg, hreg, hcrate, hirq⟩⟩
  · rintro ⟨hline, hfound⟩
    exact ⟨by omega, (r.lookup_concrete_iff n (by omega) payload).mp hfound⟩

end Registry

/-- **The masks are exact.** For every reachable table, `list_registered_interrupts` has a line in the mask
of a crate exactly when it is one of the lines 1 to 7 and `find_interrupt` finds an entry for some vector
on it, and `disable_unused_interrupts` leaves exactly these lines enabled on each open crate. -/
theorem masks_exact {table : VectorTable} (hreach : ReachableTable table) (payload : BitVec 32) :
    (∀ (n : Fin 16) (i : ℕ), (listRegisteredInterrupts table n).getLsbD i = true ↔ (1 ≤ i ∧ i ≤ 7) ∧
        ∃ vector found, findInterrupt (concrete n i vector payload) table = .ok found) ∧
      ∀ d : Daemon, d.vectorTable = table → ∀ info ∈ (disableUnusedInterrupts d).v120Info, ∀ i,
        info.irqen.getLsbD i = true ↔ (1 ≤ i ∧ i ≤ 7) ∧
          ∃ vector found, findInterrupt (concrete info.cratenumber i vector payload) table = .ok found := by
  obtain ⟨r, rfl⟩ := hreach.exists_registry
  have hmasks (n : Fin 16) (i : ℕ) :=
    (congrArg (fun irqs : CrateMasks => (irqs n).getLsbD i = true) r.listRegisteredInterrupts_layout).to_iff.trans
      (r.lines_exact n i payload)
  refine ⟨hmasks, fun d htable info hinfo i => ?_⟩
  obtain ⟨before, -, rfl⟩ := List.mem_map.mp hinfo
  rw [← hmasks, htable, BitVec.getLsbD_setWidth, Bool.and_eq_true, decide_eq_true_iff]
  exact and_iff_right_of_imp fun h => (BitVec.lt_of_getLsbD h).trans (by decide)

/-- With lines 1 and 2 of crate 0 registered these two are enabled there. -/
theorem masks_exact_twoLines :
    (listRegisteredInterrupts twoLines 0).getLsbD 2 = true ↔ (1 ≤ 2 ∧ 2 ≤ 7) ∧
      ∃ vector found, findInterrupt (concrete 0 2 vector 0) twoLines = .ok found :=
  (masks_exact ⟨_, rfl⟩ 0).1 0 2

end V120.Irqd
