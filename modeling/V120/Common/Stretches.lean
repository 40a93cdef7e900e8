import Mathlib.Data.List.Basic

/-!
# Stretches

A stretch is a range of numbers at which a predicate holds and that cannot be made longer. The stretches
that end within bounds are listed in order by going through the numbers between these bounds, as long as
it is known for each one whether the predicate holds and where the stretch began that it is in.
-/

namespace V120.Common

variable {P : ℕ → Prop} {first next low high : ℕ}

/-- A predicate holds from a first number on up to another one, and does not hold before the first one. -/
structure Begun (P : ℕ → Prop) (first next : ℕ) : Prop where
  less : first < next
  holds : ∀ i, first ≤ i → i < next → P i
  before : ∀ i, i + 1 = first → ¬ P i

/-- A stretch: the predicate does not hold behind it either. -/
structure IsStretch (P : ℕ → Prop) (first next : ℕ) : Prop extends Begun P first next where
  behind : ¬ P next

/-- A stretch begins where the predicate starts to hold. -/
theorem begun_succ (hbefore : ∀ i, i + 1 = next → ¬ P i) (hnext : P next) : Begun P next (next + 1) where
  less := Nat.lt_succ_self next
  holds _ hlow hhigh := Nat.le_antisymm (Nat.le_of_lt_succ hhigh) hlow ▸ hnext
  before := hbefore

/-- A stretch goes on where the predicate still holds. -/
theorem Begun.succ (h : Begun P first next) (hnext : P next) : Begun P first (next + 1) where
  less := Nat.lt_succ_of_lt h.less
  holds i hlow hhigh := (Nat.lt_succ_iff_lt_or_eq.mp hhigh).elim (h.holds i hlow) fun heq => heq ▸ hnext
  before := h.before

/-- What begins at one number is not begun at another one. -/
theorem Begun.first_le {first' : ℕ} (h : Begun P first next) (h' : Begun P first' next) :
    first ≤ first' := by
  refine Nat.le_of_not_lt fun hless => ?_
  obtain ⟨i, rfl⟩ := Nat.exists_eq_succ_of_ne_zero (Nat.ne_zero_of_lt hless)
  have hfirst := h.less
  exact h.before i rfl (h'.holds i (Nat.le_of_lt_succ hless) (by omega))

/-- No stretch ends where the predicate holds. -/
theorem not_isStretch_of_holds (hnext : P next) : ¬ IsStretch P first next := fun h => h.behind hnext

/-- No stretch ends where none was begun. -/
theorem not_isStretch_of_before (hbefore : ∀ i, i + 1 = next → ¬ P i) : ¬ IsStretch P first next := by
  intro h
  obtain ⟨i, rfl⟩ := Nat.exists_eq_succ_of_ne_zero (Nat.ne_zero_of_lt h.less)
  exact hbefore i rfl (h.holds i (Nat.le_of_lt_succ h.less) (Nat.lt_succ_self i))

/-- The stretches that end within bounds, in order. -/
structure Stretches (P : ℕ → Prop) (low high : ℕ) (runs : List (ℕ × ℕ)) : Prop where
  order : runs.Pairwise fun r s => r.2 < s.1
  mem : ∀ r, r ∈ runs ↔ IsStretch P r.1 r.2 ∧ low ≤ r.2 ∧ r.2 < high

/-- There is nothing between equal bounds. -/
theorem stretches_nil : Stretches P low low [] where
  order := .nil
  mem _ := iff_of_false List.not_mem_nil fun h => absurd h.2.2 (Nat.not_lt.mpr h.2.1)

variable {runs : List (ℕ × ℕ)}

/-- A number at which no stretch ends is passed over. -/
theorem Stretches.skip (h : Stretches P (low + 1) high runs) (hnone : ∀ first, ¬ IsStretch P first low) :
    Stretches P low high runs where
  order := h.order
  mem r := by
    rw [h.mem]
    refine and_congr_right fun hstretch => and_congr_left fun _ => ⟨Nat.le_of_succ_le, fun hle => ?_⟩
    refine Nat.lt_of_le_of_ne hle fun heq => hnone r.1 ?_
    rw [heq]
    exact hstretch

/-- A stretch comes before the ones that end behind it. -/
theorem Stretches.cons (h : Stretches P (low + 1) high runs) (hstretch : IsStretch P first low)
    (hlow : low < high) : Stretches P low high ((first, low) :: runs) where
  order := by
    refine List.pairwise_cons.mpr ⟨fun r hr => Nat.lt_of_not_le fun hle => ?_, h.order⟩
    -- a later stretch would contain the end of the first one
    obtain ⟨hlater, hend, -⟩ := (h.mem r).mp hr
    exact hstretch.behind (hlater.holds low hle hend)
  mem r := by
    rw [List.mem_cons, h.mem]
    constructor
    · rintro (rfl | ⟨hlater, hend, hhigh⟩)
      · exact ⟨hstretch, Nat.le_refl _, hlow⟩
      · exact ⟨hlater, Nat.le_of_succ_le hend, hhigh⟩
    · rintro ⟨hr, hend, hhigh⟩
      rcases Nat.lt_or_eq_of_le hend with hend | hend
      · exact Or.inr ⟨hr, hend, hhigh⟩
      · refine Or.inl (Prod.ext ?_ hend.symm)
        rw [← hend] at hr
        exact Nat.le_antisymm (hr.first_le hstretch.toBegun) (hstretch.first_le hr.toBegun)

end V120.Common
