import Mathlib.Data.Multiset.UnionInter
import Mathlib.Data.Nat.Notation
import Mathlib.Tactic.SplitIfs

/-!
# What is held

A history of acquisitions and releases is replayed on the multiset of what is held. It has no value when
something is released that is not held, so a history that starts and ends with nothing released each thing
as often as it acquired it, and never earlier.
-/

namespace V120.Common

/-- Something is acquired or given back. -/
inductive LedgerEvent (R : Type*) where
  | acquire (r : R)
  | release (r : R)
  deriving DecidableEq

variable {R : Type*} [DecidableEq R]

/-- What is held after a history, if all that was released was held. -/
def held : List (LedgerEvent R) → Multiset R → Option (Multiset R)
  | [], holding => some holding
  | .acquire r :: events, holding => held events (r ::ₘ holding)
  | .release r :: events, holding => if r ∈ holding then held events (holding.erase r) else none

/-- A history in which all that is acquired is released, once each time. -/
def Balanced (events : List (LedgerEvent R)) : Prop := held events 0 = some 0

/-- One history after another. -/
theorem held_append (events events' : List (LedgerEvent R)) (holding : Multiset R) :
    held (events ++ events') holding = (held events holding).bind (held events') := by
  induction events generalizing holding with
  | nil => rfl
  | cons event events ih =>
    cases event with
    | acquire r => exact ih _
    | release r =>
      rw [List.cons_append, held, held]
      split_ifs
      · exact ih _
      · rfl

/-- What is released last of all that is held can be held by others too. -/
theorem held_releases (l : List R) (holding : Multiset R) :
    held (l.map LedgerEvent.release) (l + holding) = some holding := by
  induction l with
  | nil => exact congrArg some (Multiset.zero_add holding)
  | cons r l ih =>
    rw [List.map_cons, held, ← Multiset.cons_coe, Multiset.cons_add, if_pos (Multiset.mem_cons_self r _),
      Multiset.erase_cons_head]
    exact ih

/-- What is held is what was acquired less what was released. -/
theorem count_held {events : List (LedgerEvent R)} {holding holding' : Multiset R}
    (h : held events holding = some holding') (r : R) :
    holding.count r + events.count (.acquire r) = holding'.count r + events.count (.release r) := by
  induction events generalizing holding with
  | nil =>
    obtain rfl := Option.some.inj h
    rfl
  | cons event events ih =>
    cases event with
    | acquire s =>
      have hrest := ih h
      by_cases hs : s = r
      · subst hs
        rw [Multiset.count_cons_self] at hrest
        rw [List.count_cons_self, List.count_cons_of_ne (by simp)]
        omega
      · rw [Multiset.count_cons_of_ne (Ne.symm hs)] at hrest
        rw [List.count_cons_of_ne (by simp [hs]), List.count_cons_of_ne (by simp)]
        exact hrest
    | release s =>
      rw [held] at h
      split_ifs at h with hmem
      have hrest := ih h
      by_cases hs : s = r
      · subst hs
        have hpositive := Multiset.one_le_count_iff_mem.mpr hmem
        rw [Multiset.count_erase_self] at hrest
        rw [List.count_cons_self, List.count_cons_of_ne (by simp)]
        omega
      · rw [Multiset.count_erase_of_ne (Ne.symm hs)] at hrest
        rw [List.count_cons_of_ne (by simp), List.count_cons_of_ne (by simp [hs])]
        exact hrest

/-- In a balanced history each thing is released as often as it is acquired, and never more often before. -/
theorem Balanced.count {events : List (LedgerEvent R)} (h : Balanced events) (r : R) :
    events.count (.acquire r) = events.count (.release r) ∧
      ∀ before, before <+: events → before.count (.release r) ≤ before.count (.acquire r) := by
  refine ⟨?_, fun before hprefix => ?_⟩
  · have hcount := count_held h r
    rw [Multiset.count_zero, Nat.zero_add, Nat.zero_add] at hcount
    exact hcount
  · obtain ⟨after, rfl⟩ := hprefix
    rw [Balanced, held_append] at h
    obtain ⟨holding, hbefore, -⟩ := Option.bind_eq_some_iff.mp h
    have hcount := count_held hbefore r
    rw [Multiset.count_zero, Nat.zero_add] at hcount
    omega

/-- After a history the things with a property are held, each once, and nothing else. -/
def HeldExactly (events : List (LedgerEvent R)) (owned : R → Prop) : Prop :=
  ∃ holding, held events 0 = some holding ∧ holding.Nodup ∧ ∀ r, r ∈ holding ↔ owned r

/-- Acquiring things one after the other. -/
theorem held_acquires (l : List R) (holding : Multiset R) :
    held (l.map LedgerEvent.acquire) holding = some (l + holding) := by
  induction l generalizing holding with
  | nil => exact congrArg some (Multiset.zero_add holding).symm
  | cons r l ih =>
    rw [List.map_cons, held, ih, ← Multiset.cons_coe, Multiset.cons_add, Multiset.add_cons]

namespace HeldExactly

variable {events : List (LedgerEvent R)} {owned owned' : R → Prop} {l : List R}

/-- Nothing happened. -/
theorem nil (h : ∀ r, ¬owned r) : HeldExactly [] owned :=
  ⟨0, rfl, Multiset.nodup_zero, fun r => iff_of_false (Multiset.notMem_zero r) (h r)⟩

/-- What is held may be described by an equivalent property. -/
theorem congr (h : HeldExactly events owned) (hiff : ∀ r, owned r ↔ owned' r) : HeldExactly events owned' :=
  h.imp fun _ hholding => ⟨hholding.1, hholding.2.1, fun r => (hholding.2.2 r).trans (hiff r)⟩

/-- Things are acquired that were not held. -/
theorem acquires (h : HeldExactly events owned) (hl : l.Nodup) (hnew : ∀ r ∈ l, ¬owned r) :
    HeldExactly (events ++ l.map LedgerEvent.acquire) fun r => owned r ∨ r ∈ l := by
  obtain ⟨holding, hheld, hnodup, hiff⟩ := h
  refine ⟨l + holding, ?_, ?_, fun r => ?_⟩
  · rw [held_append, hheld, Option.bind_some, held_acquires]
  · rw [Multiset.nodup_add]
    refine ⟨Multiset.coe_nodup.mpr hl, hnodup, ?_⟩
    rw [Multiset.disjoint_left]
    intro r hr hin
    exact hnew r (Multiset.mem_coe.mp hr) ((hiff r).mp hin)
  · rw [Multiset.mem_add, Multiset.mem_coe, hiff]
    exact Or.comm

/-- Things are released that were held. -/
theorem releases (h : HeldExactly events owned) (hl : l.Nodup) (howned : ∀ r ∈ l, owned r) :
    HeldExactly (events ++ l.map LedgerEvent.release) fun r => owned r ∧ r ∉ l := by
  obtain ⟨holding, hheld, hnodup, hiff⟩ := h
  have hle : (l : Multiset R) ≤ holding := by
    rw [Multiset.le_iff_subset (Multiset.coe_nodup.mpr hl)]
    intro r hr
    exact (hiff r).mpr (howned r (Multiset.mem_coe.mp hr))
  have hsplit : holding = l + (holding - l) := by rw [Multiset.add_comm, Multiset.sub_add_cancel hle]
  refine ⟨holding - l, ?_, Multiset.nodup_of_le (Multiset.sub_le_self _ _) hnodup, fun r => ?_⟩
  · rw [held_append, hheld, Option.bind_some]
    nth_rewrite 1 [hsplit]
    exact held_releases l _
  · rw [Multiset.mem_sub_of_nodup hnodup, hiff, Multiset.mem_coe]

/-- Where nothing is held any more, the history is balanced. -/
theorem balanced (h : HeldExactly events owned) (hnone : ∀ r, ¬owned r) : Balanced events := by
  obtain ⟨holding, hheld, -, hiff⟩ := h
  have hempty : holding = 0 := by
    apply Multiset.eq_zero_of_forall_notMem
    intro r hr
    exact hnone r ((hiff r).mp hr)
  rw [Balanced, hheld, hempty]

end HeldExactly

end V120.Common
