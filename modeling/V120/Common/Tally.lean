import Mathlib.Algebra.BigOperators.Ring.Finset
import Mathlib.Data.List.Nodup
import Mathlib.Data.List.Perm.Basic

/-!
# Counting a list by key

A list whose elements are spread over distinct keys is as long as its parts together, and when one part
grows the whole grows by as much.
-/

namespace V120.Common

variable {A K : Type*} [DecidableEq K]

/-- One of several distinct keys is hit once. -/
theorem sum_indicator {keys : List K} (hnodup : keys.Nodup) {key : K} (hkey : key ∈ keys) :
    (keys.map fun k => if key = k then 1 else 0).sum = 1 := by
  induction keys with
  | nil => exact absurd hkey List.not_mem_nil
  | cons k keys ih =>
    obtain ⟨hhead, htail⟩ := List.nodup_cons.mp hnodup
    rw [List.map_cons, List.sum_cons]
    by_cases hk : key = k
    · have hrest : (keys.map fun k => if key = k then 1 else 0).sum = 0 := by
        refine List.sum_eq_zero fun n hn => ?_
        obtain ⟨other, hother, rfl⟩ := List.mem_map.mp hn
        have hne : key ≠ other := fun heq => hhead (hk ▸ heq.symm ▸ hother)
        exact if_neg hne
      rw [if_pos hk, hrest]
    · rw [if_neg hk, ih htail (List.mem_of_ne_of_mem hk hkey)]

/-- The parts of a list, one for each key, add up to the list. -/
theorem length_eq_sum_filter (key : A → K) {keys : List K} (hnodup : keys.Nodup) (l : List A)
    (hl : ∀ a ∈ l, key a ∈ keys) :
    l.length = (keys.map fun k => (l.filter fun a => key a == k).length).sum := by
  induction l with
  | nil => simp
  | cons a l ih =>
    have hpart (k : K) : ((a :: l).filter fun a => key a == k).length =
        (if key a = k then 1 else 0) + (l.filter fun a => key a == k).length := by
      by_cases hk : key a = k
      · rw [List.filter_cons_of_pos (by simpa using hk), List.length_cons, if_pos hk, Nat.add_comm]
      · rw [List.filter_cons_of_neg (by simpa using hk), if_neg hk, Nat.zero_add]
    rw [List.length_cons, ih fun b hb => hl b (List.mem_cons_of_mem _ hb)]
    simp only [hpart, List.sum_map_add, sum_indicator hnodup (hl a List.mem_cons_self)]
    exact Nat.add_comm _ _

/-- When the part of one key gets longer, the parts together have what was added. -/
theorem flatMap_update_perm {keys : List K} (hnodup : keys.Nodup) {key : K} (hkey : key ∈ keys)
    (part : K → List A) (extra : List A) :
    (keys.flatMap (Function.update part key (part key ++ extra))).Perm (keys.flatMap part ++ extra) := by
  obtain ⟨before, after, rfl⟩ := List.append_of_mem hkey
  have hnotMem := (List.nodup_cons.mp (List.nodup_middle.mp hnodup)).1
  have hother (l : List K) (hl : ∀ k ∈ l, k ∈ before ++ after) :
      l.flatMap (Function.update part key (part key ++ extra)) = l.flatMap part :=
    List.flatMap_congr fun k hk => Function.update_of_ne (fun heq : k = key => hnotMem (heq ▸ hl k hk)) _ _
  rw [List.flatMap_append, List.flatMap_cons, List.flatMap_append, List.flatMap_cons, Function.update_self,
    hother before fun k => List.mem_append_left _, hother after fun k => List.mem_append_right _]
  simp only [List.append_assoc]
  exact (List.perm_append_comm.append_left _).append_left _

end V120.Common
