import Mathlib.Logic.Function.Basic
import Mathlib.Data.List.Nodup

/-!
# Memory that remembers what was written

Cells under an index, with the indices written so far. A sequence of stores leaves every other
cell alone, appends its indices, and leaves in each of them the value stored there, when no index
occurs twice.
-/

namespace V120.Common

/-- Cells, and the indices written so far in order. -/
structure Memory (A V : Type*) where
  cells : A → V
  written : List A

namespace Memory

variable {A V : Type*} [DecidableEq A]

/-- Write one cell. -/
def store (m : Memory A V) (a : A) (v : V) : Memory A V :=
  ⟨Function.update m.cells a v, m.written ++ [a]⟩

/-- Write cells one after the other. -/
def storeAll (m : Memory A V) (stores : List (A × V)) : Memory A V :=
  stores.foldl (fun m s => m.store s.1 s.2) m

@[simp] theorem storeAll_nil (m : Memory A V) : m.storeAll [] = m := rfl

@[simp] theorem storeAll_cons (m : Memory A V) (a : A) (v : V) (stores : List (A × V)) :
    m.storeAll ((a, v) :: stores) = (m.store a v).storeAll stores := rfl

/-- A sequence of stores appends its indices. -/
theorem written_storeAll (m : Memory A V) (stores : List (A × V)) :
    (m.storeAll stores).written = m.written ++ stores.map Prod.fst := by
  induction stores generalizing m with
  | nil => simp
  | cons s stores ih =>
    obtain ⟨a, v⟩ := s
    rw [storeAll_cons, ih, store, List.map_cons, List.append_assoc, List.singleton_append]

/-- A cell that is not written keeps its value. -/
theorem storeAll_of_notMem (m : Memory A V) {stores : List (A × V)} {a : A}
    (h : a ∉ stores.map Prod.fst) : (m.storeAll stores).cells a = m.cells a := by
  induction stores generalizing m with
  | nil => rfl
  | cons s stores ih =>
    obtain ⟨b, v⟩ := s
    rw [List.map_cons, List.mem_cons, not_or] at h
    rw [storeAll_cons, ih _ h.2]
    exact Function.update_of_ne h.1 _ _

/-- A cell that is written once holds what was stored. -/
theorem storeAll_of_mem (m : Memory A V) {stores : List (A × V)} (hnodup : (stores.map Prod.fst).Nodup)
    {a : A} {v : V} (h : (a, v) ∈ stores) : (m.storeAll stores).cells a = v := by
  induction stores generalizing m with
  | nil => exact absurd h List.not_mem_nil
  | cons s stores ih =>
    obtain ⟨b, u⟩ := s
    rw [List.map_cons, List.nodup_cons] at hnodup
    rw [storeAll_cons]
    rcases List.mem_cons.mp h with heq | hrest
    · obtain ⟨rfl, rfl⟩ := Prod.mk.inj heq
      rw [storeAll_of_notMem _ hnodup.1]
      exact Function.update_self _ _ _
    · exact ih _ hnodup.2 hrest

end Memory

end V120.Common
