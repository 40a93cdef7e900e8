import Mathlib.Data.List.Basic
import Mathlib.Data.Nat.Notation

/-!
# Spans that follow each other

A row of nonempty spans of numbers, each beginning where the last one ended. Such spans lie within
the ends of the row and have no number in common.
-/

namespace V120.Common

/-- The spans, by first and last number, follow each other from `start` to just before `stop`. -/
inductive Consecutive : ℕ → List (ℕ × ℕ) → ℕ → Prop where
  | nil (start : ℕ) : Consecutive start [] start
  | cons {first last stop : ℕ} {spans : List (ℕ × ℕ)} (hspan : first ≤ last)
      (hrest : Consecutive (last + 1) spans stop) : Consecutive first ((first, last) :: spans) stop

namespace Consecutive

variable {start stop : ℕ} {spans : List (ℕ × ℕ)}

/-- A row does not end before it starts. -/
theorem start_le (h : Consecutive start spans stop) : start ≤ stop := by
  induction h with
  | nil => exact Nat.le_refl _
  | cons hspan _ ih => omega

/-- Each span is nonempty and lies within the row. -/
theorem within (h : Consecutive start spans stop) :
    ∀ span ∈ spans, start ≤ span.1 ∧ span.1 ≤ span.2 ∧ span.2 < stop := by
  induction h with
  | nil => exact fun _ hspan => absurd hspan List.not_mem_nil
  | cons hspan hrest ih =>
    intro span hmem
    have hle := hrest.start_le
    rcases List.mem_cons.mp hmem with rfl | hmem
    · exact ⟨Nat.le_refl _, hspan, hle⟩
    · have hwithin := ih span hmem
      omega

/-- Each span ends before the later ones begin. -/
theorem pairwise (h : Consecutive start spans stop) :
    spans.Pairwise fun span later => span.2 < later.1 := by
  induction h with
  | nil => exact List.Pairwise.nil
  | cons hspan hrest ih => exact .cons (fun later hlater => (hrest.within later hlater).1) ih

end Consecutive

end V120.Common
