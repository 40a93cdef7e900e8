import Mathlib.Algebra.Ring.Hom.Defs
import Mathlib.Tactic.Ring

/-!
# Digits in a base

The number that a list of digits stands for, the first digit being the most significant one. Digits need
not be smaller than the base, nor positive, and the base is any element of a semiring.
-/

namespace V120.Common

section Semiring

variable {R S : Type*} [CommSemiring R] [CommSemiring S]

/-- The value of digits in a base. -/
def positional (base : R) : List R → R
  | [] => 0
  | digit :: digits => digit * base ^ digits.length + positional base digits

/-- The value is that of Horner's rule, from any number of leading digits on. -/
theorem foldl_horner (base : R) (digits : List R) (leading : R) :
    digits.foldl (fun value digit => base * value + digit) leading =
      leading * base ^ digits.length + positional base digits := by
  induction digits generalizing leading with
  | nil => simp [positional]
  | cons digit digits ih =>
    rw [List.foldl_cons, ih, positional, List.length_cons]
    ring

/-- Digits and base may be taken to another semiring first. -/
theorem positional_map (f : R →+* S) (base : R) (digits : List R) :
    positional (f base) (digits.map f) = f (positional base digits) := by
  induction digits with
  | nil => exact (map_zero f).symm
  | cons digit digits ih =>
    rw [List.map_cons, positional, positional, ih, List.length_map, map_add, map_mul, map_pow]

end Semiring

end V120.Common
