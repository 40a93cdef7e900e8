import V120.Vme.Handle

/-!
# The arguments of the `v120` tool

What the commands of the tool share: their options, as `struct v120_args_t` holds them, and the status
they exit with. The options that only the reports and the requester look at are left out.
-/

namespace V120.Tool

open V120.Vme

/-- `EXIT_SUCCESS`. -/
def exitSuccess : ℤ := 0
/-- `EXIT_FAILURE`. -/
def exitFailure : ℤ := 1

/-- The value of the character `'A'`. -/
def allCrates : ℤ := 65

/-- `enum vme_dwidth_t`. -/
inductive VmeDwidth where
  | d8eo
  | d8o
  | d16
  | d32
  deriving DecidableEq

/-- `struct v120_args_t`. -/
structure V120Args where
  crate : ℤ
  awidth : V120Pd
  dwidth : VmeDwidth
  split : Bool
  binary : Bool
  speed : V120Pd

end V120.Tool
