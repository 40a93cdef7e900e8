import V120.Common.BitFields
import Mathlib.Data.Int.Notation

/-!
# Interrupt selectors

`struct v120irqd_selector` with its wildcard constants, and the two comparisons of the
vector table. A table entry serves a request when its crate and irq masks contain the
request's and its vector is the request's or `ANYVECTOR`.
-/

namespace V120.Irqd

open V120.Common

/-- A nonzero `errno`, as a failing system call leaves it. -/
abbrev Errno := { code : ℤ // 0 < code }

/-- `EPERM`. -/
def eperm : ℤ := 1
/-- `ENOMEM`. -/
def enomem : ℤ := 12
/-- `EINVAL`. -/
def einval : ℤ := 22
/-- `EPIPE`. -/
def epipe : ℤ := 32
/-- `EBADMSG`. -/
def ebadmsg : ℤ := 74
/-- `EADDRINUSE`. -/
def eaddrinuse : ℤ := 98
/-- `ECONNRESET`. -/
def econnreset : ℤ := 104

/-- `struct v120irqd_selector`: crate and irq bitmasks, an IACK vector, and client data. -/
structure V120irqdSelector where
  crate : BitVec 16
  irq : BitVec 16
  vector : BitVec 32
  payload : BitVec 32
  deriving DecidableEq, Repr

/-- `ANYCRATE`. -/
def anyCrate : BitVec 16 := 0xFFFF
/-- `ANYIRQ`: the VMEbus lines 1 to 7. -/
def anyIrq : BitVec 16 := 0x00FE
/-- `ANYVECTOR`. -/
def anyVector : BitVec 32 := 0xFFFFFFFF

/-- The field-wise `hashmatch`: every bit of the request is set in the entry. -/
def hashmatch (sel req : V120irqdSelector) : Bool :=
  (sel.crate &&& req.crate == req.crate) &&
    (sel.irq &&& req.irq == req.irq) &&
    (sel.vector &&& req.vector == req.vector)

/-- The field-wise `hasheq`; the payload is not compared. -/
def hasheq (sel req : V120irqdSelector) : Bool :=
  sel.crate == req.crate && sel.irq == req.irq && sel.vector == req.vector

/-- The set bits of one mask all lie in another. -/
def MaskIn {w : ℕ} (inner outer : BitVec w) : Prop :=
  ∀ i, inner.getLsbD i = true → outer.getLsbD i = true

/-- An entry's selector serves a request: both masks contain the request's, and the vector is
the requested one or the wildcard. -/
structure Covers (sel req : V120irqdSelector) : Prop where
  crate : MaskIn req.crate sel.crate
  irq : MaskIn req.irq sel.irq
  vector : sel.vector = anyVector ∨ sel.vector = req.vector

/-- Two selectors name the same crates, lines and vector; the payload is free. -/
structure SameKey (sel req : V120irqdSelector) : Prop where
  crate : sel.crate = req.crate
  irq : sel.irq = req.irq
  vector : sel.vector = req.vector

/-- The bitwise test used by `hashmatch` is inclusion of set bits. -/
theorem and_eq_iff_maskIn {w : ℕ} (outer inner : BitVec w) :
    outer &&& inner = inner ↔ MaskIn inner outer := by
  constructor
  · intro h i hi
    have hbit := congrArg (fun mask => mask.getLsbD i) h
    simp only [BitVec.getLsbD_and, hi, Bool.and_true] at hbit
    exact hbit
  · intro h
    apply BitVec.eq_of_getLsbD_eq
    intro i _
    rw [BitVec.getLsbD_and]
    cases hi : inner.getLsbD i with
    | false => simp
    | true => simp [h i hi]

/-- A mask of one bit is inside another exactly when that bit is set there. -/
theorem maskIn_bit_iff {w : ℕ} (mask : BitVec w) {i : ℕ} (hi : i < w) :
    MaskIn ((1 : BitVec w) <<< i) mask ↔ mask.getLsbD i = true := by
  constructor
  · intro h
    exact h i (by simp [hi])
  · intro h j hj
    rw [getLsbD_bit, Bool.and_eq_true, decide_eq_true_iff, decide_eq_true_iff] at hj
    exact hj.2 ▸ h

instance {w : ℕ} (inner outer : BitVec w) : Decidable (MaskIn inner outer) :=
  decidable_of_iff _ (and_eq_iff_maskIn outer inner)

instance (sel req : V120irqdSelector) : Decidable (Covers sel req) :=
  decidable_of_iff
    (MaskIn req.crate sel.crate ∧ MaskIn req.irq sel.irq ∧
      (sel.vector = anyVector ∨ sel.vector = req.vector))
    ⟨fun ⟨hcrate, hirq, hvector⟩ => ⟨hcrate, hirq, hvector⟩,
      fun ⟨hcrate, hirq, hvector⟩ => ⟨hcrate, hirq, hvector⟩⟩

/-- `hasheq` compares everything but the payload. -/
theorem hasheq_iff (sel req : V120irqdSelector) : hasheq sel req = true ↔ SameKey sel req := by
  simp only [hasheq, Bool.and_eq_true, beq_iff_eq]
  exact ⟨fun ⟨⟨hcrate, hirq⟩, hvector⟩ => ⟨hcrate, hirq, hvector⟩,
    fun ⟨hcrate, hirq, hvector⟩ => ⟨⟨hcrate, hirq⟩, hvector⟩⟩

instance (sel req : V120irqdSelector) : Decidable (SameKey sel req) :=
  decidable_of_iff _ (hasheq_iff sel req)

/-- The vector part of `hashmatch` never rejects an entry that the vector test accepts. -/
theorem vector_and_eq {sel req : V120irqdSelector}
    (h : sel.vector = anyVector ∨ sel.vector = req.vector) :
    sel.vector &&& req.vector = req.vector := by
  rcases h with hany | heq
  · rw [hany]
    exact BitVec.allOnes_and
  · rw [heq, BitVec.and_self]

/-- The two tests of `locate_interrupt` together decide whether an entry covers the request. -/
theorem hashmatch_and_vector_iff (sel req : V120irqdSelector) :
    (hashmatch sel req && (sel.vector == anyVector || sel.vector == req.vector)) = true ↔
      Covers sel req := by
  simp only [hashmatch, Bool.and_eq_true, Bool.or_eq_true, beq_iff_eq, and_eq_iff_maskIn _ req.crate,
    and_eq_iff_maskIn _ req.irq]
  constructor
  · rintro ⟨⟨⟨hcrate, hirq⟩, -⟩, hvector⟩
    exact ⟨hcrate, hirq, hvector⟩
  · rintro ⟨hcrate, hirq, hvector⟩
    exact ⟨⟨⟨hcrate, hirq⟩, vector_and_eq hvector⟩, hvector⟩

/-- Keys are compared in either order. -/
theorem SameKey.symm {sel req : V120irqdSelector} (h : SameKey sel req) : SameKey req sel :=
  ⟨h.crate.symm, h.irq.symm, h.vector.symm⟩

/-- Equal keys chain. -/
theorem SameKey.trans {sel sel' req : V120irqdSelector} (h : SameKey sel sel')
    (h' : SameKey sel' req) : SameKey sel req :=
  ⟨h.crate.trans h'.crate, h.irq.trans h'.irq, h.vector.trans h'.vector⟩

/-- A selector covers every request with the same key, in particular itself. -/
theorem SameKey.covers {sel req : V120irqdSelector} (h : SameKey sel req) : Covers sel req :=
  ⟨fun _ hi => h.crate ▸ hi, fun _ hi => h.irq ▸ hi, Or.inr h.vector⟩

/-- Coverage only looks at the request's key. -/
theorem Covers.congr_key {sel req req' : V120irqdSelector} (h : SameKey req req')
    (hcovers : Covers sel req) : Covers sel req' :=
  ⟨h.crate ▸ hcovers.crate, h.irq ▸ hcovers.irq, h.vector ▸ hcovers.vector⟩

end V120.Irqd
