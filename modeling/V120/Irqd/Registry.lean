import V120.Common.FirstMatch
import V120.Irqd.VectorTable
import Mathlib.Data.List.Pairwise

/-!
# The vector table as an ordered list of registrations

What the table is for: an ordered list of legal (selector, owner) pairs in which a request
goes to the first pair covering it. The list knows how many cells are allocated for it,
because growing them is the only operation that can fail for lack of memory.
-/

namespace V120.Irqd

/-- The checks of `register_interrupt` on the request itself. -/
structure Legal (sd : ℤ) (request : V120irqdSelector) : Prop where
  owner : sd ≠ 0
  crate : request.crate ≠ 0
  irq : request.irq ≠ 0
  lines : MaskIn request.irq anyIrq

instance (sd : ℤ) (request : V120irqdSelector) : Decidable (Legal sd request) :=
  decidable_of_iff
    (sd ≠ 0 ∧ request.crate ≠ 0 ∧ request.irq ≠ 0 ∧ MaskIn request.irq anyIrq)
    ⟨fun ⟨howner, hcrate, hirq, hlines⟩ => ⟨howner, hcrate, hirq, hlines⟩,
      fun ⟨howner, hcrate, hirq, hlines⟩ => ⟨howner, hcrate, hirq, hlines⟩⟩

/-- A table entry that passed the checks of `register_interrupt`. -/
structure Registration where
  entry : TableT
  legal : Legal entry.data entry.selector
  deriving DecidableEq

namespace Registration

/-- The client that made the registration. -/
def owner (reg : Registration) : ℤ := reg.entry.data

/-- What the client asked for. -/
def selector (reg : Registration) : V120irqdSelector := reg.entry.selector

/-- An accepted request and its client. -/
def ofRequest (sd : ℤ) (request : V120irqdSelector) (h : Legal sd request) : Registration :=
  ⟨⟨request, sd⟩, h⟩

/-- A registration never belongs to descriptor 0. -/
theorem owner_ne_zero (reg : Registration) : reg.owner ≠ 0 := reg.legal.owner

/-- The loops of the source see every registration. -/
theorem inUse (reg : Registration) : reg.entry.inUse = true := by
  exact bne_iff_ne.mpr reg.owner_ne_zero

@[simp] theorem owner_ofRequest (sd : ℤ) (request : V120irqdSelector) (h : Legal sd request) :
    (ofRequest sd request h).owner = sd := rfl

@[simp] theorem selector_ofRequest (sd : ℤ) (request : V120irqdSelector) (h : Legal sd request) :
    (ofRequest sd request h).selector = request := rfl

end Registration

/-- Registrations in the order they were made, and the number of cells allocated for them. A
request that an earlier registration covers was never accepted. -/
structure Registry where
  entries : List Registration
  capacity : ℕ
  fits : entries.length ≤ capacity
  exclusive : entries.Pairwise fun earlier later => ¬ Covers earlier.selector later.selector

namespace Registry

/-- No registrations and no memory. -/
def empty : Registry := ⟨[], 0, le_rfl, .nil⟩

/-- The registration a request goes to: the first that covers it. -/
def lookup (r : Registry) (request : V120irqdSelector) : Option Registration :=
  r.entries.find? fun reg => decide (Covers reg.selector request)

/-- A request that finds nothing is covered by no registration. -/
theorem not_covers_of_lookup {r : Registry} {request : V120irqdSelector}
    (h : r.lookup request = none) {reg : Registration} (hreg : reg ∈ r.entries) :
    ¬ Covers reg.selector request := by
  simpa using List.find?_eq_none.mp h reg hreg

/-- Append a registration that nothing covers, in a spare cell or in a freshly grown block. -/
def append (r : Registry) (reg : Registration) (capacity : ℕ) (h : r.entries.length < capacity)
    (hfree : r.lookup reg.selector = none) : Registry where
  entries := r.entries ++ [reg]
  capacity := capacity
  fits := by rw [List.length_append]; exact h
  exclusive := List.pairwise_append.mpr ⟨r.exclusive, List.pairwise_singleton _ _,
    fun earlier hearlier later hlater =>
      List.mem_singleton.mp hlater ▸ not_covers_of_lookup hfree hearlier⟩

/-- Keep only the registrations that satisfy a test, in order. -/
def filter (r : Registry) (keep : Registration → Bool) : Registry :=
  ⟨r.entries.filter keep, r.capacity, (List.length_filter_le _ _).trans r.fits, r.exclusive.filter _⟩

/-- Drop the first registration that satisfies a test. -/
def eraseP (r : Registry) (drop : Registration → Bool) : Registry :=
  ⟨r.entries.eraseP drop, r.capacity, (List.eraseP_sublist.length_le).trans r.fits,
    r.exclusive.sublist List.eraseP_sublist⟩

@[simp] theorem entries_append (r : Registry) (reg : Registration) (capacity : ℕ)
    (h : r.entries.length < capacity) (hfree : r.lookup reg.selector = none) :
    (r.append reg capacity h hfree).entries = r.entries ++ [reg] := rfl

@[simp] theorem entries_filter (r : Registry) (keep : Registration → Bool) :
    (r.filter keep).entries = r.entries.filter keep := rfl

@[simp] theorem entries_eraseP (r : Registry) (drop : Registration → Bool) :
    (r.eraseP drop).entries = r.entries.eraseP drop := rfl

/-- Accept a legal request that nothing covers yet, unless memory is needed and refused. -/
def register (realloc : Realloc) (sd : ℤ) (request : V120irqdSelector) (r : Registry) :
    ℤ × Registry :=
  if h : Legal sd request then
    if hfree : r.lookup request = none then
      if hroom : r.entries.length < r.capacity then
        (0, r.append (.ofRequest sd request h) r.capacity hroom hfree)
      else
        match realloc with
        | .failed errno => (-errno.val, r)
        | .moved _ =>
          (0, r.append (.ofRequest sd request h) (r.capacity + interruptVectorIncr)
            (Nat.lt_of_le_of_lt r.fits (Nat.lt_add_of_pos_right (by decide))) hfree)
    else (-eaddrinuse, r)
  else (-einval, r)

/-- Remove the registration with exactly this key, for its owner only. -/
def release (sd : ℤ) (request : V120irqdSelector) (r : Registry) : ℤ × Registry :=
  match r.entries.find? fun reg => decide (SameKey reg.selector request) with
  | none => (-einval, r)
  | some reg =>
    if reg.owner = sd then
      (0, r.eraseP fun other => decide (SameKey other.selector request))
    else (-einval, r)

/-- A registration is refused with an error code and no change, or accepted and appended. -/
theorem register_cases (realloc : Realloc) (sd : ℤ) (request : V120irqdSelector) (r : Registry) :
    ((r.register realloc sd request).1 < 0 ∧ (r.register realloc sd request).2 = r) ∨
      ∃ h : Legal sd request, (r.register realloc sd request).1 = 0 ∧
        r.lookup request = none ∧
        (r.register realloc sd request).2.entries = r.entries ++ [.ofRequest sd request h] := by
  unfold register
  by_cases hlegal : Legal sd request
  · rw [dif_pos hlegal]
    by_cases hfree : r.lookup request = none
    · rw [dif_pos hfree]
      by_cases hroom : r.entries.length < r.capacity
      · rw [dif_pos hroom]
        exact Or.inr ⟨hlegal, rfl, hfree, rfl⟩
      · rw [dif_neg hroom]
        cases realloc with
        | failed errno => exact Or.inl ⟨Int.neg_neg_of_pos errno.property, rfl⟩
        | moved stale => exact Or.inr ⟨hlegal, rfl, hfree, rfl⟩
    · rw [dif_neg hfree]
      exact Or.inl ⟨(by decide : -eaddrinuse < 0), rfl⟩
  · rw [dif_neg hlegal]
    exact Or.inl ⟨(by decide : -einval < 0), rfl⟩

/-- No two registrations have the same key. -/
theorem pairwise_key (r : Registry) (request : V120irqdSelector) :
    r.entries.Pairwise fun earlier later =>
      ¬ (SameKey earlier.selector request ∧ SameKey later.selector request) := by
  apply r.exclusive.imp
  rintro earlier later hcovers ⟨hearlier, hlater⟩
  exact hcovers (hearlier.trans hlater.symm).covers

/-- Registrations with the same key are the same registration. -/
theorem eq_of_key (r : Registry) {request : V120irqdSelector} {reg other : Registration}
    (hreg : reg ∈ r.entries) (hother : other ∈ r.entries) (hkey : SameKey reg.selector request)
    (hkey' : SameKey other.selector request) : reg = other := by
  by_contra hne
  have hsymm : Std.Symm fun a b : Registration =>
      ¬ (SameKey a.selector request ∧ SameKey b.selector request) := ⟨fun _ _ h h' => h h'.symm⟩
  exact (r.pairwise_key request).forall hreg hother hne ⟨hkey, hkey'⟩

/-- A release is refused with an error code and no change, or removes the one registration the
client has with this key. -/
theorem release_cases (sd : ℤ) (request : V120irqdSelector) (r : Registry) :
    ((r.release sd request).1 < 0 ∧ (r.release sd request).2 = r) ∨
      ((r.release sd request).1 = 0 ∧
        (∃ reg ∈ r.entries, reg.owner = sd ∧ SameKey reg.selector request) ∧
        (r.release sd request).2.entries = r.entries.filter fun reg =>
          !(decide (reg.owner = sd) && decide (SameKey reg.selector request))) := by
  unfold release
  split
  · exact Or.inl ⟨(by decide : -einval < 0), rfl⟩
  · next reg hfind =>
    split
    · next howner =>
      have hreg := List.mem_of_find?_eq_some hfind
      have hkey : SameKey reg.selector request := by simpa using List.find?_some hfind
      refine Or.inr ⟨rfl, ⟨reg, hreg, howner, hkey⟩, ?_⟩
      rw [entries_eraseP, Common.eraseP_eq_filter (by simpa using r.pairwise_key request)]
      apply List.filter_congr
      intro other hother
      by_cases hsame : SameKey other.selector request
      · have heq : other = reg := r.eq_of_key hother hreg hsame hkey
        simp [heq, howner]
      · simp [hsame]
    · exact Or.inl ⟨(by decide : -einval < 0), rfl⟩

/-- Drop every registration of one owner. -/
def releaseAll (sd : ℤ) (r : Registry) : Registry := r.filter fun reg => reg.owner != sd

/-- The lines some registration names on a crate. -/
def lines (r : Registry) : CrateMasks := (r.entries.map Registration.entry).foldl addEntryMasks (fun _ => 0)

/-- The registrations of one owner, in order. -/
def owned (r : Registry) (sd : ℤ) : List Registration := r.entries.filter fun reg => reg.owner == sd

/-- The block of cells that stores the registry. -/
def layout (r : Registry) : VectorTable :=
  r.entries.map Registration.entry ++ List.replicate (r.capacity - r.entries.length) TableT.zero

/-- The block has exactly the allocated number of cells. -/
theorem length_layout (r : Registry) : r.layout.length = r.capacity := by
  have h := r.fits
  simp only [layout, List.length_append, List.length_map, List.length_replicate]
  omega

/-- The block is a run of registrations in use followed only by zero cells. -/
theorem stores_layout (r : Registry) :
    Common.Stores TableT.inUse TableT.zero r.layout (r.entries.map Registration.entry) :=
  ⟨⟨_, rfl⟩, fun entry hentry => by
    obtain ⟨reg, -, rfl⟩ := List.mem_map.mp hentry
    exact reg.inUse⟩

/-- A block is determined by its items and its size. -/
theorem eq_layout {table : VectorTable} {r : Registry}
    (h : Common.Stores TableT.inUse TableT.zero table (r.entries.map Registration.entry))
    (hlen : table.length = r.capacity) : table = r.layout := by
  obtain ⟨n, rfl⟩ := h.spare
  have hn : n = r.capacity - r.entries.length := by
    simp only [List.length_append, List.length_map, List.length_replicate] at hlen
    omega
  rw [layout, hn]

end Registry

end V120.Irqd
