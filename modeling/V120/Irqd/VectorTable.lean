import V120.Common.TerminatedArray
import V120.Irqd.Selector

/-!
# The vector table of `irq_vector_table.c`

The table is one allocated block of `table_t` cells, grown 32 cells at a time. Pointers
into the block are indices; `vector_table == NULL` is the empty block. A cell whose `data`
is zero is unused, and every loop of the source stops at the first such cell or at
`vector_table_end`. The mutex calls compile to nothing (`THREADSAFE` is 0), and sizes are
natural numbers.
-/

namespace V120.Irqd

open V120.Common

/-- `struct table_t`: a multibit selector and the client that requested it. -/
structure TableT where
  selector : V120irqdSelector
  data : ℤ
  deriving DecidableEq, Repr

/-- The cell `memset` leaves behind. -/
def TableT.zero : TableT := ⟨⟨0, 0, 0, 0⟩, 0⟩

/-- The block from `vector_table` up to `vector_table_end`. -/
abbrev VectorTable := List TableT

/-- `INTERRUPT_VECTOR_INCR`. -/
def interruptVectorIncr : ℕ := 32

/-- The loop test of `foreach_vector_st` on the cell under the pointer. -/
def TableT.inUse (entry : TableT) : Bool := entry.data != 0

/-- `foreach_vector_st`: where the loop ends, and whether its body left it early. -/
def foreachVectorSt (leave : TableT → Bool) (table : VectorTable) (start : ℕ) : ℕ × Bool :=
  scan TableT.inUse leave (table.drop start) start

/-- The entries `foreach_vector` visits when its body never leaves the loop. -/
def foreachVector (table : VectorTable) : List TableT := table.takeWhile TableT.inUse

/-- `locate_interrupt`: the first entry from `start` on that matches the request. -/
def locateInterrupt (request : V120irqdSelector) (table : VectorTable) (start : ℕ) : Option ℕ :=
  match foreachVectorSt (fun ptr => hashmatch ptr.selector request &&
      (ptr.selector.vector == anyVector || ptr.selector.vector == request.vector)) table start with
  | (ptr, true) => some ptr
  | (_, false) => none

/-- `remove_entry`: move the entries past the victim up one cell and zero the last one. -/
def removeEntry (table : VectorTable) (victim : ℕ) : VectorTable :=
  let last := (foreachVectorSt (fun _ => false) table victim).1 - 1
  let moved := if last ≠ victim then memmove table victim (victim + 1) (last - victim) else table
  moved.set last TableT.zero

/-- `find_interrupt`: the owner and the request with its payload filled in, or 0 with `errno`. -/
def findInterrupt (request : V120irqdSelector) (table : VectorTable) :
    Except ℤ (ℤ × V120irqdSelector) :=
  match locateInterrupt request table 0 with
  | none => .error einval
  | some ptr =>
    let entry := table.getD ptr TableT.zero
    .ok (entry.data, { request with payload := entry.selector.payload })

/-- The request after `find_interrupt`, which stores the payload of the entry it finds in it. -/
def findInterruptRequest (request : V120irqdSelector) (table : VectorTable) : V120irqdSelector :=
  match findInterrupt request table with
  | .error _ => request
  | .ok (_, filled) => filled

/-- What `realloc` does when the table grows: the fresh chunk starts with arbitrary contents. -/
inductive Realloc where
  | moved (stale : Fin interruptVectorIncr → TableT)
  | failed (errno : Errno)

/-- `register_interrupt`: the return code and the table afterwards. -/
def registerInterrupt (realloc : Realloc) (sd : ℤ) (request : V120irqdSelector)
    (table : VectorTable) : ℤ × VectorTable :=
  if sd = 0 then (-einval, table)
  else if request.crate = 0 then (-einval, table)
  else if request.irq = 0 ∨ request.irq &&& ~~~anyIrq ≠ 0 then (-einval, table)
  else
    match locateInterrupt request table 0 with
    | some _ => (-eaddrinuse, table)
    | none =>
      let ptr := (foreachVectorSt (fun _ => false) table 0).1
      if ptr = table.length then
        match realloc with
        | .failed errno => (-errno.val, table)
        | .moved stale =>
          let oldCount := table.length
          let grown := memset (table ++ List.ofFn stale) oldCount interruptVectorIncr TableT.zero
          (0, grown.set oldCount ⟨request, sd⟩)
      else (0, table.set ptr ⟨request, sd⟩)

/-- `release_interrupt`: the return code and the table afterwards. -/
def releaseInterrupt (sd : ℤ) (request : V120irqdSelector) (table : VectorTable) :
    ℤ × VectorTable :=
  match foreachVectorSt (fun ptr => hasheq ptr.selector request) table 0 with
  | (_, false) => (-einval, table)
  | (current, true) =>
    if (table.getD current TableT.zero).data ≠ sd then (-einval, table)
    else (0, removeEntry table current)

/-- `count_registered_interrupts`. -/
def countRegisteredInterrupts (table : VectorTable) : ℕ :=
  (foreachVectorSt (fun _ => false) table 0).1

/-- `while (ptr->data == sd) remove_entry(ptr);`, allowed `fuel` removals. -/
def removeWhileOwned (sd : ℤ) (ptr : ℕ) : ℕ → VectorTable → VectorTable
  | 0, table => table
  | fuel + 1, table =>
    if (table.getD ptr TableT.zero).data = sd then
      removeWhileOwned sd ptr fuel (removeEntry table ptr)
    else table

/-- The outer loop of `release_all_interrupts` with `left` cells from `ptr` to the end.

Each removal frees a cell of the block, so the block's length bounds the inner loop. -/
def releaseAllFrom (sd : ℤ) : ℕ → ℕ → VectorTable → VectorTable
  | 0, _, table => table
  | left + 1, ptr, table =>
    if (table.getD ptr TableT.zero).inUse then
      releaseAllFrom sd left (ptr + 1) (removeWhileOwned sd ptr table.length table)
    else table

/-- `release_all_interrupts`: the return code and the table afterwards. -/
def releaseAllInterrupts (sd : ℤ) (table : VectorTable) : ℤ × VectorTable :=
  (0, releaseAllFrom sd table.length 0 table)

/-- The masks filled in by `list_registered_interrupts`, one octet per crate. -/
abbrev CrateMasks := Fin 16 → BitVec 8

/-- The crate loop of `list_registered_interrupts` for one entry. -/
def addEntryMasks (irqs : CrateMasks) (ptr : TableT) : CrateMasks := fun crate =>
  if ptr.selector.crate &&& ((1 : BitVec 16) <<< crate.val) ≠ 0 then
    irqs crate ||| ptr.selector.irq.setWidth 8
  else irqs crate

/-- `list_registered_interrupts`. -/
def listRegisteredInterrupts (table : VectorTable) : CrateMasks :=
  (foreachVector table).foldl addEntryMasks (fun _ => 0)

end V120.Irqd
