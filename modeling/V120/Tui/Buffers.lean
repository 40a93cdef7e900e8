import Mathlib.Data.Finmap
import V120.Common.LinkedLists

/-!
# The buffers of the browser

Every display of the browser is a buffer, and the buffers form a linked list in memory. `gbl` has
pointers to its head, to the current buffer and to the one before that, and the buffer list, which is a
buffer itself, has a cursor on it. A step of the program is one key or command that concerns this list;
it has no next state when it would follow a pointer that is null or leads to a buffer that was freed.
-/

namespace V120.Tui

open V120.Common

/-- The address of a buffer. -/
abbrev Ptr := ℕ

/-- The methods of a buffer: the buffer list, or a browser, whose private data has the address of its
region. -/
inductive ModeT where
  | bumode
  | brmode (vmeAddr : BitVec 64)
  deriving DecidableEq

/-- `brkill` refuses a region whose address, as an `int`, is negative, and there is no kill for the buffer
list. -/
def ModeT.killable : ModeT → Bool
  | .bumode => false
  | .brmode vmeAddr => decide (0 ≤ (vmeAddr.setWidth 32).toInt)

/-- One buffer. -/
structure BufferT where
  bNext : Option Ptr
  bMode : ModeT
  deriving DecidableEq

/-- The buffers in memory, the pointers to them in `gbl`, the cursor of the buffer list, and the number of
rows of the terminal. -/
structure Buffers where
  heap : Finmap fun _ : Ptr => BufferT
  gHeadbuf : Option Ptr
  gBuffer : Option Ptr
  gLastbuf : Option Ptr
  cpos : ℤ
  ttnrows : ℤ

namespace Buffers

/-- The buffer that a pointer leads to. -/
def deref (s : Buffers) (p : Option Ptr) : Option BufferT := p.bind fun p => s.heap.lookup p

/-- The link in a buffer. -/
def next (s : Buffers) (p : Ptr) : Option (Option Ptr) := (s.heap.lookup p).map BufferT.bNext

/-- Write the link in a buffer. -/
def setNext (s : Buffers) (p : Ptr) (link : Option Ptr) : Option Buffers :=
  (s.heap.lookup p).map fun buf => { s with heap := s.heap.insert p { buf with bNext := link } }

/-- The rows for the buffer itself. -/
def btnrows (s : Buffers) : ℤ := s.ttnrows - 3

/-- The buffer at a position of the list. The first link is followed without a look at the head. -/
def pos2buf (s : Buffers) (pos : ℤ) : Option (Option Ptr) :=
  if 0 < pos then s.gHeadbuf.bind fun p => (s.next p).bind (walk s.next (pos.toNat - 1))
  else some s.gHeadbuf

/-- The buffer list is shown around its cursor; every buffer is read on the way. -/
def busplash (s : Buffers) : Option Unit :=
  let half := s.btnrows.tdiv 2
  let above := (if half < s.cpos then half else s.cpos).toNat
  let skipped := (s.cpos - half).toNat
  let below := (s.btnrows - (above + 1)).toNat
  (walk s.next (skipped + above + 1 + below) s.gHeadbuf).map fun _ => ()

/-- The title, the mode line and the contents of the current buffer. -/
def display (s : Buffers) : Option Unit := do
  let current ← s.deref s.gBuffer
  match current.bMode with
  | .bumode => s.busplash
  | .brmode _ => some ()

/-- `buffergoto`. -/
def buffergoto (pbuf : Option Ptr) (s : Buffers) : Option Buffers :=
  let s := { s with gLastbuf := s.gBuffer, gBuffer := pbuf }
  s.display.map fun _ => s

/-- `bufferback`. -/
def bufferback (s : Buffers) : Option Buffers := s.buffergoto s.gLastbuf

/-- `buffernext`. -/
def buffernext (s : Buffers) : Option Buffers := do
  let current ← s.deref s.gBuffer
  s.buffergoto (current.bNext.or s.gHeadbuf)

/-- `buffernew` with the answer of `malloc`, which is never the address of a buffer in use. The new buffer
is the head of the list. -/
def buffernew (mode : ModeT) (answer : Option Ptr) (s : Buffers) : Option Buffers :=
  match answer with
  | none => some s
  | some p =>
    if p ∈ s.heap then none
    else some { s with heap := s.heap.insert p ⟨s.gHeadbuf, mode⟩, gHeadbuf := some p }

/-- `buffershuffle`. -/
def buffershuffle (s : Buffers) : Option Buffers :=
  match s.gHeadbuf with
  | none => some s
  | some b => do
    match ← s.next b with
    | none => some s
    | some c =>
      let behind ← s.next c
      let s ← s.setNext b behind
      let s ← s.setNext c (some b)
      some { s with gHeadbuf := some c }

/-- A browser for a card or a dummy region, whose buffer comes second in the list. When some allocation
fails there is no new buffer. -/
def addBrowser (vmeAddr : BitVec 64) (answer : Option Ptr) (s : Buffers) : Option Buffers :=
  match answer with
  | none => some s
  | some p => (s.buffernew (.brmode vmeAddr) (some p)).bind buffershuffle

/-- `bufferlist_start`. -/
def bufferlistStart (answer : Option Ptr) (s : Buffers) : Option Buffers :=
  (s.buffernew .bumode answer).map fun s => { s with cpos := 0, gBuffer := s.gHeadbuf }

/-- `ctrlnew`: the browser for the registers of a crate has the address -1. -/
def ctrlnew (s : Buffers) (answer : Option Ptr) : Option Buffers := s.buffernew (.brmode (-1)) answer

/-- `main` up to the first `buffergoto`, with the answers of `malloc` for the registers of the crates that
are there and for the buffer list. The program ends when there is no buffer at all. -/
def start (crates : List (Option Ptr)) (answer : Option Ptr) (ttnrows : ℤ) : Option Buffers := do
  let s ← crates.foldlM ctrlnew ⟨∅, none, none, none, 0, ttnrows⟩
  let s ← s.bufferlistStart answer
  s.buffergoto s.gBuffer

/-- `bufferkill`. The search for the buffer before it ends, at the latest, when all buffers were seen. -/
def bufferkill (pbuf : Ptr) (s : Buffers) : Option Buffers := do
  let head ← s.gHeadbuf
  if pbuf = head then
    let link ← s.next head
    some { s with gHeadbuf := link, heap := s.heap.erase head }
  else
    let (p, q) ← findBefore s.next pbuf s.heap.keys.card head
    match q with
    | none => some s
    | some q =>
      let behind ← s.next q
      let s ← ({ s with cpos := 0 } : Buffers).setNext p behind
      let s ←
        if s.gBuffer = some q then ({ s with gBuffer := some p } : Buffers).buffergoto (some p)
        else some s
      some { s with heap := s.heap.erase q }

/-- `brkill`. -/
def brkill (pbuf : Ptr) (vmeAddr : BitVec 64) (s : Buffers) : Option Buffers :=
  if (vmeAddr.setWidth 32).toInt < 0 then some s else s.bufferkill pbuf

/-- `bukill` kills the buffer under the cursor. -/
def bukill (pbuf : Ptr) (s : Buffers) : Option Buffers := do
  let p ← s.pos2buf s.cpos
  if p = s.gHeadbuf then some s
  else
    let p ← p
    match (← s.heap.lookup p).bMode with
    | .bumode => some s
    | .brmode vmeAddr => if p = pbuf then some s else s.brkill p vmeAddr

/-- `inpkill`. -/
def inpkill (s : Buffers) : Option Buffers := do
  let pbuf ← s.gBuffer
  match (← s.heap.lookup pbuf).bMode with
  | .bumode => s.bukill pbuf
  | .brmode vmeAddr => s.brkill pbuf vmeAddr

/-- `budn`. -/
def budn (s : Buffers) : Option Buffers := do
  match ← s.pos2buf s.cpos with
  | none => some s
  | some p =>
    let link ← s.next p
    some (if link.isSome then { s with cpos := s.cpos + 1 } else s)

/-- `buup`. -/
def buup (s : Buffers) : Buffers := if 0 < s.cpos then { s with cpos := s.cpos - 1 } else s

/-- `bupgup`. -/
def bupgup (s : Buffers) : Buffers := { s with cpos := max 0 (s.cpos - s.btnrows) }

/-- The loop of `bupgdn`: how far the cursor moves. -/
def pageDown (next : Ptr → Option (Option Ptr)) : ℕ → Ptr → Option ℤ
  | 0, p => (next p).map fun _ => 0
  | n + 1, p => do
    match ← next p with
    | none => some 0
    | some q => (pageDown next n q).map (· + 1)

/-- `bupgdn`. -/
def bupgdn (s : Buffers) : Option Buffers := do
  match ← s.pos2buf s.cpos with
  | none => some s
  | some p => (pageDown s.next s.btnrows.toNat p).map fun moved => { s with cpos := s.cpos + moved }

/-- `bugoto`. -/
def bugoto (s : Buffers) : Option Buffers := do
  match ← s.pos2buf s.cpos with
  | none => some s
  | some p => s.buffergoto (some p)

/-- A key that the buffer list has its own method for; browsers have theirs, which leave the list alone. -/
def onBufferList (method : Buffers → Option Buffers) (s : Buffers) : Option Buffers := do
  match (← s.deref s.gBuffer).bMode with
  | .bumode => method s
  | .brmode _ => some s

end Buffers

/-- What the user or a script does to the buffers, with the answer of `malloc` to a new one. -/
inductive Op where
  | addBrowser (vmeAddr : BitVec 64) (answer : Option Ptr)
  | bugoto
  | inphome
  | inpnext
  | inptoggle
  | inpup
  | inpdn
  | inppgup
  | inppgdn
  | inpkill
  | ttsize (rows : ℤ)

/-- One step. -/
def Buffers.step (s : Buffers) : Op → Option Buffers
  | .addBrowser vmeAddr answer => s.addBrowser vmeAddr answer
  | .bugoto => s.onBufferList Buffers.bugoto
  | .inphome => s.buffergoto s.gHeadbuf
  | .inpnext => s.buffernext
  | .inptoggle => s.bufferback
  | .inpup => s.onBufferList fun s => some s.buup
  | .inpdn => s.onBufferList Buffers.budn
  | .inppgup => s.onBufferList fun s => some s.bupgup
  | .inppgdn => s.onBufferList Buffers.bupgdn
  | .inpkill => s.inpkill
  | .ttsize rows => some { s with ttnrows := rows }

/-- The steps of a run one after the other. -/
def Buffers.run (s : Buffers) (ops : List Op) : Option Buffers := ops.foldlM Buffers.step s

end V120.Tui
