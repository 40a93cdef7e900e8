import V120.Tui.Rnm
import V120.Vme.Handle

/-!
# The browser of a card

A browser shows the registers of a region in rows of 16 octets, as many rows as the terminal has room for.
The position is kept as the number of the first register shown and that of the selected one from there on.
A key changes one of them and leaves it to `brcheckpos` to bring them back to where they may be.

An `int` is an integer, except where a `size_t` is made one: with fewer than 2^31 octets in the region,
neither a position of it nor one that `brcheckpos` has to repair is out of its range. The number of rows of
the terminal is fixed.
-/

namespace V120.Tui

open V120.Common V120.Vme

/-- `btnrows`, for so many rows of the terminal. -/
def btnrows (ttnrows : ℤ) : ℤ := ttnrows - 3

/-- `ROW_TAG`, and `ROW_START` of `brsplash`. -/
def rowTag : ℤ := 2

/-- `struct browser_t`, as far as the position goes. -/
structure Browser where
  sel : ℤ
  offs : ℤ
  ncols : ℤ
  dwidth : ℤ
  printlen : ℤ
  dwshift : ℤ
  region : VmeRegion
  mdata : Option RnmT

section Position

variable (ttnrows : ℤ)

/-- `brarraylen`: the number of registers on one page. -/
def brarraylen (br : Browser) : ℤ := (btnrows ttnrows - rowTag) * br.ncols

/-- `broffmax`: the highest register at the start of a page. The difference is one of `size_t`s. -/
def broffmax (br : Browser) : ℤ :=
  ((br.region.len / BitVec.ofInt 64 br.dwidth - BitVec.ofInt 64 (brarraylen ttnrows br)).setWidth 32).toInt

/-- `brstartpos`. -/
def brstartpos (br : Browser) : Browser := { br with sel := 0, offs := 0 }

/-- `brendpos`. -/
def brendpos (br : Browser) : Browser :=
  { br with sel := brarraylen ttnrows br - 1, offs := broffmax ttnrows br }

/-- `brcheckpos`. -/
def brcheckpos (br : Browser) : Browser :=
  let (sel, off) :=
    if br.sel < 0 then (br.sel + br.ncols, br.offs - br.ncols)
    else if br.sel ≥ brarraylen ttnrows br then (br.sel - br.ncols, br.offs + br.ncols)
    else (br.sel, br.offs)
  let br := { br with offs := off, sel := sel }
  if off < 0 then brstartpos br else if off > broffmax ttnrows br then brendpos ttnrows br else br

/-- `brleft`. -/
def brleft (br : Browser) : Browser := brcheckpos ttnrows { br with sel := br.sel - 1 }

/-- `brright`. -/
def brright (br : Browser) : Browser := brcheckpos ttnrows { br with sel := br.sel + 1 }

/-- `brup`. -/
def brup (br : Browser) : Browser := brcheckpos ttnrows { br with sel := br.sel - br.ncols }

/-- `brdn`. -/
def brdn (br : Browser) : Browser := brcheckpos ttnrows { br with sel := br.sel + br.ncols }

/-- `brpgdn`. -/
def brpgdn (br : Browser) : Browser :=
  brcheckpos ttnrows { br with offs := br.offs + brarraylen ttnrows br }

/-- `brpgup`. -/
def brpgup (br : Browser) : Browser :=
  brcheckpos ttnrows { br with offs := br.offs - brarraylen ttnrows br }

/-- `brend`. -/
def brend (br : Browser) : Browser := brendpos ttnrows br

/-- `brhome`. -/
def brhome (br : Browser) : Browser := brstartpos br

/-- The correction `brchmod` sets for the data width of the RNM file. -/
def brdwshift (dwidth : ℤ) : Option RnmT → ℤ
  | none => 0
  | some mdata => if dwidth > mdata.rDwidth then -1 else if dwidth < mdata.rDwidth then 1 else 0

/-- `brchmod`. -/
def brchmod (br : Browser) : Browser :=
  let br :=
    if br.dwidth = 2 then
      { br with dwidth := 4, printlen := 10, offs := br.offs.tdiv 2, sel := br.sel.tdiv 2 }
    else { br with dwidth := 2, printlen := 6, offs := br.offs * 2, sel := br.sel * 2 }
  brcheckpos ttnrows
    { br with dwshift := brdwshift br.dwidth br.mdata, ncols := (16 : ℤ).tdiv br.dwidth }

/-- The browser of `browsernew`, in memory that holds anything. -/
def browsernew (uninitialised : Browser) (region : VmeRegion) (metadata : Option RnmT) : Browser :=
  brchmod ttnrows (brchmod ttnrows
    { uninitialised with
      sel := 0
      offs := 0
      region := region
      mdata := metadata
      dwshift := 0
      dwidth := metadata.elim 2 RnmT.rDwidth })

/-- The keys that move in a browser, and the command `chmod`. -/
inductive BrowserKey where
  | brleft
  | brright
  | brup
  | brdn
  | brpgup
  | brpgdn
  | brend
  | brhome
  | brchmod
  deriving DecidableEq, Repr

/-- What a key does. -/
def pressKey (br : Browser) : BrowserKey → Browser
  | .brleft => brleft ttnrows br
  | .brright => brright ttnrows br
  | .brup => brup ttnrows br
  | .brdn => brdn ttnrows br
  | .brpgup => brpgup ttnrows br
  | .brpgdn => brpgdn ttnrows br
  | .brend => brend ttnrows br
  | .brhome => brhome br
  | .brchmod => brchmod ttnrows br

end Position

/-- The octet of the region that `brwrite1` writes at. -/
def brwriteOffs (br : Browser) : ℤ := (br.sel + br.offs) * (if br.dwidth = 2 then 2 else 4)

/-- The registers of a row that `brsplash` reads, from an octet of the region on. -/
def splashRow (dwidth : ℤ) : ℕ → ℤ → List ℤ
  | 0, _ => []
  | ncols + 1, input => input :: splashRow dwidth ncols (input + dwidth)

/-- The registers of so many rows. -/
def splashRows (dwidth : ℤ) (ncols : ℕ) : ℕ → ℤ → List ℤ
  | 0, _ => []
  | nrows + 1, input =>
    splashRow dwidth ncols input ++ splashRows dwidth ncols nrows (input + ncols * dwidth)

/-- The registers that `brsplash` reads, each by the octet of the region where it begins. -/
def brsplashCells (ttnrows : ℤ) (br : Browser) : List ℤ :=
  splashRows br.dwidth br.ncols.toNat (btnrows ttnrows - rowTag).toNat (br.offs * br.dwidth)

end V120.Tui
