import V120.Common.HostOrder
import V120.Tui.RegisterNames

/-!
# The registers of a card

The commands of a browser that read or write registers, with the memory that the region of the card is
mapped at. A write goes to the selected register in the width of the display, or to a register by its name
or its offset. On a terminal of four rows of registers at least, and with an RNM file that the region has
room for, the selection never leaves the region, wherever the keys and the commands move it.
-/

namespace V120.Tui

open V120.Common V120.Vme

/-- A browser with the RNM file of its buffer, and the memory from `br_pregs` on. -/
structure Card where
  buf : BrowserBuffer
  refresh : ℤ
  lastwrite : BitVec 32
  topoffs : ℤ
  crateid : ℤ
  regs : ℕ → Octet

/-- `BROWSER_MS`. -/
def browserMs : ℤ := 50

/-- `REFRESH_MIN_MS`. -/
def refreshMinMs : ℤ := 10

/-- The registers that `brsplash` shows, in order. The panel that it prints beside them, with the name, the
offset and other readings of the selected one, is left out. -/
def brsplashValues (ttnrows : ℤ) (card : Card) : List (BitVec 32) :=
  (brsplashCells ttnrows card.buf.br).map fun input =>
    valueAt card.buf.br.dwidth.toNat card.regs input.toNat

namespace Card

variable (ttnrows : ℤ)

/-- The card with another browser. -/
def withBr (card : Card) (br : Browser) : Card := { card with buf := ⟨card.buf.bRnms, br⟩ }

/-- The card of `browsernew`, in memory that holds anything. -/
def ofRegion (uninitialised : Browser) (region : VmeRegion) (metadata : Option RnmT) (crateid : ℤ)
    (regs : ℕ → Octet) : Card where
  buf := browserBuffer ttnrows uninitialised region metadata
  refresh := browserMs
  lastwrite := 0
  topoffs := metadata.elim 128 fun rnm => intOf (rnm.rLen * rnm.rDwidth)
  crateid := crateid
  regs := regs

/-- A key that moves in the browser, and the command `chmod`. -/
def pressKey (key : BrowserKey) (card : Card) : Card := card.withBr (Tui.pressKey ttnrows card.buf.br key)

/-- `brwrite1`; there is no answer when the register is before the region. -/
def brwrite1 (v : BitVec 32) (card : Card) : Option Card :=
  let offs := brwriteOffs card.buf.br
  if offs < 0 then none
  else some { card with regs := writeReg (if card.buf.br.dwidth = 2 then 2 else 4) card.regs offs.toNat v }

/-- `brditto` from the keyboard. -/
def brditto (card : Card) : Option Card := card.brwrite1 card.lastwrite

/-- `brzero`. -/
def brzero (card : Card) : Option Card := card.brwrite1 0

/-- `brwrite` with the value that was entered, if one was. -/
def brwrite (v : Option (BitVec 32)) (card : Card) : Option Card :=
  match v with
  | none => some card
  | some v => (card.brwrite1 v).map fun card => { card with lastwrite := v }

/-- `brgoto` with the position that was entered, if one was. -/
def brgoto (v : Option (BitVec 32)) (card : Card) : Card :=
  match v with
  | none => card
  | some v =>
    if v.toInt < card.topoffs ∧ 0 ≤ v.toInt then card.withBr (brjump ttnrows card.buf.br v.toInt) else card

/-- `brgotoname` with the name that was entered, if one was. -/
def brgotoname (s : Option (List Octet)) (card : Card) : Option Card :=
  (Tui.brgotoname ttnrows card.buf s).map fun buf => { card with buf := buf }

/-- `brwrite2name` with a name, or an offset, and a value. Without an RNM file only an offset that is negative
as an `int` does no harm. -/
def brwrite2name (s : List Octet) (v : BitVec 32) (card : Card) : Option Card :=
  match card.buf.bRnms with
  | none => if isdigit (firstChar s) ∧ widthOf s < 0 then some card else none
  | some _ => (Tui.brwrite2name card.buf s v card.regs).map fun regs => { card with regs := regs }

/-- The rate that `brchrefresh` makes of a number. -/
def refreshRate (v : ℤ) : ℤ := if 0 < v ∧ v < 10 then refreshMinMs else if v < 0 then -1 else v

/-- `brchrefresh` with the number that was given, if one was. -/
def brchrefresh (v : Option (BitVec 32)) (card : Card) : Card :=
  match v with
  | none => card
  | some v => { card with refresh := refreshRate v.toInt }

/-- `brrefreshoff`. -/
def brrefreshoff (card : Card) : Card := { card with refresh := -1 }

/-- `braddrnm` with what `rnmparse` answers. -/
def braddrnm (rnm : Option RnmT) (card : Card) : Card :=
  { card with
    buf := ⟨rnm, brchmod ttnrows (brchmod ttnrows { card.buf.br with mdata := rnm })⟩ }

end Card

section Jumps

variable {ttnrows : ℤ} {region : VmeRegion} {br : Browser}

/-- What the loop of `brjump` keeps, for the register it goes to. -/
structure Jumping (ttnrows : ℤ) (region : VmeRegion) (register : ℤ) (br : Browser) : Prop where
  region : br.region = region
  wide : br.Wide
  aligned : br.ncols ∣ br.offs
  offs_nonneg : 0 ≤ br.offs
  sel_nonneg : 0 ≤ br.sel
  sel_lt : br.sel < brarraylen ttnrows br
  sum : br.offs + br.sel = register

/-- A turn of the loop keeps it: a page that is behind the last one begins a row later than that at least. -/
theorem Jumping.turn (hfits : FillsScreen ttnrows region) {register : ℤ}
    (h : Jumping ttnrows region register br) (hregister : register * br.dwidth < region.len.toNat)
    (hbehind : broffmax ttnrows br < br.offs) :
    Jumping ttnrows region register { br with offs := br.offs - br.ncols, sel := br.sel + br.ncols } := by
  obtain ⟨-, hncols, hdwidth⟩ := h.wide.columns
  have hfits' : FillsScreen ttnrows br.region := h.region.symm ▸ hfits
  obtain ⟨hlast, hlastRow⟩ := broffmax_row hfits' h.wide
  have hlen := len_eq hfits' h.wide
  have hrow : br.ncols ≤ br.offs - broffmax ttnrows br :=
    Int.le_of_dvd (by omega) (dvd_sub h.aligned hlastRow)
  have hsum := h.sum
  have hsel := h.sel_nonneg
  have hless : register < broffmax ttnrows br + brarraylen ttnrows br := by
    rw [← h.region, hlen] at hregister
    exact lt_of_mul_lt_mul_right hregister (Int.le_of_lt hdwidth)
  constructor
  · exact h.region
  · exact h.wide
  · exact dvd_sub h.aligned (dvd_refl _)
  · change 0 ≤ br.offs - br.ncols
    omega
  · change 0 ≤ br.sel + br.ncols
    omega
  · change br.sel + br.ncols < brarraylen ttnrows br
    omega
  · change br.offs - br.ncols + (br.sel + br.ncols) = register
    omega

/-- The loop of `brjump` keeps the invariant. -/
theorem Jumping.loop (hfits : FillsScreen ttnrows region) {register : ℤ} (turns : ℕ)
    (h : Jumping ttnrows region register br) (hregister : register * br.dwidth < region.len.toNat) :
    Jumping ttnrows region register (brjumpLoop ttnrows turns br) := by
  induction turns generalizing br with
  | zero => exact h
  | succ turns ih =>
    rw [brjumpLoop]
    split_ifs with hbehind
    · exact ih (h.turn hfits hregister hbehind) hregister
    · exact h

/-- A jump to an octet of the region selects a register of the region, on a page of four rows at least. -/
theorem brjump_inside (hfits : FillsScreen ttnrows region) (hrows : 4 ≤ btnrows ttnrows - rowTag)
    (h : Inside ttnrows region br) {v : ℤ} (hnonneg : 0 ≤ v) (hless : v < region.len.toNat) :
    Inside ttnrows region (brjump ttnrows br v) := by
  obtain ⟨-, hncols, hdwidth⟩ := h.wide.columns
  have hregister : v.tdiv br.dwidth = v / br.dwidth := Int.tdiv_eq_ediv_of_nonneg hnonneg
  have hoffset : v / br.dwidth * br.dwidth < region.len.toNat :=
    Int.lt_of_le_of_lt (Int.ediv_mul_le v (Int.ne_of_gt hdwidth)) hless
  have hquotient : 0 ≤ v / br.dwidth := Int.ediv_nonneg hnonneg (Int.le_of_lt hdwidth)
  have hstart : Jumping ttnrows region (v / br.dwidth)
      { br with offs := v / br.dwidth / 16 * 16, sel := v / br.dwidth % 16 } := by
    constructor
    · exact h.region
    · exact h.wide
    · rcases h.wide with ⟨-, hcolumns⟩ | ⟨-, hcolumns⟩
      · exact hcolumns ▸ Dvd.dvd.mul_left (by decide) _
      · exact hcolumns ▸ Dvd.dvd.mul_left (by decide) _
    · change 0 ≤ v / br.dwidth / 16 * 16
      omega
    · change 0 ≤ v / br.dwidth % 16
      omega
    · change v / br.dwidth % 16 < (btnrows ttnrows - rowTag) * br.ncols
      rcases h.wide with ⟨-, hcolumns⟩ | ⟨-, hcolumns⟩ <;> rw [hcolumns] <;> omega
    · change v / br.dwidth / 16 * 16 + v / br.dwidth % 16 = v / br.dwidth
      omega
  have hjumped : Jumping ttnrows region (v / br.dwidth) (brjump ttnrows br v) := by
    unfold brjump
    rw [hregister]
    exact hstart.loop hfits _ hoffset
  have hbound : (brjump ttnrows br v).offs ≤ broffmax ttnrows (brjump ttnrows br v) := brjump_offs_le hncols v
  exact ⟨hjumped.region, hjumped.wide, hjumped.wide.columns.1, hjumped.aligned, hjumped.offs_nonneg, hbound,
    hjumped.sel_nonneg, hjumped.sel_lt⟩

end Jumps

/-- A store to a register is one to memory. -/
theorem writeReg_eq (size : ℕ) (pregs : ℕ → Octet) (offs : ℕ) (v : BitVec 32) :
    writeReg size pregs offs v = withValue size pregs offs v := rfl

/-- A terminal with four rows of registers at least. -/
def FourRows (ttnrows : ℤ) : Prop := 4 ≤ btnrows ttnrows - rowTag

/-- An RNM file as the parser leaves it, all of whose registers are in a region of so many octets in either
width. -/
structure RnmFits (room : ℕ) (rnm : RnmT) : Prop where
  whole : WholeRnm rnm
  size : (rnm.rLen + 1) * 4 ≤ room

/-- The region of a card fills the screen and has so many octets at least, its position is in the region, and
no name or offset leads out of it. -/
structure Card.Fits (ttnrows : ℤ) (room : ℕ) (card : Card) : Prop where
  inside : Inside ttnrows card.buf.br.region card.buf.br
  screen : FillsScreen ttnrows card.buf.br.region
  large : room ≤ card.buf.br.region.len.toNat
  offsets : card.topoffs ≤ room
  names : ∀ rnm, card.buf.bRnms = some rnm → RnmFits room rnm

/-- A command leaves a card in its region and its crate. -/
structure Card.Same (card card' : Card) : Prop where
  region : card'.buf.br.region = card.buf.br.region
  crateid : card'.crateid = card.crateid

/-- A command leaves a card in its region and its crate, and the memory behind the region as it was. -/
structure Card.Served (card card' : Card) : Prop extends Card.Same card card' where
  behind : ∀ i, card.buf.br.region.len.toNat ≤ i → card'.regs i = card.regs i

namespace Card

variable {ttnrows : ℤ} {room : ℕ} {card card' : Card}

/-- A card serves itself. -/
theorem Served.refl (card : Card) : Served card card := ⟨⟨rfl, rfl⟩, fun _ _ => rfl⟩

/-- Two commands one after the other. -/
theorem Served.trans {card'' : Card} (h : Served card card') (h' : Served card' card'') : Served card card'' where
  region := h'.region.trans h.region
  crateid := h'.crateid.trans h.crateid
  behind i hi := (h'.behind i (h.region.symm ▸ hi)).trans (h.behind i hi)

/-- The width of a register as `brwrite1` has it. -/
theorem Fits.width (h : card.Fits ttnrows room) :
    (if card.buf.br.dwidth = 2 then 2 else 4) = card.buf.br.dwidth.toNat := by
  rcases h.inside.wide with ⟨hdwidth, -⟩ | ⟨hdwidth, -⟩ <;> rw [hdwidth] <;> rfl

/-- Another browser of the region, at a position in it. -/
theorem Fits.withBr (h : card.Fits ttnrows room) {br : Browser}
    (hinside : Inside ttnrows card.buf.br.region br) :
    (card.withBr br).Fits ttnrows room ∧ Served card (card.withBr br) := by
  obtain ⟨hregion, hwide, hplaced⟩ := hinside
  refine ⟨⟨⟨rfl, hwide, hplaced⟩, ?_, ?_, h.offsets, h.names⟩, ⟨hregion, rfl⟩, fun _ _ => rfl⟩
  · change FillsScreen ttnrows br.region
    exact hregion.symm ▸ h.screen
  · change room ≤ br.region.len.toNat
    exact hregion.symm ▸ h.large

/-- Keys that move. -/
theorem Fits.pressKey (h : card.Fits ttnrows room) (key : BrowserKey) :
    (card.pressKey ttnrows key).Fits ttnrows room ∧ Served card (card.pressKey ttnrows key) :=
  h.withBr (pressKey_inside h.screen h.inside key)

/-- The selected register is written where it lies in the region. -/
theorem Fits.exists_brwrite1 (h : card.Fits ttnrows room) (v : BitVec 32) :
    card.brwrite1 v = some { card with
      regs := writeReg card.buf.br.dwidth.toNat card.regs (brwriteOffs card.buf.br).toNat v } := by
  obtain ⟨hlow, -⟩ := h.inside.selected h.screen
  rw [brwrite1, if_neg (Int.not_lt.mpr hlow), h.width]

/-- A write stays in the region. -/
theorem Fits.brwrite1 (h : card.Fits ttnrows room) (v : BitVec 32) :
    ∃ card', card.brwrite1 v = some card' ∧ card'.Fits ttnrows room ∧ Served card card' := by
  refine ⟨_, h.exists_brwrite1 v, ⟨h.inside, h.screen, h.large, h.offsets, h.names⟩, ⟨rfl, rfl⟩, fun i hi => ?_⟩
  apply withValue_outside
  right
  obtain ⟨hlow, hhigh⟩ := h.inside.selected h.screen
  obtain ⟨-, -, hdwidth⟩ := h.inside.wide.columns
  omega

/-- `brwrite`. -/
theorem Fits.brwrite (h : card.Fits ttnrows room) (v : Option (BitVec 32)) :
    ∃ card', card.brwrite v = some card' ∧ card'.Fits ttnrows room ∧ Served card card' := by
  cases v with
  | none => exact ⟨card, rfl, h, .refl card⟩
  | some v =>
    obtain ⟨card', hwritten, hfits, hserved⟩ := h.brwrite1 v
    refine ⟨{ card' with lastwrite := v }, ?_, ⟨hfits.inside, hfits.screen, hfits.large, hfits.offsets, hfits.names⟩,
      ⟨hserved.region, hserved.crateid⟩, hserved.behind⟩
    rw [Card.brwrite, hwritten, Option.map_some]

/-- `brgoto`. -/
theorem Fits.brgoto (h : card.Fits ttnrows room) (hrows : FourRows ttnrows) (v : Option (BitVec 32)) :
    (card.brgoto ttnrows v).Fits ttnrows room ∧ Served card (card.brgoto ttnrows v) := by
  have hstays : card.Fits ttnrows room ∧ Served card card := ⟨h, .refl card⟩
  cases v with
  | none => exact hstays
  | some v =>
    unfold Card.brgoto
    dsimp only
    split_ifs with hposition
    · obtain ⟨hless, hnonneg⟩ := hposition
      have htop := h.offsets
      have hroom := h.large
      exact h.withBr (brjump_inside h.screen hrows h.inside hnonneg (by omega))
    · exact hstays

/-- `brgoto` writes no register. -/
theorem brgoto_regs (card : Card) (ttnrows : ℤ) (v : Option (BitVec 32)) : (card.brgoto ttnrows v).regs = card.regs := by
  cases v with
  | none => rfl
  | some v =>
    rw [Card.brgoto]
    split_ifs
    · rfl
    · rfl

/-- `brgotoname` writes no register. -/
theorem brgotoname_regs {s : Option (List Octet)} (hgone : card.brgotoname ttnrows s = some card') :
    card'.regs = card.regs := by
  obtain ⟨buf, -, rfl⟩ := Option.map_eq_some_iff.mp hgone
  rfl

/-- `brchrefresh` writes no register. -/
theorem brchrefresh_regs (card : Card) (v : Option (BitVec 32)) : (card.brchrefresh v).regs = card.regs := by
  cases v with
  | none => rfl
  | some v => rfl

/-- A name has no position when it has no bucket. -/
theorem brgotoname_eq_none_iff {s : Option (List Octet)} :
    card.brgotoname ttnrows s = none ↔
      ∃ rnm name, card.buf.bRnms = some rnm ∧ s = some name ∧ negativeHash name = true := by
  rw [Card.brgotoname, Option.map_eq_none_iff]
  unfold Tui.brgotoname
  cases hrnm : card.buf.bRnms with
  | none => simp
  | some rnm =>
    cases s with
    | none => simp
    | some name =>
      rw [Option.map_eq_none_iff, rnmsearch]
      cases hhash : negativeHash name with
      | false => simp [hhash]
      | true => simp [hhash]

/-- `brgotoname`, for a name with a bucket. -/
theorem Fits.brgotoname (h : card.Fits ttnrows room) (hrows : FourRows ttnrows) {s : Option (List Octet)}
    (hgone : card.brgotoname ttnrows s = some card') : card'.Fits ttnrows room ∧ Served card card' := by
  obtain ⟨buf, hbuf, rfl⟩ := Option.map_eq_some_iff.mp hgone
  have hstays (hsame : some card.buf = some buf) :
      ({ card with buf := buf } : Card).Fits ttnrows room ∧ Served card { card with buf := buf } := by
    obtain rfl := Option.some.inj hsame
    exact ⟨h, .refl card⟩
  unfold Tui.brgotoname at hbuf
  cases hrnm : card.buf.bRnms with
  | none =>
    rw [hrnm] at hbuf
    exact hstays hbuf
  | some rnm =>
    rw [hrnm] at hbuf
    cases s with
    | none => exact hstays hbuf
    | some s =>
      obtain ⟨i, hsearch, hbuf⟩ := Option.map_eq_some_iff.mp hbuf
      split_ifs at hbuf with hmissing
      · exact hstays (congrArg some hbuf)
      · obtain ⟨hwhole, hsize⟩ := h.names rnm hrnm
        obtain ⟨-, -, hle⟩ := hwhole.record hsearch (Int.not_lt.mp hmissing)
        have hroom := h.large
        have hlen := h.screen.short
        have hscaled : 0 ≤ i * card.buf.br.dwidth ∧ i * card.buf.br.dwidth < card.buf.br.region.len.toNat := by
          rcases h.inside.wide with ⟨hdwidth, -⟩ | ⟨hdwidth, -⟩ <;> rw [hdwidth] <;> constructor <;> omega
        have hexact : intOf (i * card.buf.br.dwidth) = i * card.buf.br.dwidth := by
          rw [intOf, BitVec.toInt_ofInt]
          apply Int.bmod_eq_of_le <;> omega
        rw [hexact] at hbuf
        subst hbuf
        have hjumped := h.withBr (brjump_inside h.screen hrows h.inside hscaled.1 hscaled.2)
        rwa [Card.withBr, hrnm] at hjumped

/-- Two toggles of the width. -/
theorem Fits.brchmod_twice (h : card.Fits ttnrows room) (rnm : Option RnmT) :
    Inside ttnrows card.buf.br.region
      (brchmod ttnrows (brchmod ttnrows { card.buf.br with mdata := rnm })) := by
  have hstart : Inside ttnrows card.buf.br.region { card.buf.br with mdata := rnm } :=
    ⟨h.inside.region, h.inside.wide, h.inside.placed.columns, h.inside.placed.aligned,
      h.inside.placed.offs_nonneg, h.inside.placed.offs_le, h.inside.placed.sel_nonneg, h.inside.placed.sel_lt⟩
  exact pressKey_inside h.screen (pressKey_inside h.screen hstart .brchmod) .brchmod

/-- `braddrnm`, for a file that fits. -/
theorem Fits.braddrnm (h : card.Fits ttnrows room) {rnm : Option RnmT}
    (hrnm : ∀ r, rnm = some r → RnmFits room r) :
    (card.braddrnm ttnrows rnm).Fits ttnrows room ∧ Served card (card.braddrnm ttnrows rnm) := by
  obtain ⟨hregion, hwide, hplaced⟩ := h.brchmod_twice rnm
  refine ⟨⟨⟨rfl, hwide, hplaced⟩, ?_, ?_, h.offsets, hrnm⟩, ⟨hregion, rfl⟩, fun _ _ => rfl⟩
  · change FillsScreen ttnrows (brchmod ttnrows (brchmod ttnrows { card.buf.br with mdata := rnm })).region
    exact hregion.symm ▸ h.screen
  · change room ≤ (brchmod ttnrows (brchmod ttnrows { card.buf.br with mdata := rnm })).region.len.toNat
    exact hregion.symm ▸ h.large

/-- The rates do not matter. -/
theorem Fits.withRefresh (h : card.Fits ttnrows room) (refresh : ℤ) :
    ({ card with refresh := refresh } : Card).Fits ttnrows room ∧ Served card { card with refresh := refresh } :=
  ⟨⟨h.inside, h.screen, h.large, h.offsets, h.names⟩, ⟨rfl, rfl⟩, fun _ _ => rfl⟩

/-- `brchrefresh`. -/
theorem Fits.brchrefresh (h : card.Fits ttnrows room) (v : Option (BitVec 32)) :
    (card.brchrefresh v).Fits ttnrows room ∧ Served card (card.brchrefresh v) := by
  cases v with
  | none => exact ⟨h, .refl card⟩
  | some v => exact h.withRefresh _

/-- A number that `write-reg` takes for an offset is in the region, or negative. -/
def OffsetInside (card : Card) (s : List Octet) : Prop :=
  isdigit (firstChar s) → widthOf s < card.buf.br.region.len.toNat

/-- `brwrite2name` moves nothing. -/
theorem Fits.brwrite2name (h : card.Fits ttnrows room) {s : List Octet} {v : BitVec 32}
    (hwritten : card.brwrite2name s v = some card') : card'.Fits ttnrows room ∧ Same card card' := by
  unfold Card.brwrite2name at hwritten
  split at hwritten
  · split_ifs at hwritten
    obtain rfl := Option.some.inj hwritten
    exact ⟨h, rfl, rfl⟩
  · obtain ⟨regs, -, rfl⟩ := Option.map_eq_some_iff.mp hwritten
    exact ⟨⟨h.inside, h.screen, h.large, h.offsets, h.names⟩, rfl, rfl⟩

/-- `brwrite2name` stays in the region unless it is told an offset that is not there: a name has none. -/
theorem Fits.brwrite2name_served (h : card.Fits ttnrows room) {s : List Octet} {v : BitVec 32}
    (hwritten : card.brwrite2name s v = some card') (hoffset : card.OffsetInside s) : Served card card' := by
  unfold Card.brwrite2name at hwritten
  split at hwritten
  · split_ifs at hwritten
    obtain rfl := Option.some.inj hwritten
    exact .refl card
  · rename_i rnm hrnm
    obtain ⟨regs, hregs, rfl⟩ := Option.map_eq_some_iff.mp hwritten
    refine ⟨⟨rfl, rfl⟩, fun i hi => ?_⟩
    rw [Tui.brwrite2name, hrnm, Option.bind_some] at hregs
    obtain ⟨offs, hoffs, rfl⟩ := Option.map_eq_some_iff.mp hregs
    have hrows := h.screen.multiple
    have hless : 0 ≤ offs → offs < card.buf.br.region.len.toNat := by
      intro hnonneg
      by_cases hdigit : isdigit (firstChar s) = true
      · rw [if_pos hdigit] at hoffs
        exact Option.some.inj hoffs ▸ hoffset hdigit
      · rw [if_neg hdigit] at hoffs
        obtain ⟨i, hsearch, rfl⟩ := Option.map_eq_some_iff.mp hoffs
        obtain ⟨hwholeRnm, hsize⟩ := h.names rnm hrnm
        have hroom := h.large
        have hlen := h.screen.short
        have hindex : -1 ≤ i ∧ i ≤ rnm.rLen := by
          rcases rnmsearch_sound hwholeRnm.known hsearch with rfl | ⟨index, rdata, rfl, hrdata, -⟩
          · have hpos := hwholeRnm.pos
            omega
          · have hrecord := (List.getElem?_eq_some_iff.mp hrdata).1
            have hrecords := hwholeRnm.size
            omega
        have hscaled : -4 ≤ i * card.buf.br.dwidth ∧ i * card.buf.br.dwidth < card.buf.br.region.len.toNat := by
          rcases h.inside.wide with ⟨hdwidth, -⟩ | ⟨hdwidth, -⟩ <;> rw [hdwidth] <;> constructor <;> omega
        have hexact : intOf (i * card.buf.br.dwidth) = i * card.buf.br.dwidth := by
          rw [intOf, BitVec.toInt_ofInt]
          apply Int.bmod_eq_of_le <;> omega
        exact hexact.symm ▸ hscaled.2
    split_ifs
    · rfl
    · apply withValue_outside
      omega
    · apply withValue_outside
      omega

/-- A new card fits when its region and its RNM file do. -/
theorem ofRegion_fits (uninitialised : Browser) {region : VmeRegion} (hscreen : FillsScreen ttnrows region)
    (hroom : room ≤ region.len.toNat) (hleast : 128 ≤ room) {metadata : Option RnmT}
    (hrnm : ∀ r, metadata = some r → RnmFits room r) (crateid : ℤ) (regs : ℕ → Octet) :
    (ofRegion ttnrows uninitialised region metadata crateid regs).Fits ttnrows room := by
  have hinside := browsernew_inside hscreen uninitialised metadata
  obtain ⟨hregion, hwide, hplaced⟩ := hinside
  constructor
  · exact ⟨rfl, hwide, hplaced⟩
  · change FillsScreen ttnrows (browsernew ttnrows uninitialised region metadata).region
    exact hregion.symm ▸ hscreen
  · change room ≤ (browsernew ttnrows uninitialised region metadata).region.len.toNat
    exact hregion.symm ▸ hroom
  · change metadata.elim 128 (fun rnm => intOf (rnm.rLen * rnm.rDwidth)) ≤ room
    cases metadata with
    | none => exact Int.ofNat_le.mpr hleast
    | some rnm =>
      obtain ⟨hwhole, hsize⟩ := hrnm rnm rfl
      have hpos := hwhole.pos
      have hshort := hscreen.short
      have hproduct : 0 ≤ rnm.rLen * rnm.rDwidth ∧ rnm.rLen * rnm.rDwidth ≤ room := by
        rcases hwhole.dwidth with hdwidth | hdwidth <;> rw [hdwidth] <;> constructor <;> omega
      have hexact : intOf (rnm.rLen * rnm.rDwidth) = rnm.rLen * rnm.rDwidth := by
        rw [intOf, BitVec.toInt_ofInt]
        apply Int.bmod_eq_of_le <;> omega
      rw [Option.elim_some, hexact]
      exact hproduct.2
  · exact hrnm

end Card

/-- The registers of a row, in order. -/
theorem splashRow_eq (dwidth : ℤ) (ncols : ℕ) (input : ℤ) :
    splashRow dwidth ncols input = (List.range ncols).map fun column : ℕ => input + column * dwidth := by
  induction ncols generalizing input with
  | zero => rfl
  | succ ncols ih =>
    rw [splashRow, ih, List.range_succ_eq_map, List.map_cons, List.map_map]
    congr 1
    · simp
    · apply List.map_congr_left
      intro column _
      simp only [Function.comp_apply, Nat.cast_succ]
      ring

/-- The registers of the rows, in order. -/
theorem splashRows_eq (dwidth : ℤ) (ncols nrows : ℕ) (input : ℤ) :
    splashRows dwidth ncols nrows input =
      (List.range (nrows * ncols)).map fun drawno : ℕ => input + drawno * dwidth := by
  induction nrows generalizing input with
  | zero => rw [Nat.zero_mul]; rfl
  | succ nrows ih =>
    rw [splashRows, ih, splashRow_eq, Nat.succ_mul, Nat.add_comm, List.range_add, List.map_append, List.map_map]
    congr 1
    apply List.map_congr_left
    intro drawno _
    simp only [Function.comp_apply, Nat.cast_add]
    ring

section Shown

variable {ttnrows : ℤ} {room : ℕ} {card : Card}

/-- The cells of the display, in order, are the registers from the first one of the page on. -/
theorem Card.Fits.cells (h : card.Fits ttnrows room) :
    brsplashCells ttnrows card.buf.br =
      (List.range (brarraylen ttnrows card.buf.br).toNat).map fun drawno : ℕ =>
        (card.buf.br.offs + drawno) * card.buf.br.dwidth := by
  obtain ⟨-, hncols, -⟩ := h.inside.wide.columns
  have hrows := h.screen.rows
  have hcells : (brarraylen ttnrows card.buf.br).toNat =
      (btnrows ttnrows - rowTag).toNat * card.buf.br.ncols.toNat :=
    Int.toNat_mul (by omega) (Int.le_of_lt hncols)
  rw [brsplashCells, splashRows_eq, hcells]
  apply List.map_congr_left
  intro drawno _
  rw [Int.add_mul]

/-- A write to the selected register changes the selected cell of the display and no other one. -/
theorem Card.Fits.brwrite1_shown (h : card.Fits ttnrows room) {card' : Card} {v : BitVec 32}
    (hwritten : card.brwrite1 v = some card') :
    brsplashValues ttnrows card' = (brsplashValues ttnrows card).set card.buf.br.sel.toNat
      ((v.setWidth (8 * card.buf.br.dwidth.toNat)).setWidth 32) := by
  obtain rfl := Option.some.inj ((h.exists_brwrite1 v).symm.trans hwritten)
  have hoffs := h.inside.placed.offs_nonneg
  have hsel := h.inside.placed.sel_nonneg
  have hsize : card.buf.br.dwidth.toNat ≤ 4 := by
    rcases h.inside.wide with ⟨hdwidth, -⟩ | ⟨hdwidth, -⟩ <;> rw [hdwidth] <;> decide
  have hdwidth : 0 ≤ card.buf.br.dwidth := Int.le_of_lt h.inside.wide.columns.2.2
  have hregister (drawno : ℕ) : ((card.buf.br.offs + drawno) * card.buf.br.dwidth).toNat =
      (card.buf.br.offs.toNat + drawno) * card.buf.br.dwidth.toNat := by
    rw [Int.toNat_mul (by omega) hdwidth, Int.toNat_add hoffs (by omega), Int.toNat_natCast]
  have hselected : (brwriteOffs card.buf.br).toNat =
      (card.buf.br.offs.toNat + card.buf.br.sel.toNat) * card.buf.br.dwidth.toNat := by
    have hwidth := h.width
    have hnonneg : (0 : ℤ) ≤ if card.buf.br.dwidth = 2 then 2 else 4 := by split_ifs <;> decide
    rw [brwriteOffs, Int.toNat_mul (by omega) hnonneg, Int.toNat_add hsel hoffs,
      Nat.add_comm card.buf.br.sel.toNat]
    congr 1
    rw [← hwidth]
    split_ifs <;> rfl
  apply List.ext_getElem?
  intro drawno
  simp only [brsplashValues, h.cells, List.map_map, List.getElem?_set, List.getElem?_map, List.length_map]
  by_cases hdrawn : drawno < (brarraylen ttnrows card.buf.br).toNat
  · simp only [List.getElem?_range hdrawn, List.length_range, Option.map_some, Function.comp_apply, hregister,
      hselected]
    by_cases hcursor : card.buf.br.sel.toNat = drawno
    · subst hcursor
      rw [if_pos rfl, if_pos hdrawn, writeReg_eq, valueAt_withValue (by omega)]
    · rw [if_neg hcursor, writeReg_eq, valueAt_withValue_of_disjoint]
      rcases Nat.lt_or_gt_of_ne hcursor with hless | hless
      · right
        calc (card.buf.br.offs.toNat + card.buf.br.sel.toNat) * card.buf.br.dwidth.toNat +
              card.buf.br.dwidth.toNat
            = (card.buf.br.offs.toNat + card.buf.br.sel.toNat + 1) * card.buf.br.dwidth.toNat := by ring
          _ ≤ (card.buf.br.offs.toNat + drawno) * card.buf.br.dwidth.toNat :=
            Nat.mul_le_mul_right _ (by omega)
      · left
        calc (card.buf.br.offs.toNat + drawno) * card.buf.br.dwidth.toNat + card.buf.br.dwidth.toNat
            = (card.buf.br.offs.toNat + drawno + 1) * card.buf.br.dwidth.toNat := by ring
          _ ≤ (card.buf.br.offs.toNat + card.buf.br.sel.toNat) * card.buf.br.dwidth.toNat :=
            Nat.mul_le_mul_right _ (by omega)
  · have hnone : (List.range (brarraylen ttnrows card.buf.br).toNat)[drawno]? = none := by
      rw [List.getElem?_eq_none_iff, List.length_range]
      exact Nat.not_lt.mp hdrawn
    rw [hnone, List.length_range]
    by_cases hcursor : card.buf.br.sel.toNat = drawno
    · subst hcursor
      rw [if_pos rfl, if_neg hdrawn]
      rfl
    · rw [if_neg hcursor]
      rfl

/-- Keys that move, one after the other. -/
theorem Card.Fits.pressKeys (h : card.Fits ttnrows room) (keys : List BrowserKey) :
    (keys.foldl (fun card key => card.pressKey ttnrows key) card).Fits ttnrows room ∧
      card.Served (keys.foldl (fun card key => card.pressKey ttnrows key) card) ∧
      (keys.foldl (fun card key => card.pressKey ttnrows key) card).lastwrite = card.lastwrite := by
  induction keys generalizing card with
  | nil => exact ⟨h, .refl card, rfl⟩
  | cons key keys ih =>
    obtain ⟨hfits, hserved⟩ := h.pressKey key
    obtain ⟨hrun, hserved', hlast⟩ := ih hfits
    exact ⟨hrun, hserved.trans hserved', hlast⟩

/-- What the selected cell of a card shows of a value. -/
def Card.cut (card : Card) (v : BitVec 32) : BitVec 32 :=
  (v.setWidth (8 * card.buf.br.dwidth.toNat)).setWidth 32

end Shown

/-- **Writes are shown.** A value that is written appears in the selected cell of the display, as much of it as
the cell holds, and no other cell changes. Wherever the selection is moved then, and in whatever width, ditto
writes the same value to the register that is selected there; no write leaves the region. -/
theorem brwrite_shown {ttnrows : ℤ} {room : ℕ} {card : Card} (h : card.Fits ttnrows room) (v : BitVec 32)
    (keys : List BrowserKey) :
    ∃ written repeated, card.brwrite (some v) = some written ∧
      brsplashValues ttnrows written =
        (brsplashValues ttnrows card).set card.buf.br.sel.toNat (card.cut v) ∧
      (keys.foldl (fun card key => card.pressKey ttnrows key) written).brditto = some repeated ∧
      brsplashValues ttnrows repeated =
        (brsplashValues ttnrows (keys.foldl (fun card key => card.pressKey ttnrows key) written)).set
          (keys.foldl (fun card key => card.pressKey ttnrows key) written).buf.br.sel.toNat
          ((keys.foldl (fun card key => card.pressKey ttnrows key) written).cut v) ∧
      card.Served repeated := by
  obtain ⟨first, hfirst, hfits, hserved⟩ := h.brwrite1 v
  have hwritten : card.brwrite (some v) = some { first with lastwrite := v } := by
    rw [Card.brwrite, hfirst, Option.map_some]
  have hfits' : ({ first with lastwrite := v } : Card).Fits ttnrows room :=
    ⟨hfits.inside, hfits.screen, hfits.large, hfits.offsets, hfits.names⟩
  obtain ⟨hmoved, hservedMoved, hlast⟩ := hfits'.pressKeys keys
  obtain ⟨repeated, hrepeated, -, hservedRepeated⟩ := hmoved.brwrite1 v
  have hshown := h.brwrite1_shown hfirst
  refine ⟨_, repeated, hwritten, hshown, ?_, hmoved.brwrite1_shown hrepeated, ?_⟩
  · rw [Card.brditto, hlast]
    exact hrepeated
  · have hstored : card.Served { first with lastwrite := v } :=
      ⟨⟨hserved.region, hserved.crateid⟩, hserved.behind⟩
    exact (hstored.trans hservedMoved).trans hservedRepeated

/-- A new browser of a small region, without an RNM file. -/
def smallCard : Card :=
  .ofRegion 24 ⟨0, 0, 0, 0, 0, 0, smallRegion, none⟩ smallRegion none (-1) fun _ => 0

/-- The card of a small region fits a terminal of 24 rows. -/
theorem smallCard_fits : smallCard.Fits 24 512 := by
  have hscreen : FillsScreen 24 smallRegion := ⟨by decide, by decide, by decide, by decide⟩
  have hroom : 512 ≤ smallRegion.len.toNat := by decide
  apply Card.ofRegion_fits _ hscreen hroom (by decide) _
  intro rnm hnone
  cases hnone

/-- A long value is written, and written again to the next register in the other width. -/
theorem brwrite_shown_smallCard :
    ∃ written repeated, smallCard.brwrite (some 0x12345678) = some written ∧
      brsplashValues 24 written =
        (brsplashValues 24 smallCard).set smallCard.buf.br.sel.toNat (smallCard.cut 0x12345678) ∧
      ([BrowserKey.brright, .brchmod].foldl (fun card key => card.pressKey 24 key) written).brditto =
        some repeated ∧
      brsplashValues 24 repeated =
        (brsplashValues 24 ([BrowserKey.brright, .brchmod].foldl (fun card key => card.pressKey 24 key)
          written)).set
          ([BrowserKey.brright, .brchmod].foldl (fun card key => card.pressKey 24 key)
            written).buf.br.sel.toNat
          (([BrowserKey.brright, .brchmod].foldl (fun card key => card.pressKey 24 key)
            written).cut 0x12345678) ∧
      smallCard.Served repeated :=
  brwrite_shown smallCard_fits 0x12345678 [.brright, .brchmod]

end V120.Tui
