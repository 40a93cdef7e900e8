import V120.Tui.Browser

/-!
# Moving in a browser

Whatever keys are pressed, the page stays in the region and the selected register on the page. Every key
leaves the first register of the page at the start of a row, and the selected one at most a row off the
page, and from there `brcheckpos` restores the rest. The width of the data enters only through the number
of columns: in rows everything is the same for both widths.
-/

namespace V120.Tui

open V120.Common V120.Vme

/-- A region that can be browsed: the terminal has room for a row, and the region is made of rows, fills the
screen and is not too long for an `int`. -/
structure FillsScreen (ttnrows : ℤ) (region : VmeRegion) : Prop where
  rows : 1 ≤ btnrows ttnrows - rowTag
  multiple : 16 ∣ region.len.toNat
  short : region.len.toNat < 2 ^ 31
  screen : 16 * (btnrows ttnrows - rowTag) ≤ region.len.toNat

/-- The page is in the region, at the start of a row, and the selected register is on it. -/
structure Placed (ttnrows : ℤ) (br : Browser) : Prop where
  columns : br.ncols * br.dwidth = 16
  aligned : br.ncols ∣ br.offs
  offs_nonneg : 0 ≤ br.offs
  offs_le : br.offs ≤ broffmax ttnrows br
  sel_nonneg : 0 ≤ br.sel
  sel_lt : br.sel < brarraylen ttnrows br

/-- The two widths of the data, with their columns. -/
def Browser.Wide (br : Browser) : Prop := br.dwidth = 2 ∧ br.ncols = 8 ∨ br.dwidth = 4 ∧ br.ncols = 4

/-- An `int` that is not negative, as a `size_t`. -/
theorem toNat_ofInt_size {i : ℤ} (hnonneg : 0 ≤ i) (hshort : i < 2 ^ 31) :
    (BitVec.ofInt 64 i).toNat = i.toNat := by
  rw [BitVec.toNat_ofInt]
  omega

/-- A difference of `size_t`s that is not negative, as an `int`. -/
theorem toInt_size_sub {len : BitVec 64} {dwidth count : ℤ} (hshort : len.toNat < 2 ^ 31)
    (hdwidth : 0 < dwidth)
    (hwidth : dwidth < 2 ^ 31) (hcount : 0 ≤ count) (hle : count ≤ len.toNat / dwidth) :
    ((len / BitVec.ofInt 64 dwidth - BitVec.ofInt 64 count).setWidth 32).toInt =
      len.toNat / dwidth - count := by
  obtain ⟨width, rfl⟩ := Int.eq_ofNat_of_zero_le (Int.le_of_lt hdwidth)
  obtain ⟨count, rfl⟩ := Int.eq_ofNat_of_zero_le hcount
  have hquotient : len.toNat / width ≤ len.toNat := Nat.div_le_self _ _
  rw [← Int.natCast_ediv] at hle ⊢
  have hregisters : (len / BitVec.ofInt 64 (width : ℤ)).toNat = len.toNat / width := by
    rw [BitVec.toNat_udiv, toNat_ofInt_size (Int.natCast_nonneg _) hwidth, Int.toNat_natCast]
  have hcells : (BitVec.ofInt 64 (count : ℤ)).toNat = count := by
    rw [toNat_ofInt_size (Int.natCast_nonneg _) (by omega), Int.toNat_natCast]
  have hdiff : (len / BitVec.ofInt 64 (width : ℤ) - BitVec.ofInt 64 (count : ℤ)).toNat =
      len.toNat / width - count := by
    rw [BitVec.toNat_sub_of_le, hregisters, hcells]
    rw [BitVec.le_def, hregisters, hcells]
    omega
  have hint : ((len / BitVec.ofInt 64 (width : ℤ) - BitVec.ofInt 64 (count : ℤ)).setWidth 32).toNat =
      len.toNat / width - count := by
    rw [BitVec.toNat_setWidth, hdiff]
    omega
  rw [BitVec.toInt_eq_toNat_of_lt (by omega), hint]
  omega

variable {ttnrows : ℤ} {region : VmeRegion} {br : Browser}

/-- A row is 16 octets. -/
theorem Browser.Wide.columns (h : br.Wide) : br.ncols * br.dwidth = 16 ∧ 0 < br.ncols ∧ 0 < br.dwidth := by
  rcases h with ⟨hdwidth, hncols⟩ | ⟨hdwidth, hncols⟩ <;> rw [hdwidth, hncols] <;> decide

/-- The highest first register is that of the last page, in rows. -/
theorem broffmax_eq (hfits : FillsScreen ttnrows br.region) (hwide : br.Wide) :
    broffmax ttnrows br = (br.region.len.toNat / 16 - (btnrows ttnrows - rowTag)) * br.ncols := by
  obtain ⟨hrows, ⟨count, hcount⟩, hshort, hscreen⟩ := hfits
  unfold broffmax brarraylen
  generalize btnrows ttnrows - rowTag = rows at hrows hscreen ⊢
  rcases hwide with ⟨hdwidth, hncols⟩ | ⟨hdwidth, hncols⟩ <;>
    rw [hdwidth, hncols, toInt_size_sub hshort] <;> omega

/-- The region ends where the last page does. -/
theorem len_eq (hfits : FillsScreen ttnrows br.region) (hwide : br.Wide) :
    (br.region.len.toNat : ℤ) = (broffmax ttnrows br + brarraylen ttnrows br) * br.dwidth := by
  obtain ⟨count, hcount⟩ := hfits.multiple
  rw [broffmax_eq hfits hwide, brarraylen]
  generalize btnrows ttnrows - rowTag = rows
  rcases hwide with ⟨hdwidth, hncols⟩ | ⟨hdwidth, hncols⟩ <;> rw [hdwidth, hncols] <;> omega

/-- A page has a row. -/
theorem ncols_le_brarraylen (hfits : FillsScreen ttnrows br.region) (hwide : br.Wide) :
    br.ncols ≤ brarraylen ttnrows br :=
  le_mul_of_one_le_left (Int.le_of_lt hwide.columns.2.1) hfits.rows

/-- The last page begins at a row of the region. -/
theorem broffmax_row (hfits : FillsScreen ttnrows br.region) (hwide : br.Wide) :
    0 ≤ broffmax ttnrows br ∧ br.ncols ∣ broffmax ttnrows br := by
  have hscreen := hfits.screen
  obtain ⟨count, hcount⟩ := hfits.multiple
  rw [broffmax_eq hfits hwide]
  exact ⟨mul_nonneg (by omega) (Int.le_of_lt hwide.columns.2.1), Dvd.intro_left _ rfl⟩

/-- The invariant of a browser of a region. -/
structure Inside (ttnrows : ℤ) (region : VmeRegion) (br : Browser) : Prop where
  region : br.region = region
  wide : br.Wide
  placed : Placed ttnrows br

/-- The start of the region. -/
theorem brstartpos_placed (hfits : FillsScreen ttnrows br.region) (hwide : br.Wide) :
    Placed ttnrows (brstartpos br) where
  columns := hwide.columns.1
  aligned := dvd_zero _
  offs_nonneg := Int.le_refl 0
  offs_le := (broffmax_row hfits hwide).1
  sel_nonneg := Int.le_refl 0
  sel_lt := Int.lt_of_lt_of_le hwide.columns.2.1 (ncols_le_brarraylen hfits hwide)

/-- The end of the region. -/
theorem brendpos_placed (hfits : FillsScreen ttnrows br.region) (hwide : br.Wide) :
    Placed ttnrows (brendpos ttnrows br) where
  columns := hwide.columns.1
  aligned := (broffmax_row hfits hwide).2
  offs_nonneg := (broffmax_row hfits hwide).1
  offs_le := Int.le_refl _
  sel_nonneg := by
    have hpage := ncols_le_brarraylen hfits hwide
    have hrow := hwide.columns.2.1
    change 0 ≤ brarraylen ttnrows br - 1
    omega
  sel_lt := Int.sub_one_lt_of_le (Int.le_refl _)

/-- What `brcheckpos` makes of a selected register that is a row off the page at most: it scrolls by a row, or
leaves the page where it is. -/
theorem brcheckpos_scrolled (br : Browser) (hfits : FillsScreen ttnrows br.region) (hwide : br.Wide)
    (haligned : br.ncols ∣ br.offs) (hlow : -br.ncols ≤ br.sel)
    (hhigh : br.sel < brarraylen ttnrows br + br.ncols) :
    ∃ sel offs, br.ncols ∣ offs ∧ 0 ≤ sel ∧ sel < brarraylen ttnrows br ∧
      (br.sel < 0 ∧ sel = br.sel + br.ncols ∧ offs = br.offs - br.ncols ∨
        brarraylen ttnrows br ≤ br.sel ∧ sel = br.sel - br.ncols ∧ offs = br.offs + br.ncols ∨
        0 ≤ br.sel ∧ br.sel < brarraylen ttnrows br ∧ sel = br.sel ∧ offs = br.offs) ∧
      brcheckpos ttnrows br =
        if offs < 0 then brstartpos br else if offs > broffmax ttnrows br then brendpos ttnrows br
        else { br with offs := offs, sel := sel } := by
  have hpage := ncols_le_brarraylen hfits hwide
  unfold brcheckpos
  by_cases hbefore : br.sel < 0
  · rw [if_pos hbefore]
    exact ⟨_, _, dvd_sub haligned (dvd_refl _), by omega, by omega, Or.inl ⟨hbefore, rfl, rfl⟩, rfl⟩
  · rw [if_neg hbefore]
    by_cases hbehind : br.sel ≥ brarraylen ttnrows br
    · rw [if_pos hbehind]
      exact ⟨_, _, dvd_add haligned (dvd_refl _), by omega, by omega,
        Or.inr (Or.inl ⟨hbehind, rfl, rfl⟩), rfl⟩
    · rw [if_neg hbehind]
      exact ⟨_, _, haligned, by omega, by omega, Or.inr (Or.inr ⟨by omega, by omega, rfl, rfl⟩), rfl⟩

/-- `brcheckpos` brings the position back to where it may be. -/
theorem brcheckpos_inside (hfits : FillsScreen ttnrows region) (hregion : br.region = region)
    (hwide : br.Wide) (haligned : br.ncols ∣ br.offs) (hlow : -br.ncols ≤ br.sel)
    (hhigh : br.sel < brarraylen ttnrows br + br.ncols) :
    Inside ttnrows region (brcheckpos ttnrows br) := by
  subst hregion
  obtain ⟨sel, offs, hrow, hnonneg, hless, -, hmoved⟩ :=
    brcheckpos_scrolled br hfits hwide haligned hlow hhigh
  rw [hmoved]
  split_ifs with hstart hend
  · exact ⟨rfl, hwide, brstartpos_placed hfits hwide⟩
  · exact ⟨rfl, hwide, brendpos_placed hfits hwide⟩
  · exact ⟨rfl, hwide, hwide.columns.1, hrow, Int.not_lt.mp hstart, Int.not_lt.mp hend, hnonneg, hless⟩

/-- The selected register moves by a row at most. -/
theorem select_inside (hfits : FillsScreen ttnrows region) (h : Inside ttnrows region br) {sel : ℤ}
    (hlow : br.sel - br.ncols ≤ sel) (hhigh : sel ≤ br.sel + br.ncols) :
    Inside ttnrows region (brcheckpos ttnrows { br with sel := sel }) := by
  have hnonneg := h.placed.sel_nonneg
  have hless := h.placed.sel_lt
  refine brcheckpos_inside hfits h.region h.wide h.placed.aligned ?_ ?_
  · change -br.ncols ≤ sel
    omega
  · change sel < brarraylen ttnrows br + br.ncols
    omega

/-- The page moves by rows. -/
theorem page_inside (hfits : FillsScreen ttnrows region) (h : Inside ttnrows region br) {offs : ℤ}
    (haligned : br.ncols ∣ offs) : Inside ttnrows region (brcheckpos ttnrows { br with offs := offs }) := by
  have hnonneg := h.placed.sel_nonneg
  have hless := h.placed.sel_lt
  have hcolumns := h.wide.columns.2.1
  refine brcheckpos_inside hfits h.region h.wide haligned ?_ ?_
  · change -br.ncols ≤ br.sel
    omega
  · change br.sel < brarraylen ttnrows br + br.ncols
    omega

/-- The width of the data is changed at the start of a row, with the selected register on the page. -/
theorem brchmod_inside (hfits : FillsScreen ttnrows region) (hregion : br.region = region) {ncols : ℤ}
    (hncols : ncols = if br.dwidth = 2 then 8 else 4) (haligned : ncols ∣ br.offs) (hoffs : 0 ≤ br.offs)
    (hsel : 0 ≤ br.sel) (hless : br.sel < (btnrows ttnrows - rowTag) * ncols) :
    Inside ttnrows region (brchmod ttnrows br) := by
  unfold brchmod
  by_cases hdwidth : br.dwidth = 2
  · rw [if_pos hdwidth] at hncols ⊢
    subst hncols
    obtain ⟨row, hrow⟩ := haligned
    refine brcheckpos_inside hfits hregion (Or.inr ⟨rfl, rfl⟩) ?_ ?_ ?_
    · change (4 : ℤ) ∣ br.offs.tdiv 2
      rw [Int.tdiv_eq_ediv_of_nonneg hoffs, hrow]
      exact ⟨row, by omega⟩
    · change -4 ≤ br.sel.tdiv 2
      rw [Int.tdiv_eq_ediv_of_nonneg hsel]
      omega
    · change br.sel.tdiv 2 < (btnrows ttnrows - rowTag) * 4 + 4
      rw [Int.tdiv_eq_ediv_of_nonneg hsel]
      omega
  · rw [if_neg hdwidth] at hncols ⊢
    subst hncols
    obtain ⟨row, hrow⟩ := haligned
    refine brcheckpos_inside hfits hregion (Or.inl ⟨rfl, rfl⟩) ?_ ?_ ?_
    · change (8 : ℤ) ∣ br.offs * 2
      exact ⟨row, by omega⟩
    · change -8 ≤ br.sel * 2
      omega
    · change br.sel * 2 < (btnrows ttnrows - rowTag) * 8 + 8
      omega

/-- Every key keeps the invariant. -/
theorem pressKey_inside (hfits : FillsScreen ttnrows region) (h : Inside ttnrows region br)
    (key : BrowserKey) :
    Inside ttnrows region (pressKey ttnrows br key) := by
  have hcolumns := h.wide.columns.2.1
  have hpage : br.ncols ∣ brarraylen ttnrows br := Dvd.intro_left _ rfl
  have hfits' : FillsScreen ttnrows br.region := h.region.symm ▸ hfits
  cases key with
  | brleft => exact select_inside hfits h (by omega) (by omega)
  | brright => exact select_inside hfits h (by omega) (by omega)
  | brup => exact select_inside hfits h (Int.le_refl _) (by omega)
  | brdn => exact select_inside hfits h (by omega) (Int.le_refl _)
  | brpgup => exact page_inside hfits h (dvd_sub h.placed.aligned hpage)
  | brpgdn => exact page_inside hfits h (dvd_add h.placed.aligned hpage)
  | brend => exact ⟨h.region, h.wide, brendpos_placed hfits' h.wide⟩
  | brhome => exact ⟨h.region, h.wide, brstartpos_placed hfits' h.wide⟩
  | brchmod =>
    have hncols : br.ncols = if br.dwidth = 2 then 8 else 4 := by
      rcases h.wide with ⟨hdwidth, hncols⟩ | ⟨hdwidth, hncols⟩ <;> rw [hdwidth, hncols] <;> decide
    exact brchmod_inside hfits h.region hncols h.placed.aligned h.placed.offs_nonneg h.placed.sel_nonneg
      h.placed.sel_lt

/-- A new browser satisfies the invariant, whatever width its RNM file has. -/
theorem browsernew_inside (hfits : FillsScreen ttnrows region) (uninitialised : Browser)
    (metadata : Option RnmT) :
    Inside ttnrows region (browsernew ttnrows uninitialised region metadata) := by
  have hrows := hfits.rows
  refine pressKey_inside hfits
    (brchmod_inside hfits rfl rfl (dvd_zero _) (Int.le_refl 0) (Int.le_refl 0) ?_) .brchmod
  change 0 < (btnrows ttnrows - rowTag) * (if _ = (2 : ℤ) then 8 else 4)
  split_ifs <;> omega

/-- Every run of keys keeps the invariant. -/
theorem pressKeys_inside (hfits : FillsScreen ttnrows region) (keys : List BrowserKey)
    (h : Inside ttnrows region br) : Inside ttnrows region (keys.foldl (pressKey ttnrows) br) := by
  induction keys generalizing br with
  | nil => exact h
  | cons key keys ih => exact ih (pressKey_inside hfits h key)

/-- A register of so many octets lies in a region. -/
def RegisterInside (region : VmeRegion) (size input : ℤ) : Prop :=
  0 ≤ input ∧ input + size ≤ region.len.toNat

/-- A register of a page in the region lies in the region. -/
theorem Inside.register (hfits : FillsScreen ttnrows region) (h : Inside ttnrows region br) {drawno : ℤ}
    (hnonneg : 0 ≤ drawno) (hless : drawno < brarraylen ttnrows br) :
    RegisterInside region br.dwidth ((br.offs + drawno) * br.dwidth) := by
  obtain ⟨-, -, hdwidth⟩ := h.wide.columns
  have hlen := len_eq (h.region.symm ▸ hfits) h.wide
  have hoffs := h.placed.offs_nonneg
  have hmax := h.placed.offs_le
  constructor
  · exact mul_nonneg (by omega) (Int.le_of_lt hdwidth)
  · calc (br.offs + drawno) * br.dwidth + br.dwidth = (br.offs + drawno + 1) * br.dwidth := by ring
      _ ≤ (broffmax ttnrows br + brarraylen ttnrows br) * br.dwidth :=
        mul_le_mul_of_nonneg_right (by omega) (Int.le_of_lt hdwidth)
      _ = region.len.toNat := h.region ▸ hlen.symm

/-- The registers of a row, one behind the other. -/
theorem mem_splashRow {dwidth : ℤ} {ncols : ℕ} {start input : ℤ}
    (h : input ∈ splashRow dwidth ncols start) :
    ∃ column : ℕ, column < ncols ∧ input = start + column * dwidth := by
  induction ncols generalizing start with
  | zero => exact absurd h List.not_mem_nil
  | succ ncols ih =>
    rcases List.mem_cons.mp h with rfl | h
    · exact ⟨0, Nat.succ_pos _, by simp⟩
    · obtain ⟨column, hless, rfl⟩ := ih h
      refine ⟨column + 1, Nat.succ_lt_succ hless, ?_⟩
      push_cast
      ring

/-- The registers of the rows, one behind the other. -/
theorem mem_splashRows {dwidth : ℤ} {ncols nrows : ℕ} {start input : ℤ}
    (h : input ∈ splashRows dwidth ncols nrows start) :
    ∃ drawno : ℕ, drawno < nrows * ncols ∧ input = start + drawno * dwidth := by
  induction nrows generalizing start with
  | zero => exact absurd h List.not_mem_nil
  | succ nrows ih =>
    rcases List.mem_append.mp h with h | h
    · obtain ⟨column, hless, rfl⟩ := mem_splashRow h
      exact ⟨column, Nat.lt_of_lt_of_le hless (Nat.le_mul_of_pos_left _ (Nat.succ_pos _)), rfl⟩
    · obtain ⟨drawno, hless, rfl⟩ := ih h
      refine ⟨ncols + drawno, ?_, ?_⟩
      · rw [Nat.succ_mul]
        omega
      · push_cast
        ring

/-- The registers drawn lie in the region. -/
theorem Inside.drawn (hfits : FillsScreen ttnrows region) (h : Inside ttnrows region br) {input : ℤ}
    (hinput : input ∈ brsplashCells ttnrows br) : RegisterInside region br.dwidth input := by
  obtain ⟨drawno, hless, rfl⟩ := mem_splashRows hinput
  have hrows := hfits.rows
  have hncols := h.wide.columns.2.1
  rw [← Int.add_mul]
  refine h.register hfits (Int.natCast_nonneg _) ?_
  have hcast := Int.ofNat_lt.mpr hless
  rw [Nat.cast_mul, Int.toNat_of_nonneg (by omega), Int.toNat_of_nonneg (Int.le_of_lt hncols)] at hcast
  exact hcast

/-- The selected register lies in the region. -/
theorem Inside.selected (hfits : FillsScreen ttnrows region) (h : Inside ttnrows region br) :
    RegisterInside region br.dwidth (brwriteOffs br) := by
  have hwidth : (if br.dwidth = 2 then 2 else 4) = br.dwidth := by
    rcases h.wide with ⟨hdwidth, -⟩ | ⟨hdwidth, -⟩ <;> rw [hdwidth] <;> decide
  rw [brwriteOffs, hwidth, Int.add_comm]
  exact h.register hfits h.placed.sel_nonneg h.placed.sel_lt

/-- The number of the selected register. -/
def Browser.position (br : Browser) : ℤ := br.offs + br.sel

/-- The number of registers. -/
def Browser.registers (br : Browser) : ℤ := br.region.len.toNat / br.dwidth

/-- There are as many registers as up to the end of the last page. -/
theorem registers_eq (hfits : FillsScreen ttnrows br.region) (hwide : br.Wide) :
    br.registers = broffmax ttnrows br + brarraylen ttnrows br := by
  rw [Browser.registers, len_eq hfits hwide]
  exact Int.mul_ediv_cancel _ (Int.ne_of_gt hwide.columns.2.2)

/-- Two rows that are less than a row apart are the same. -/
theorem row_eq {ncols offs offs' : ℤ} (haligned : ncols ∣ offs) (haligned' : ncols ∣ offs')
    (hle : offs ≤ offs') (hless : offs' < offs + ncols) : offs' = offs := by
  have hzero := Int.eq_zero_of_dvd_of_nonneg_of_lt (by omega) (by omega) (dvd_sub haligned' haligned)
  omega

/-- Where `brcheckpos` leaves the position of a browser with another selected register. -/
theorem brcheckpos_position (hfits : FillsScreen ttnrows br.region) (hwide : br.Wide)
    (hplaced : Placed ttnrows br)
    {sel : ℤ} (hlow : -br.ncols ≤ sel) (hhigh : sel < brarraylen ttnrows br + br.ncols) :
    (brcheckpos ttnrows { br with sel := sel }).position =
      if sel < 0 ∧ br.offs = 0 then 0
      else if brarraylen ttnrows br ≤ sel ∧ br.offs = broffmax ttnrows br then br.registers - 1
      else br.offs + sel := by
  obtain ⟨hmaxNonneg, hmaxRow⟩ := broffmax_row hfits hwide
  have hncols := hwide.columns.2.1
  have hpage := ncols_le_brarraylen hfits hwide
  have hoffs := hplaced.offs_nonneg
  have hmax := hplaced.offs_le
  obtain ⟨moved, offs, -, -, -, hscrolled, hchecked⟩ :=
    brcheckpos_scrolled { br with sel := sel } hfits hwide hplaced.aligned hlow hhigh
  change sel < 0 ∧ moved = sel + br.ncols ∧ offs = br.offs - br.ncols ∨
    brarraylen ttnrows br ≤ sel ∧ moved = sel - br.ncols ∧ offs = br.offs + br.ncols ∨
    0 ≤ sel ∧ sel < brarraylen ttnrows br ∧ moved = sel ∧ offs = br.offs at hscrolled
  change brcheckpos ttnrows { br with sel := sel } = if offs < 0 then brstartpos { br with sel := sel }
    else if offs > broffmax ttnrows br then brendpos ttnrows { br with sel := sel }
    else { br with offs := offs, sel := moved } at hchecked
  rw [hchecked, registers_eq hfits hwide]
  rcases hscrolled with ⟨hbefore, rfl, rfl⟩ | ⟨hbehind, rfl, rfl⟩ | ⟨hon, hpage', rfl, rfl⟩
  · by_cases hfirst : br.offs = 0
    · rw [if_pos (show br.offs - br.ncols < 0 by omega), if_pos ⟨hbefore, hfirst⟩]
      rfl
    · have hrow : br.ncols ≤ br.offs := Int.le_of_dvd (by omega) hplaced.aligned
      rw [if_neg (by omega), if_neg (by omega), if_neg fun h => hfirst h.2, if_neg fun h => by omega]
      change br.offs - br.ncols + (sel + br.ncols) = br.offs + sel
      omega
  · have hnonneg : ¬ (sel < 0 ∧ br.offs = 0) := fun h => by omega
    rw [if_neg (show ¬ br.offs + br.ncols < 0 by omega), if_neg hnonneg]
    by_cases hlast : br.offs = broffmax ttnrows br
    · rw [if_pos (by omega), if_pos ⟨hbehind, hlast⟩]
      change broffmax ttnrows br + (brarraylen ttnrows br - 1) = _
      omega
    · have hrow : br.offs + br.ncols ≤ broffmax ttnrows br :=
        Int.not_lt.mp fun hless => hlast (row_eq hplaced.aligned hmaxRow hmax hless).symm
      rw [if_neg (by omega), if_neg fun h => hlast h.2]
      change br.offs + br.ncols + (sel - br.ncols) = br.offs + sel
      omega
  · rw [if_neg (by omega), if_neg (by omega), if_neg fun h => by omega, if_neg fun h => by omega]
    rfl

/-- To the left is the register before, unless there is none. -/
theorem position_brleft (hfits : FillsScreen ttnrows region) (h : Inside ttnrows region br) :
    (brleft ttnrows br).position = if br.position = 0 then 0 else br.position - 1 := by
  obtain ⟨rfl, hwide, hplaced⟩ := h
  have hncols := hwide.columns.2.1
  have hoffs := hplaced.offs_nonneg
  have hsel := hplaced.sel_nonneg
  have hless := hplaced.sel_lt
  rw [brleft, brcheckpos_position hfits hwide hplaced (by omega) (by omega), Browser.position]
  split_ifs <;> omega

/-- To the right is the register behind, unless there is none. -/
theorem position_brright (hfits : FillsScreen ttnrows region) (h : Inside ttnrows region br) :
    (brright ttnrows br).position =
      if br.position = br.registers - 1 then br.registers - 1 else br.position + 1 := by
  obtain ⟨rfl, hwide, hplaced⟩ := h
  have hregisters := registers_eq hfits hwide
  have hncols := hwide.columns.2.1
  have hmax := hplaced.offs_le
  have hsel := hplaced.sel_nonneg
  have hless := hplaced.sel_lt
  rw [brright, brcheckpos_position hfits hwide hplaced (by omega) (by omega), Browser.position]
  split_ifs <;> omega

/-- **The browser stays in its region.** For every region that fills the screen, every RNM file and every run
of keys from the start of the region on, a row has 16 octets, the page begins at a row of the region and not
behind the last page, the selected register is on the page, and it and all registers drawn lie in the region.
The keys to the left and to the right lead to the next register on their side, if there is one. -/
theorem browser_navigates (hfits : FillsScreen ttnrows region) (uninitialised : Browser)
    (metadata : Option RnmT) (keys : List BrowserKey) :
    let br := keys.foldl (pressKey ttnrows) (browsernew ttnrows uninitialised region metadata)
    Placed ttnrows br ∧ RegisterInside region br.dwidth (brwriteOffs br) ∧
      (∀ input ∈ brsplashCells ttnrows br, RegisterInside region br.dwidth input) ∧
      (brleft ttnrows br).position = (if br.position = 0 then 0 else br.position - 1) ∧
      (brright ttnrows br).position =
        if br.position = br.registers - 1 then br.registers - 1 else br.position + 1 := by
  intro br
  have hinside : Inside ttnrows region br :=
    pressKeys_inside hfits keys (browsernew_inside hfits uninitialised metadata)
  exact ⟨hinside.placed, hinside.selected hfits, fun input hinput => hinside.drawn hfits hinput,
    position_brleft hfits hinside, position_brright hfits hinside⟩

/-- A region of 512 octets. -/
def smallRegion : VmeRegion := ⟨0, 0, 0, 0, 0x200, 0⟩

/-- On a terminal of 24 rows it can be browsed, here from its end on with the wider registers. -/
theorem browser_navigates_small :
    let br := [.brchmod, .brend, .brup].foldl (pressKey 24)
      (browsernew 24 ⟨0, 0, 0, 0, 0, 0, smallRegion, none⟩ smallRegion none)
    Placed 24 br ∧ RegisterInside smallRegion br.dwidth (brwriteOffs br) ∧
      (∀ input ∈ brsplashCells 24 br, RegisterInside smallRegion br.dwidth input) ∧
      (brleft 24 br).position = (if br.position = 0 then 0 else br.position - 1) ∧
      (brright 24 br).position =
        if br.position = br.registers - 1 then br.registers - 1 else br.position + 1 :=
  browser_navigates ⟨by decide, by decide, by decide, by decide⟩ _ none [.brchmod, .brend, .brup]

end V120.Tui
