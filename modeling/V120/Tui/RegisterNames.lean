import V120.Tui.Navigation
import V120.Tui.RnmNames

/-!
# Registers by name

`brgotoname` and `brwrite2name` look a name up in the RNM file of the card and get the index of a register,
in units of the width that the file says. Both scale it with the width of the display, which the user may
change. The display finds the name of the selected register with the limits of the array without its last
record.

An `int` is an integer here as well, except for the products with the width, which wrap.
-/

namespace V120.Tui

open V120.Common V120.Vme

/-- An integer as an `int`. -/
def intOf (i : ℤ) : ℤ := (BitVec.ofInt 32 i).toInt

/-- The buffer of a browser: its RNM file, and its browser with the RNM file of the display. -/
structure BrowserBuffer where
  bRnms : Option RnmT
  br : Browser

/-- The buffer of `browsernew`. -/
def browserBuffer (ttnrows : ℤ) (uninitialised : Browser) (region : VmeRegion) (metadata : Option RnmT) :
    BrowserBuffer :=
  ⟨metadata, browsernew ttnrows uninitialised region metadata⟩

/-- The command `chmod`, so many times. -/
def BrowserBuffer.toggled (ttnrows : ℤ) (toggles : ℕ) (buf : BrowserBuffer) : BrowserBuffer :=
  { buf with br := (brchmod ttnrows)^[toggles] buf.br }

/-- The loop of `brjump`, for so many turns at most. -/
def brjumpLoop (ttnrows : ℤ) : ℕ → Browser → Browser
  | 0, br => br
  | turns + 1, br =>
    if br.offs > broffmax ttnrows br then
      brjumpLoop ttnrows turns { br with offs := br.offs - br.ncols, sel := br.sel + br.ncols }
    else br

/-- `brjump`. Each turn of the loop takes at least one from the distance. -/
def brjump (ttnrows : ℤ) (br : Browser) (v : ℤ) : Browser :=
  let v := v.tdiv br.dwidth
  let br := { br with offs := v / 16 * 16, sel := v % 16 }
  brjumpLoop ttnrows (br.offs - broffmax ttnrows br).toNat br

/-- `brgotoname` with the name that was entered, if one was; there is no answer when the search is not in
the table. -/
def brgotoname (ttnrows : ℤ) (buf : BrowserBuffer) (s : Option (List Octet)) : Option BrowserBuffer :=
  match buf.bRnms, s with
  | none, _ => some buf
  | some _, none => some buf
  | some rnms, some s =>
    (rnmsearch rnms s).map fun offs =>
      if offs < 0 then buf
      else { buf with br := brjump ttnrows buf.br (intOf (offs * buf.br.dwidth)) }

/-- `idxchk`. -/
def idxchk (br : Browser) (i : ℤ) : ℤ :=
  if br.dwshift = 0 then i
  else if br.dwshift > 0 then i / 2 ^ br.dwshift.toNat
  else i * 2 ^ (-br.dwshift).toNat

/-- The name that `brsplash` shows for the selected register. Its index is an `unsigned int`. -/
def brsplashName (br : Browser) : Option (List Octet) :=
  br.mdata.bind fun mdata =>
    let idx := (BitVec.ofInt 32 (idxchk br (br.sel + br.offs))).toNat
    if idx < (BitVec.ofInt 32 mdata.rLen).toNat then mdata.rMdata[idx]?.map VmeMetadata.name else none

/-- The memory from the base of a region on, after a store of so many octets of a value at an offset, in the
order of the host. -/
def writeReg (size : ℕ) (pregs : ℕ → Octet) (offs : ℕ) (v : BitVec 32) : ℕ → Octet := fun i =>
  if offs ≤ i ∧ i < offs + size then v.extractLsb' (8 * (i - offs)) 8 else pregs i

/-- `brwrite2name` with a name, or an offset, and a value. There is no answer without an RNM file, nor when
the search is not in the table. -/
def brwrite2name (buf : BrowserBuffer) (s : List Octet) (v : BitVec 32) (pregs : ℕ → Octet) :
    Option (ℕ → Octet) :=
  buf.bRnms.bind fun rnms =>
    let offs := if isdigit (firstChar s) then some (widthOf s)
      else (rnmsearch rnms s).map fun offs => intOf (offs * buf.br.dwidth)
    offs.map fun offs =>
      if offs < 0 then pregs
      else if rnms.rDwidth = 2 then writeReg 2 pregs (offs.toNat / 2 * 2) v
      else writeReg 4 pregs (offs.toNat / 4 * 4) v

/-- A structure that `rnmparse` has made of a file. -/
def ParsedRnm (rnm : RnmT) : Prop :=
  ∃ (σ : Type) (os : Os σ) (paths : Paths) (w : World σ) (filename : Option (List Octet)) (p : ℕ),
    (w.rnmparse os paths filename).1 = .parsed p ∧
      (w.rnmparse os paths filename).2.rnms.lookup p = some rnm

/-- What is known of a parsed file: the largest index is positive and an `int`, there is a record for each
index up to it, the width is one of the two, and the entries of the hash table are for records. -/
structure WholeRnm (rnm : RnmT) : Prop where
  pos : 0 < rnm.rLen
  bound : rnm.rLen < 2 ^ 31
  size : (rnm.rMdata.length : ℤ) = rnm.rLen + 1
  dwidth : rnm.rDwidth = 2 ∨ rnm.rDwidth = 4
  known : KnownNames rnm

section Parsing

variable {σ : Type} {os : Os σ} {rnm rnm' : RnmT} {sys sys' : System σ}

/-- A line that is accepted sets no other width. -/
theorem linedata_dwidth {tokens : List (List Octet)} (h : linedata os rnm tokens sys = .accepted rnm' sys')
    (hdwidth : rnm.rDwidth = 2 ∨ rnm.rDwidth = 4) : rnm'.rDwidth = 2 ∨ rnm'.rDwidth = 4 := by
  have hleft : (linedata os rnm tokens sys).Left rnm' sys' := h ▸ .accepted rnm' sys'
  rcases linedata_cases hleft with ⟨dwidth, endi, awidth, rfl, rfl, hset⟩ | ⟨toffs, rest, hregister⟩
  · rcases hset h with hsame | hlegal
    · exact hsame ▸ hdwidth
    · exact hlegal
  · obtain ⟨-, -, hsame⟩ := registerLine_effect (hregister ▸ hleft)
    exact hsame ▸ hdwidth

/-- What is known of the structure while the second pass fills it. -/
structure Filling (largest : ℤ) (rnm : RnmT) : Prop where
  size : rnm.rMdata.length = largest.toNat + 1
  rLen : rnm.rLen = largest
  dwidth : rnm.rDwidth = 2 ∨ rnm.rDwidth = 4
  known : KnownNames rnm

/-- A line that is accepted keeps the invariant. -/
theorem Filling.line {largest : ℤ} {tokens : List (List Octet)} (h : Filling largest rnm)
    (hline : linedata os rnm tokens sys = .accepted rnm' sys') : Filling largest rnm' := by
  have hleft : (linedata os rnm tokens sys).Left rnm' sys' := hline ▸ .accepted rnm' sys'
  obtain ⟨heffect, hrLen⟩ := linedata_effect hleft
  exact ⟨heffect.length_eq.trans h.size, hrLen.trans h.rLen, linedata_dwidth hline h.dwidth,
    h.known.effect heffect⟩

/-- All lines of a file that is accepted keep the invariant. -/
theorem Filling.lines {largest : ℤ} {lines : List (List Octet)} (h : Filling largest rnm)
    (hlines : filldataLoop os lines rnm sys = .accepted rnm' sys') : Filling largest rnm' := by
  induction lines generalizing rnm sys with
  | nil =>
    cases hlines
    exact h
  | cons line lines ih =>
    rw [filldataLoop] at hlines
    cases hresult : linedata os rnm (lineTokens line) sys with
    | accepted rnm₁ sys₁ =>
      rw [hresult] at hlines
      exact ih (h.line hresult) hlines
    | refused rnm₁ sys₁ =>
      rw [hresult] at hlines
      cases hlines
    | strayRecord toffs =>
      rw [hresult] at hlines
      cases hlines
    | strayBucket =>
      rw [hresult] at hlines
      cases hlines

/-- The largest index is an `int` and not negative. -/
theorem maxoffs_range (content : List Octet) : 0 ≤ maxoffs content ∧ maxoffs content < 2 ^ 31 := by
  constructor
  · apply (le_maxoffs_iff content 0).mpr
    exact Or.inl (Int.le_refl 0)
  · rcases (le_maxoffs_iff content (maxoffs content)).mp (Int.le_refl _) with
      hzero | ⟨line, -, other, hother, hle⟩
    · omega
    · rw [firstPassIndex] at hother
      split at hother
      case isTrue hdigit =>
        obtain rfl := Option.some.inj hother
        exact Int.lt_of_le_of_lt hle (BitVec.toInt_lt)
      case isFalse hdigit => cases hother

/-- What `rnmparse` has before the second pass: it parsed nothing yet, and the new structure is for a
largest index that is not zero. -/
def World.Stage.NotParsed : World.Stage σ → Prop
  | .done result _ => ∀ p, result ≠ .parsed p
  | .second _ fnm rdata _ rnm content _ =>
    maxoffs content ≠ 0 ∧ ∃ path, rnm = newRnm (maxoffs content) rdata path fnm

/-- `rnmparse` comes to the second pass with a new structure, or does not parse. -/
theorem World.notParsed_beforeFilldata (os : Os σ) (paths : Paths) (w : World σ)
    (filename : Option (List Octet)) :
    (w.beforeFilldata os paths filename).NotParsed := by
  have hexit {result : RnmResult} {w' : World σ} (h : ∀ p, result ≠ .parsed p) :
      (World.Stage.done result w').NotParsed := h
  cases filename with
  | none => exact hexit fun _ => RnmResult.noConfusion
  | some filename =>
    simp only [World.beforeFilldata]
    split
    · exact hexit fun _ => RnmResult.noConfusion
    · split
      · exact hexit fun _ => RnmResult.noConfusion
      · exact hexit fun _ => RnmResult.noConfusion
      · split
        · exact hexit fun _ => RnmResult.noConfusion
        · rw [World.firstPass]
          split_ifs with hoffs
          · exact hexit fun _ => RnmResult.noConfusion
          · split
            · exact hexit fun _ => RnmResult.noConfusion
            · split
              · exact hexit fun _ => RnmResult.noConfusion
              · exact ⟨hoffs, _, rfl⟩

/-- A file that `rnmparse` has parsed was filled by the second pass, for a largest index that is not
zero. -/
theorem ParsedRnm.exists_filled {rnm : RnmT} (h : ParsedRnm rnm) :
    ∃ content filled next, maxoffs content ≠ 0 ∧ Filling (maxoffs content) filled ∧
      rnm = { filled with rNext := next } := by
  obtain ⟨σ, os, paths, w, filename, p, hparsed, hlookup⟩ := h
  have hstage := w.notParsed_beforeFilldata os paths filename
  cases hbefore : w.beforeFilldata os paths filename with
  | done result w' =>
    rw [hbefore] at hstage
    simp only [World.rnmparse, hbefore] at hparsed
    exact absurd hparsed (hstage p)
  | second fp fnm rdata ret rnm₀ content w' =>
    rw [hbefore] at hstage
    obtain ⟨hoffs, path, rfl⟩ := hstage
    cases hfill : filldata os (newRnm (maxoffs content) rdata path fnm) content w'.sys with
    | accepted filled sys₁ =>
      rw [World.rnmparse_accepted hbefore hfill] at hparsed hlookup
      obtain rfl : ret = p := RnmResult.parsed.inj hparsed
      have hstart : Filling (maxoffs content) (newRnm (maxoffs content) rdata path fnm).withDefaults :=
        ⟨List.length_replicate, rfl, Or.inl rfl, knownNames_newRnm _ rdata path fnm⟩
      exact ⟨content, filled, w'.gRnms, hoffs, hstart.lines hfill,
        Option.some.inj (hlookup.symm.trans (Finmap.lookup_insert _))⟩
    | refused filled sys₁ =>
      obtain ⟨v, hfailed, -⟩ := World.exists_errFilldata ret rdata fp fnm filled sys₁ w'.rnms w'.gRnms
      rw [World.rnmparse_refused hbefore hfill, hfailed] at hparsed
      cases hparsed
    | strayRecord toffs =>
      rw [World.rnmparse_stray hbefore (Or.inl ⟨_, hfill⟩)] at hparsed
      cases hparsed
    | strayBucket =>
      rw [World.rnmparse_stray hbefore (Or.inr hfill)] at hparsed
      cases hparsed

/-- What the parser establishes. -/
theorem ParsedRnm.whole {rnm : RnmT} (h : ParsedRnm rnm) : WholeRnm rnm := by
  obtain ⟨content, filled, next, hoffs, hfilled, rfl⟩ := h.exists_filled
  obtain ⟨hlow, hhigh⟩ := maxoffs_range content
  have hsize := hfilled.size
  have hrLen := hfilled.rLen
  constructor
  · change 0 < filled.rLen
    omega
  · change filled.rLen < 2 ^ 31
    omega
  · change (filled.rMdata.length : ℤ) = filled.rLen + 1
    omega
  · exact hfilled.dwidth
  · exact hfilled.known

end Parsing

/-- The other width. -/
def otherWidth (dwidth : ℤ) : ℤ := if dwidth = 2 then 4 else 2

/-- The other width, so many times. -/
theorem otherWidth_iterate {dwidth : ℤ} (hdwidth : dwidth = 2 ∨ dwidth = 4) (toggles : ℕ) :
    otherWidth^[toggles] dwidth = if Even toggles then dwidth else otherWidth dwidth := by
  have htwice : otherWidth (otherWidth dwidth) = dwidth := by
    rcases hdwidth with rfl | rfl <;> rfl
  induction toggles with
  | zero => rw [if_pos Even.zero, Function.iterate_zero_apply]
  | succ toggles ih =>
    rw [Function.iterate_succ_apply', ih]
    by_cases heven : Even toggles
    · rw [if_pos heven, if_neg (Nat.not_even_iff_odd.mpr heven.add_one)]
    · rw [if_neg heven, if_pos (Nat.not_even_iff_odd.mp heven).add_one, htwice]

/-- The width is the same after an even number of toggles only. -/
theorem toggledWidth_eq_iff {dwidth : ℤ} (hdwidth : dwidth = 2 ∨ dwidth = 4) (toggles : ℕ) :
    (if Even toggles then dwidth else otherWidth dwidth) = dwidth ↔ Even toggles := by
  have hother : otherWidth dwidth ≠ dwidth := by
    rcases hdwidth with rfl | rfl <;> decide
  split_ifs with heven
  · exact iff_of_true rfl heven
  · exact iff_of_false hother heven

/-- A browser shows a region with an RNM file in some width. -/
structure Shows (region : VmeRegion) (rnm : RnmT) (width : ℤ) (br : Browser) : Prop where
  region : br.region = region
  mdata : br.mdata = some rnm
  dwidth : br.dwidth = width
  ncols : br.ncols = (16 : ℤ).tdiv width
  dwshift : br.dwshift = brdwshift width (some rnm)

section Display

variable {ttnrows : ℤ} {region : VmeRegion} {rnm : RnmT} {dwidth : ℤ} {br : Browser}

/-- A change of the position keeps what is shown. -/
theorem Shows.moved (h : Shows region rnm dwidth br) (sel offs : ℤ) :
    Shows region rnm dwidth { br with offs := offs, sel := sel } :=
  ⟨h.region, h.mdata, h.dwidth, h.ncols, h.dwshift⟩

/-- `brcheckpos` changes the position only. -/
theorem Shows.brcheckpos (h : Shows region rnm dwidth br) :
    Shows region rnm dwidth (brcheckpos ttnrows br) := by
  have hmoved : ∃ sel offs, Tui.brcheckpos ttnrows br = { br with offs := offs, sel := sel } := by
    unfold Tui.brcheckpos
    generalize (if br.sel < 0 then (br.sel + br.ncols, br.offs - br.ncols)
      else if br.sel ≥ brarraylen ttnrows br then (br.sel - br.ncols, br.offs + br.ncols)
      else (br.sel, br.offs)) = position
    dsimp only
    split_ifs <;> exact ⟨_, _, rfl⟩
  obtain ⟨sel, offs, hmoved⟩ := hmoved
  exact hmoved ▸ h.moved sel offs

/-- The width is toggled. -/
theorem shows_brchmod (br : Browser) (hregion : br.region = region) (hmdata : br.mdata = some rnm) :
    Shows region rnm (otherWidth br.dwidth) (brchmod ttnrows br) := by
  unfold brchmod otherWidth
  apply Shows.brcheckpos
  split_ifs with hdwidth
  · exact ⟨hregion, hmdata, rfl, rfl, hmdata ▸ rfl⟩
  · exact ⟨hregion, hmdata, rfl, rfl, hmdata ▸ rfl⟩

/-- A new browser shows the width of the file. -/
theorem shows_browsernew (hdwidth : rnm.rDwidth = 2 ∨ rnm.rDwidth = 4) (uninitialised : Browser) :
    Shows region rnm rnm.rDwidth (browsernew ttnrows uninitialised region (some rnm)) := by
  let first : Browser :=
    { uninitialised with
      sel := 0, offs := 0, region := region, mdata := some rnm, dwshift := 0, dwidth := rnm.rDwidth }
  have hfirst : Shows region rnm (otherWidth rnm.rDwidth) (brchmod ttnrows first) :=
    shows_brchmod first rfl rfl
  have hsecond : Shows region rnm _ (brchmod ttnrows (brchmod ttnrows first)) :=
    shows_brchmod _ hfirst.region hfirst.mdata
  have htwice : otherWidth (otherWidth rnm.rDwidth) = rnm.rDwidth := by
    rcases hdwidth with hdwidth | hdwidth <;> rw [hdwidth] <;> rfl
  rw [hfirst.dwidth, htwice] at hsecond
  exact hsecond

/-- The command `chmod`, so many times. -/
theorem Shows.toggled (h : Shows region rnm dwidth br) (toggles : ℕ) :
    Shows region rnm (otherWidth^[toggles] dwidth) ((brchmod ttnrows)^[toggles] br) := by
  induction toggles with
  | zero => exact h
  | succ toggles ih =>
    rw [Function.iterate_succ_apply', Function.iterate_succ_apply']
    exact ih.dwidth ▸ shows_brchmod _ ih.region ih.mdata

/-- The loop of `brjump` shifts the page against the selection. -/
theorem Shows.brjumpLoop (h : Shows region rnm dwidth br) (ttnrows : ℤ) (turns : ℕ) :
    Shows region rnm dwidth (brjumpLoop ttnrows turns br) ∧
      (brjumpLoop ttnrows turns br).sel + (brjumpLoop ttnrows turns br).offs = br.sel + br.offs := by
  induction turns generalizing br with
  | zero => exact ⟨h, rfl⟩
  | succ turns ih =>
    rw [Tui.brjumpLoop]
    split_ifs with hbehind
    · obtain ⟨hshows, hsum⟩ := ih (h.moved (br.sel + br.ncols) (br.offs - br.ncols))
      refine ⟨hshows, hsum.trans ?_⟩
      change br.sel + br.ncols + (br.offs - br.ncols) = br.sel + br.offs
      omega
    · exact ⟨h, rfl⟩

/-- The turns of the loop are enough: behind it the page is not behind the last one. -/
theorem brjumpLoop_offs_le (br : Browser) (hncols : 0 < br.ncols) {turns : ℕ}
    (hturns : br.offs - broffmax ttnrows br ≤ turns) :
    (brjumpLoop ttnrows turns br).offs ≤ broffmax ttnrows (brjumpLoop ttnrows turns br) := by
  induction turns generalizing br with
  | zero =>
    change br.offs ≤ broffmax ttnrows br
    omega
  | succ turns ih =>
    rw [brjumpLoop]
    split_ifs with hbehind
    · refine ih { br with offs := br.offs - br.ncols, sel := br.sel + br.ncols } hncols ?_
      change br.offs - br.ncols - broffmax ttnrows br ≤ turns
      push_cast at hturns
      omega
    · exact Int.not_lt.mp hbehind

/-- `brjump` selects the register of the display at an offset in octets. -/
theorem Shows.brjump (h : Shows region rnm dwidth br) (ttnrows v : ℤ) :
    Shows region rnm dwidth (brjump ttnrows br v) ∧
      (brjump ttnrows br v).sel + (brjump ttnrows br v).offs = v.tdiv dwidth := by
  obtain ⟨hshows, hsum⟩ := (h.moved (v.tdiv br.dwidth % 16) (v.tdiv br.dwidth / 16 * 16)).brjumpLoop
    ttnrows (_ - broffmax ttnrows _ : ℤ).toNat
  refine ⟨hshows, hsum.trans ?_⟩
  rw [h.dwidth]
  exact Int.emod_add_ediv_mul _ _

/-- The page is one of the region behind `brjump`, or begins before it. -/
theorem brjump_offs_le (hncols : 0 < br.ncols) (v : ℤ) :
    (brjump ttnrows br v).offs ≤ broffmax ttnrows (brjump ttnrows br v) := by
  have hloop {start : Browser} (hstart : 0 < start.ncols) :
      (brjumpLoop ttnrows (start.offs - broffmax ttnrows start).toNat start).offs ≤
        broffmax ttnrows (brjumpLoop ttnrows (start.offs - broffmax ttnrows start).toNat start) :=
    brjumpLoop_offs_le start hstart (Int.self_le_toNat _)
  unfold brjump
  exact hloop hncols

end Display

/-- A product with a width is a multiple of the width still, when it has wrapped. -/
theorem exists_intOf_mul {width : ℤ} (hwidth : width = 2 ∨ width = 4) (i : ℤ) :
    ∃ q k, intOf (i * width) = q * width ∧ q * width = i * width - k * 2 ^ 32 ∧
      -2 ^ 31 ≤ q * width ∧ q * width < 2 ^ 31 := by
  have hlow : -2 ^ 31 ≤ intOf (i * width) := BitVec.le_toInt _
  have hhigh : intOf (i * width) < 2 ^ 31 := BitVec.toInt_lt
  have hwrap : intOf (i * width) = i * width - 2 ^ 32 * (i * width).bdiv (2 ^ 32) := by
    rw [intOf, BitVec.toInt_ofInt, Int.bmod_eq_self_sub_mul_bdiv]
    rfl
  generalize (i * width).bdiv (2 ^ 32) = k at hwrap
  have hdvd : width ∣ intOf (i * width) := by
    rw [hwrap]
    apply dvd_sub (Int.dvd_mul_left _ _)
    apply Dvd.dvd.mul_right
    rcases hwidth with rfl | rfl <;> decide
  obtain ⟨q, hq⟩ := hdvd
  rw [Int.mul_comm width q] at hq
  rw [hq] at hlow hhigh hwrap
  refine ⟨q, k, hq, ?_, hlow, hhigh⟩
  omega

section Index

variable {ttnrows : ℤ} {region : VmeRegion} {rnm : RnmT} {width : ℤ} {br : Browser} {i : ℤ}

/-- A display has one of the two widths. -/
theorem WholeRnm.widths (h : WholeRnm rnm) (hwidth : width = rnm.rDwidth ∨ width = otherWidth rnm.rDwidth) :
    width = 2 ∨ width = 4 := by
  have hdwidth := h.dwidth
  rw [otherWidth] at hwidth
  split_ifs at hwidth <;> omega

/-- The index of the file for a register of the display. -/
theorem Shows.idxchk_eq (h : Shows region rnm width br) (x : ℤ) :
    idxchk br x = if width = rnm.rDwidth then x else if width < rnm.rDwidth then x / 2 else x * 2 := by
  rw [idxchk, h.dwshift, brdwshift]
  rcases Int.lt_trichotomy width rnm.rDwidth with hless | heq | hgreater
  · rw [if_neg (Int.not_lt.mpr (Int.le_of_lt hless)), if_pos hless, if_neg (Int.ne_of_lt hless),
      if_pos hless]
    rfl
  · rw [if_neg (Int.not_lt.mpr (Int.le_of_eq heq)), if_neg (Int.not_lt.mpr (Int.le_of_eq heq.symm)),
      if_pos heq]
    rfl
  · rw [if_pos hgreater, if_neg (Int.ne_of_gt hgreater), if_neg (Int.not_lt.mpr (Int.le_of_lt hgreater))]
    rfl

/-- The display computes the index again that was scaled with its own width, when this is the width of the
file, or the index is zero. -/
theorem Shows.idxchk_iff (h : Shows region rnm width br) (hrnm : WholeRnm rnm)
    (hwidth : width = rnm.rDwidth ∨ width = otherWidth rnm.rDwidth) (hpos : 0 ≤ i) (hbound : i < 2 ^ 31) :
    idxchk br ((intOf (i * width)).tdiv width) = i ↔
      (i = 0 ∨ width = rnm.rDwidth) ∧ i * rnm.rDwidth < 2 ^ 31 := by
  have hwidths := hrnm.widths hwidth
  obtain ⟨q, k, hscaled, hwrap, hlow, hhigh⟩ := exists_intOf_mul hwidths i
  have hq : (intOf (i * width)).tdiv width = q := by
    rw [hscaled]
    apply Int.mul_tdiv_cancel
    omega
  rw [hq, h.idxchk_eq]
  rcases hrnm.dwidth with hdwidth | hdwidth <;> rcases hwidths with rfl | rfl <;> rw [hdwidth] <;>
    split_ifs <;> omega

end Index

/-- The selected register lies in the region and has an index in the RNM file, and its name is shown. -/
structure Found (region : VmeRegion) (rnm : RnmT) (i : ℤ) (br : Browser) : Prop where
  inside : RegisterInside region br.dwidth ((br.sel + br.offs) * br.dwidth)
  index : idxchk br (br.sel + br.offs) = i
  shown : ∃ rdata, rnm.rMdata[i.toNat]? = some rdata ∧ brsplashName br = some rdata.name

section Goto

variable {ttnrows : ℤ} {region : VmeRegion} {rnm : RnmT} {width : ℤ} {br : Browser} {i : ℤ}

/-- The name that is shown is that of a record before the last one. -/
theorem Shows.brsplashName_eq (h : Shows region rnm width br) (hpos : 0 ≤ i) (hbound : i < 2 ^ 31)
    (hrLen : 0 ≤ rnm.rLen) (hshort : rnm.rLen < 2 ^ 31) (hindex : idxchk br (br.sel + br.offs) = i) :
    brsplashName br = if i < rnm.rLen then rnm.rMdata[i.toNat]?.map VmeMetadata.name else none := by
  have hunsigned {x : ℤ} (hx : 0 ≤ x) (hx' : x < 2 ^ 31) : (BitVec.ofInt 32 x).toNat = x.toNat := by
    rw [BitVec.toNat_ofInt]
    omega
  rw [brsplashName, h.mdata, Option.bind_some, hindex, hunsigned hpos hbound, hunsigned hrLen hshort]
  by_cases hless : i < rnm.rLen
  · rw [if_pos hless, if_pos (by omega)]
  · rw [if_neg hless, if_neg (by omega)]

/-- The index that the search answers is one of a record. -/
theorem WholeRnm.record (h : WholeRnm rnm) {name : List Octet} (hsearch : rnmsearch rnm name = some i)
    (hpos : 0 ≤ i) : ∃ rdata, rnm.rMdata[i.toNat]? = some rdata ∧ i ≤ rnm.rLen := by
  have hsize := h.size
  rcases rnmsearch_sound h.known hsearch with hminus | ⟨index, rdata, rfl, hrdata, -⟩
  · omega
  · have hindex : index < rnm.rMdata.length := (List.getElem?_eq_some_iff.mp hrdata).1
    exact ⟨rdata, hrdata, by omega⟩

/-- A register of the display is in the region when the region has room for the whole file and the register
is one of the file, or the first one. -/
theorem WholeRnm.inside (h : WholeRnm rnm) (hwidth : width = rnm.rDwidth ∨ width = otherWidth rnm.rDwidth)
    (hlarge : (rnm.rLen + 1) * rnm.rDwidth ≤ region.len.toNat) (hpos : 0 ≤ i) (hle : i ≤ rnm.rLen)
    (hsame : i = 0 ∨ width = rnm.rDwidth) : RegisterInside region width (i * width) := by
  have hrLen := h.pos
  have hwidths := h.widths hwidth
  rw [RegisterInside]
  rcases hsame with rfl | rfl
  · rcases h.dwidth with hdwidth | hdwidth <;> rw [hdwidth] at hlarge <;> omega
  · rcases h.dwidth with hdwidth | hdwidth <;> rw [hdwidth] at hlarge ⊢ <;> omega

/-- The display finds what `brgotoname` has selected when the widths agree, no product wraps and the record
is not the last one. -/
theorem Shows.found_iff (h : Shows region rnm width br) (hrnm : WholeRnm rnm)
    (hwidth : width = rnm.rDwidth ∨ width = otherWidth rnm.rDwidth)
    (hlarge : (rnm.rLen + 1) * rnm.rDwidth ≤ region.len.toNat) (hpos : 0 ≤ i) {rdata : VmeMetadata}
    (hrdata : rnm.rMdata[i.toNat]? = some rdata) (hle : i ≤ rnm.rLen)
    (hsum : br.sel + br.offs = (intOf (i * width)).tdiv width) :
    Found region rnm i br ↔
      i < rnm.rLen ∧ (i = 0 ∨ width = rnm.rDwidth) ∧ i * rnm.rDwidth < 2 ^ 31 := by
  have hrLen := hrnm.pos
  have hshort := hrnm.bound
  have hbound : i < 2 ^ 31 := Int.lt_of_le_of_lt hle hshort
  have hindex := h.idxchk_iff hrnm hwidth hpos hbound
  rw [← hsum] at hindex
  constructor
  · rintro ⟨-, hcomputed, other, hother, hname⟩
    refine ⟨?_, hindex.mp hcomputed⟩
    rw [h.brsplashName_eq hpos hbound (Int.le_of_lt hrLen) hshort hcomputed] at hname
    split_ifs at hname with hless
    exact hless
  · rintro ⟨hless, hwidths, hproduct⟩
    have hcomputed := hindex.mpr ⟨hwidths, hproduct⟩
    refine ⟨?_, hcomputed, rdata, hrdata, ?_⟩
    · have hselected : br.sel + br.offs = i := by
        rcases hwidths with rfl | rfl
        · rw [hsum, Int.zero_mul]
          exact Int.zero_tdiv _
        · rw [h.idxchk_eq, if_pos rfl] at hcomputed
          exact hcomputed
      rw [hselected, h.dwidth]
      exact hrnm.inside hwidth hlarge hpos hle hwidths
    · rw [h.brsplashName_eq hpos hbound (Int.le_of_lt hrLen) hshort hcomputed, if_pos hless, hrdata]
      rfl

/-- `brgotoname` with a name that is found jumps to its index, scaled with the width of the display. -/
theorem exists_brgotoname (ttnrows : ℤ) {buf : BrowserBuffer} (h : Shows region rnm width buf.br)
    (hrnms : buf.bRnms = some rnm) {name : List Octet} (hsearch : rnmsearch rnm name = some i)
    (hpos : 0 ≤ i) :
    ∃ br, brgotoname ttnrows buf (some name) = some { buf with br := br } ∧ Shows region rnm width br ∧
      br.sel + br.offs = (intOf (i * width)).tdiv width := by
  have hjump := h.brjump ttnrows (intOf (i * width))
  refine ⟨_, ?_, hjump⟩
  have hanswer : brgotoname ttnrows buf (some name) = (rnmsearch rnm name).map fun offs =>
      if offs < 0 then buf
      else { buf with br := brjump ttnrows buf.br (intOf (offs * buf.br.dwidth)) } := by
    cases buf
    cases hrnms
    rfl
  rw [hanswer, hsearch, Option.map_some, if_neg (Int.not_lt.mpr hpos), h.dwidth]

/-- The browser of a card shows the width of its file, or the other one after an odd number of toggles. -/
theorem WholeRnm.shows (h : WholeRnm rnm) (ttnrows : ℤ) (uninitialised : Browser) (region : VmeRegion)
    (toggles : ℕ) :
    Shows region rnm (if Even toggles then rnm.rDwidth else otherWidth rnm.rDwidth)
      ((browserBuffer ttnrows uninitialised region (some rnm)).toggled ttnrows toggles).br := by
  rw [← otherWidth_iterate h.dwidth]
  exact (shows_browsernew h.dwidth uninitialised).toggled toggles

end Goto

/-- **Going to a name is the inverse of showing it only without the display's own scale.** In a region with
room for all registers of an RNM file, and after any number of toggles, `brgotoname` selects the register of
a name and the display agrees if and only if the register is not the one with the largest index, the display
has the width of the file (or the index is 0), and the offset of the register is an `int`. -/
theorem brgotoname_found_iff {rnm : RnmT} (hrnm : ParsedRnm rnm) (ttnrows : ℤ) (uninitialised : Browser)
    {region : VmeRegion} (hlarge : (rnm.rLen + 1) * rnm.rDwidth ≤ region.len.toNat) (toggles : ℕ)
    {name : List Octet} {i : ℤ} (hsearch : rnmsearch rnm name = some i) (hpos : 0 ≤ i) :
    (∃ buf, brgotoname ttnrows
        ((browserBuffer ttnrows uninitialised region (some rnm)).toggled ttnrows toggles) (some name) =
          some buf ∧ Found region rnm i buf.br) ↔
      i < rnm.rLen ∧ (i = 0 ∨ Even toggles) ∧ i * rnm.rDwidth < 2 ^ 31 := by
  have hwhole := hrnm.whole
  obtain ⟨rdata, hrdata, hle⟩ := hwhole.record hsearch hpos
  have hshows := hwhole.shows ttnrows uninitialised region toggles
  obtain ⟨br, hgoto, hshows', hsum⟩ := exists_brgotoname ttnrows hshows rfl hsearch hpos
  have hfound := hshows'.found_iff hwhole (ite_eq_or_eq _ _ _) hlarge hpos hrdata hle hsum
  rw [toggledWidth_eq_iff hwhole.dwidth] at hfound
  rw [hgoto, ← hfound]
  simp only [Option.some.injEq, exists_eq_left']

/-- A file with the registers 1, of the name `A`, and 3, of the name `B`. -/
def twoRegisters : List Octet := [0x31, 0x3a, 0x41, 0x0a, 0x33, 0x3a, 0x42, 0x0a]

/-- The RNM structure that is made of the file with two registers. -/
theorem exists_parsed_twoRegisters :
    ∃ rnm, ParsedRnm rnm ∧ rnm.rLen = 3 ∧ rnm.rDwidth = 2 ∧ rnmsearch rnm [0x41] = some 1 ∧
      rnmsearch rnm [0x42] = some 3 := by
  have hparsed :
      (World.fresh.rnmparse (World.oneFile twoRegisters) ⟨[], []⟩ (some [0x2f])).1 = .parsed 2 := by decide
  let facts (rnm : RnmT) := (rnm.rLen, rnm.rDwidth, rnmsearch rnm [0x41], rnmsearch rnm [0x42])
  have hfacts :
      ((World.fresh.rnmparse (World.oneFile twoRegisters) ⟨[], []⟩ (some [0x2f])).2.rnms.lookup 2).map
        facts = some (3, 2, some 1, some 3) := by decide
  obtain ⟨rnm, hlookup, heq⟩ := Option.map_eq_some_iff.mp hfacts
  simp only [facts, Prod.mk.injEq] at heq
  exact ⟨rnm, ⟨Unit, _, _, _, _, 2, hparsed, hlookup⟩, heq⟩

/-- The first one is found, after two toggles as well. -/
theorem brgotoname_found_two : ∃ rnm, ParsedRnm rnm ∧ ∃ buf, brgotoname 24
    ((browserBuffer 24 ⟨0, 0, 0, 0, 0, 0, smallRegion, none⟩ smallRegion (some rnm)).toggled 24 2)
      (some [0x41]) = some buf ∧ Found smallRegion rnm 1 buf.br := by
  obtain ⟨rnm, hrnm, hrLen, hdwidth, hsearch, -⟩ := exists_parsed_twoRegisters
  have hlarge : (rnm.rLen + 1) * rnm.rDwidth ≤ smallRegion.len.toNat := by
    rw [hrLen, hdwidth]
    decide
  refine ⟨rnm, hrnm, (brgotoname_found_iff hrnm 24 _ hlarge 2 hsearch (by decide)).mpr ?_⟩
  rw [hrLen, hdwidth]
  exact ⟨by decide, Or.inr even_two, by decide⟩

/-- The display has no name for the last register of a file, though the search finds it. -/
theorem brgotoname_last : ¬∀ (rnm : RnmT) (ttnrows : ℤ) (uninitialised : Browser) (region : VmeRegion)
    (toggles : ℕ) (name : List Octet) (i : ℤ), ParsedRnm rnm → 4 ≤ btnrows ttnrows - rowTag →
      (rnm.rLen + 1) * rnm.rDwidth ≤ region.len.toNat → rnmsearch rnm name = some i → 0 ≤ i →
        ∃ buf, brgotoname ttnrows
          ((browserBuffer ttnrows uninitialised region (some rnm)).toggled ttnrows toggles) (some name) =
            some buf ∧ Found region rnm i buf.br := by
  intro h
  obtain ⟨rnm, hrnm, hrLen, hdwidth, -, hsearch⟩ := exists_parsed_twoRegisters
  have hlarge : (rnm.rLen + 1) * rnm.rDwidth ≤ smallRegion.len.toNat := by
    rw [hrLen, hdwidth]
    decide
  obtain ⟨buf, hgoto, hfound⟩ := h rnm 24 ⟨0, 0, 0, 0, 0, 0, smallRegion, none⟩ smallRegion 0 [0x42] 3 hrnm
    (by decide) hlarge hsearch (by decide)
  have hwhole := hrnm.whole
  obtain ⟨rdata, hrdata, hle⟩ := hwhole.record hsearch (by decide)
  obtain ⟨br, hbr, hshows, hsum⟩ := exists_brgotoname 24
    (hwhole.shows 24 ⟨0, 0, 0, 0, 0, 0, smallRegion, none⟩ smallRegion 0) rfl hsearch (by decide)
  obtain rfl := Option.some.inj (hbr.symm.trans hgoto)
  have hless := (hshows.found_iff hwhole (Or.inl rfl) hlarge (by decide) hrdata hle hsum).mp hfound
  rw [hrLen] at hless
  exact absurd hless.1 (by decide)

/-- A number of octets of a value are stored at an offset, and nothing else is changed. -/
structure StoresAt (size offs : ℕ) (v : BitVec 32) (before after : ℕ → Octet) : Prop where
  stored : ∀ k < size, after (offs + k) = v.extractLsb' (8 * k) 8
  kept : ∀ i, i < offs ∨ offs + size ≤ i → after i = before i

/-- This is what a store does, and nothing but the store does it. -/
theorem storesAt_iff {size offs : ℕ} {v : BitVec 32} {before after : ℕ → Octet} :
    StoresAt size offs v before after ↔ after = writeReg size before offs v := by
  constructor
  · rintro ⟨hstored, hkept⟩
    funext i
    rw [writeReg]
    by_cases hinside : offs ≤ i ∧ i < offs + size
    · obtain ⟨k, rfl⟩ := Nat.exists_eq_add_of_le hinside.1
      rw [if_pos hinside, Nat.add_sub_cancel_left, hstored k (by omega)]
    · rw [if_neg hinside]
      exact hkept i (by omega)
  · rintro rfl
    constructor
    · intro k hk
      rw [writeReg, if_pos (by omega), Nat.add_sub_cancel_left]
    · intro i houtside
      rw [writeReg, if_neg (by omega)]

/-- Two stores of a size are the same, for every memory and value, only at the same offset. -/
theorem offs_eq_of_storesAt {size offs offs' : ℕ} (hsize : 0 < size)
    (h : ∀ v pregs, StoresAt size offs v pregs (writeReg size pregs offs' v)) : offs' = offs := by
  -- A store of ones over zeros shows where it begins.
  have hones := storesAt_iff.mp (h (BitVec.allOnes 32) fun _ => 0)
  have hone : (BitVec.allOnes 32).extractLsb' 0 8 = (255 : Octet) := by decide
  have hstart {offs offs' : ℕ} (heq : writeReg size (fun _ => 0) offs' (BitVec.allOnes 32) =
      writeReg size (fun _ => 0) offs (BitVec.allOnes 32)) : offs ≤ offs' := by
    have hat := congrFun heq offs'
    by_contra hless
    rw [writeReg, writeReg, if_pos (by omega), if_neg (by omega), Nat.sub_self, Nat.mul_zero, hone] at hat
    exact absurd hat (by decide)
  exact Nat.le_antisymm (hstart hones.symm) (hstart hones)

section Write

variable {region : VmeRegion} {rnm : RnmT} {width i : ℤ}

/-- The offset at which `brwrite2name` stores for a name, before it is aligned: the name itself when it is a
number. -/
def namedOffs (name : List Octet) (i width : ℤ) : ℤ :=
  if isdigit (firstChar name) then widthOf name else intOf (i * width)

/-- What `brwrite2name` does with a name that is found. -/
theorem brwrite2name_eq (buf : BrowserBuffer) (h : Shows region rnm width buf.br)
    (hrnms : buf.bRnms = some rnm) (hwhole : WholeRnm rnm) {name : List Octet}
    (hsearch : rnmsearch rnm name = some i) (v : BitVec 32) (pregs : ℕ → Octet) :
    brwrite2name buf name v pregs =
      some (if namedOffs name i width < 0 then pregs
        else writeReg rnm.rDwidth.toNat pregs
          ((namedOffs name i width).toNat / rnm.rDwidth.toNat * rnm.rDwidth.toNat) v) := by
  have hoffs : (if isdigit (firstChar name) then some (widthOf name)
      else (rnmsearch rnm name).map fun offs => intOf (offs * buf.br.dwidth)) =
        some (namedOffs name i width) := by
    rw [hsearch, Option.map_some, h.dwidth, namedOffs]
    split_ifs <;> rfl
  simp only [brwrite2name, hrnms, Option.bind_some, hoffs, Option.map_some]
  rcases hwhole.dwidth with hdwidth | hdwidth <;> rw [hdwidth] <;> rfl

/-- What `brwrite2name` does with an offset is a store at a register exactly when the offset is in it. -/
theorem storesAt_register_iff (hwhole : WholeRnm rnm) (hpos : 0 ≤ i) (offs : ℤ) :
    (∀ v pregs, StoresAt rnm.rDwidth.toNat (i * rnm.rDwidth).toNat v pregs
      (if offs < 0 then pregs
        else writeReg rnm.rDwidth.toNat pregs (offs.toNat / rnm.rDwidth.toNat * rnm.rDwidth.toNat) v)) ↔
      0 ≤ offs ∧ offs / rnm.rDwidth = i := by
  have hsize : 0 < rnm.rDwidth.toNat := by
    rcases hwhole.dwidth with hdwidth | hdwidth <;> rw [hdwidth] <;> decide
  have haligned (hoffs : 0 ≤ offs) :
      offs.toNat / rnm.rDwidth.toNat * rnm.rDwidth.toNat = (i * rnm.rDwidth).toNat ↔
        offs / rnm.rDwidth = i := by
    rcases hwhole.dwidth with hdwidth | hdwidth
    · rw [hdwidth]
      change offs.toNat / 2 * 2 = (i * 2).toNat ↔ offs / 2 = i
      omega
    · rw [hdwidth]
      change offs.toNat / 4 * 4 = (i * 4).toNat ↔ offs / 4 = i
      omega
  constructor
  · intro h
    by_cases hnegative : offs < 0
    · simp only [if_pos hnegative] at h
      -- A memory is not changed by a store of what it holds only.
      have hzero := (h (BitVec.allOnes 32) fun _ => 0).stored 0 hsize
      exact absurd hzero (by decide)
    · simp only [if_neg hnegative] at h
      have hoffs : 0 ≤ offs := Int.not_lt.mp hnegative
      exact ⟨hoffs, (haligned hoffs).mp (offs_eq_of_storesAt hsize h)⟩
  · rintro ⟨hoffs, hregister⟩ v pregs
    rw [if_neg (Int.not_lt.mpr hoffs), (haligned hoffs).mpr hregister]
    exact storesAt_iff.mpr rfl

/-- Two browsers store at the register when the offset of each of them is in it. -/
theorem both_store_iff (buf buf' : BrowserBuffer) {width' : ℤ} (h : Shows region rnm width buf.br)
    (h' : Shows region rnm width' buf'.br) (hrnms : buf.bRnms = some rnm) (hrnms' : buf'.bRnms = some rnm)
    (hwhole : WholeRnm rnm) {name : List Octet} (hsearch : rnmsearch rnm name = some i) (hpos : 0 ≤ i) :
    (∀ v pregs, ∃ after, brwrite2name buf name v pregs = some after ∧
        brwrite2name buf' name v pregs = some after ∧
        StoresAt rnm.rDwidth.toNat (i * rnm.rDwidth).toNat v pregs after) ↔
      (0 ≤ namedOffs name i width ∧ namedOffs name i width / rnm.rDwidth = i) ∧
        0 ≤ namedOffs name i width' ∧ namedOffs name i width' / rnm.rDwidth = i := by
  rw [← storesAt_register_iff hwhole hpos, ← storesAt_register_iff hwhole hpos]
  simp only [brwrite2name_eq buf h hrnms hwhole hsearch, brwrite2name_eq buf' h' hrnms' hwhole hsearch,
    Option.some.injEq]
  constructor
  · intro hboth
    constructor
    · intro v pregs
      obtain ⟨after, rfl, -, hstored⟩ := hboth v pregs
      exact hstored
    · intro v pregs
      obtain ⟨after, -, rfl, hstored⟩ := hboth v pregs
      exact hstored
  · rintro ⟨hfirst, hsecond⟩ v pregs
    refine ⟨_, rfl, ?_, hfirst v pregs⟩
    exact (storesAt_iff.mp (hsecond v pregs)).trans (storesAt_iff.mp (hfirst v pregs)).symm

/-- An index is scaled to the offset of its register with the width of the file, unless it is zero. -/
theorem intOf_mul_register_iff (hwhole : WholeRnm rnm)
    (hwidth : width = rnm.rDwidth ∨ width = otherWidth rnm.rDwidth) (hpos : 0 ≤ i) (hbound : i < 2 ^ 31) :
    0 ≤ intOf (i * width) ∧ intOf (i * width) / rnm.rDwidth = i ↔
      (i = 0 ∨ width = rnm.rDwidth) ∧ i * rnm.rDwidth < 2 ^ 31 := by
  have hwidths := hwhole.widths hwidth
  obtain ⟨q, k, hscaled, hwrap, hlow, hhigh⟩ := exists_intOf_mul hwidths i
  rw [hscaled]
  rcases hwhole.dwidth with hdwidth | hdwidth <;> rcases hwidths with rfl | rfl <;> rw [hdwidth] <;> omega

end Write

/-- **The display decides where a named register is written.** For a name that the search finds, two
browsers of a card that differ in the number of toggles both store at the register, in the width of the
file, and nowhere else, for every value and content, if and only if: the name begins with a digit, so that
it is taken for an offset, and this offset is in the register; or it does not, both numbers are even (or the
index is 0), and the offset of the register is an `int`. -/
theorem brwrite2name_stores_iff {rnm : RnmT} (hrnm : ParsedRnm rnm) (ttnrows : ℤ) (uninitialised : Browser)
    (region : VmeRegion) (toggles toggles' : ℕ) {name : List Octet} {i : ℤ}
    (hsearch : rnmsearch rnm name = some i) (hpos : 0 ≤ i) :
    let buf := browserBuffer ttnrows uninitialised region (some rnm)
    (∀ v pregs, ∃ after, brwrite2name (buf.toggled ttnrows toggles) name v pregs = some after ∧
        brwrite2name (buf.toggled ttnrows toggles') name v pregs = some after ∧
        StoresAt rnm.rDwidth.toNat (i * rnm.rDwidth).toNat v pregs after) ↔
      if isdigit (firstChar name) then 0 ≤ widthOf name ∧ widthOf name / rnm.rDwidth = i
      else (i = 0 ∨ Even toggles ∧ Even toggles') ∧ i * rnm.rDwidth < 2 ^ 31 := by
  intro buf
  have hwhole := hrnm.whole
  obtain ⟨rdata, -, hle⟩ := hwhole.record hsearch hpos
  have hbound : i < 2 ^ 31 := Int.lt_of_le_of_lt hle hwhole.bound
  have hshows := hwhole.shows ttnrows uninitialised region toggles
  have hshows' := hwhole.shows ttnrows uninitialised region toggles'
  generalize hwidth : (if Even toggles then rnm.rDwidth else otherWidth rnm.rDwidth) = width at hshows
  generalize hwidth' : (if Even toggles' then rnm.rDwidth else otherWidth rnm.rDwidth) = width' at hshows'
  have hboth := both_store_iff (buf.toggled ttnrows toggles) (buf.toggled ttnrows toggles') hshows hshows'
    rfl rfl hwhole hsearch hpos
  rw [hboth, namedOffs, namedOffs]
  split_ifs with hdigit
  · exact and_self_iff
  · rw [intOf_mul_register_iff hwhole (hwidth ▸ ite_eq_or_eq _ _ _) hpos hbound,
      intOf_mul_register_iff hwhole (hwidth' ▸ ite_eq_or_eq _ _ _) hpos hbound,
      ← hwidth, ← hwidth', toggledWidth_eq_iff hwhole.dwidth, toggledWidth_eq_iff hwhole.dwidth,
      and_and_and_comm, and_self_iff, or_and_left]

/-- Browsers that were toggled twice and not at all write the first register of the sample alike. -/
theorem brwrite2name_stores_two : ∃ rnm, ParsedRnm rnm ∧
    let buf := browserBuffer 24 ⟨0, 0, 0, 0, 0, 0, smallRegion, none⟩ smallRegion (some rnm)
    ∀ v pregs, ∃ after, brwrite2name (buf.toggled 24 2) [0x41] v pregs = some after ∧
      brwrite2name (buf.toggled 24 0) [0x41] v pregs = some after ∧
      StoresAt rnm.rDwidth.toNat (1 * rnm.rDwidth).toNat v pregs after := by
  obtain ⟨rnm, hrnm, -, hdwidth, hsearch, -⟩ := exists_parsed_twoRegisters
  refine ⟨rnm, hrnm, (brwrite2name_stores_iff hrnm 24 _ smallRegion 2 0 hsearch (by decide)).mpr ?_⟩
  rw [if_neg (by decide), hdwidth]
  exact ⟨Or.inr ⟨even_two, Even.zero⟩, by decide⟩

/-- After one toggle the store is at another register. -/
theorem brwrite2name_toggled : ¬∀ (rnm : RnmT) (ttnrows : ℤ) (uninitialised : Browser) (region : VmeRegion)
    (toggles toggles' : ℕ) (name : List Octet) (i : ℤ), ParsedRnm rnm → rnmsearch rnm name = some i →
      0 ≤ i → (i + 1) * rnm.rDwidth ≤ region.len.toNat →
        let buf := browserBuffer ttnrows uninitialised region (some rnm)
        ∀ v pregs, ∃ after, brwrite2name (buf.toggled ttnrows toggles) name v pregs = some after ∧
          brwrite2name (buf.toggled ttnrows toggles') name v pregs = some after ∧
          StoresAt rnm.rDwidth.toNat (i * rnm.rDwidth).toNat v pregs after := by
  intro h
  obtain ⟨rnm, hrnm, -, hdwidth, hsearch, -⟩ := exists_parsed_twoRegisters
  have hinside : (1 + 1) * rnm.rDwidth ≤ smallRegion.len.toNat := by
    rw [hdwidth]
    decide
  have hstores := h rnm 24 ⟨0, 0, 0, 0, 0, 0, smallRegion, none⟩ smallRegion 1 0 [0x41] 1 hrnm hsearch
    (by decide) hinside
  have hwhole := hrnm.whole
  have hwritten := brwrite2name_eq _ (hwhole.shows 24 ⟨0, 0, 0, 0, 0, 0, smallRegion, none⟩ smallRegion 1)
    rfl hwhole hsearch
  have hoffs := (storesAt_register_iff hwhole Int.one_nonneg _).mp fun v pregs => by
    obtain ⟨after, hafter, -, hstored⟩ := hstores v pregs
    rw [← Option.some.inj ((hwritten v pregs).symm.trans hafter)] at hstored
    exact hstored
  rw [hdwidth] at hoffs
  exact absurd hoffs.2 (by decide)

end V120.Tui
