import V120.Tui.SessionRuns

/-!
# What single keys do

But for `:`, a key makes and frees no buffer. It changes the private data of the current browser only, and the
registers of that only when it is one of those that write. The program is lost with such a key when it goes
back to a display that is gone, asks for the bucket of a name that has none, or asks for something that runs
over the buffer of the minibuffer.
-/

namespace V120.Tui

open V120.Common V120.Vme

namespace Session

variable {σ : Type*} {s t u : Session σ} {nodes : List Ptr} {p q : Ptr} {ttnrows : ℤ} {room : ℕ} {card : Card}
  {console : Console σ} {src src' : Source}

/-- The name that is asked for has no bucket. -/
def AsksNowhere (console : Console σ) (fn : BrFn) (card : Card) (src : Source) (s : Session σ) : Prop :=
  fn = .brgotoname ∧ src = .keyboard ∧ ∃ rnm name outside,
    card.buf.bRnms = some rnm ∧ console.mbgets s.outside = some (some name, outside) ∧ negativeHash name = true

/-- The functions with a key that ask for a number. -/
def AsksNumber (fn : BrFn) : Prop := fn = .brgoto ∨ fn = .brwrite

/-- What is typed runs over the buffer of the minibuffer. -/
def RunsOver (console : Console σ) (fn : BrFn) (card : Card) (src : Source) (s : Session σ) : Prop :=
  src = .keyboard ∧ (AsksNumber fn ∧ console.mbgetval s.outside = none ∨
    fn = .brgotoname ∧ card.buf.bRnms ≠ none ∧ console.mbgets s.outside = none)

/-- The functions of a browser that have a key. -/
def HasKey (fn : BrFn) : Prop := fn ∈ brklu.map Prod.snd

/-- Asking for a number leads nowhere when the answer runs over. -/
theorem number_eq_none_iff {next : Option (BitVec 32) × Source × Session σ → Option (Source × Session σ)}
    (hnext : ∀ asked, ∃ after, next asked = some after) :
    (Source.keyboard.value console intArg s).bind next = none ↔ console.mbgetval s.outside = none := by
  cases hasked : console.mbgetval s.outside with
  | none =>
    refine iff_of_true ?_ rfl
    rw [Source.value, hasked]
    rfl
  | some answer =>
    refine iff_of_false ?_ (Option.some_ne_none answer)
    rw [Source.value, hasked]
    obtain ⟨after, hafter⟩ := hnext (answer.1, .keyboard, { s with outside := answer.2 })
    exact fun hstuck => Option.some_ne_none after (hafter.symm.trans hstuck)

/-- Asking for a name where names are known leads nowhere when the one that is answered has no bucket, or the
answer runs over. -/
theorem brgotoname_eq_none_iff {rnm : RnmT} (hrnm : card.buf.bRnms = some rnm) :
    s.brFn console .brgotoname q card .keyboard = none ↔
      s.AsksNowhere console .brgotoname card .keyboard ∨ s.RunsOver console .brgotoname card .keyboard := by
  cases hasked : console.mbgets s.outside with
  | none =>
    refine iff_of_true ?_ (Or.inr ⟨rfl, Or.inr ⟨rfl, hrnm ▸ Option.some_ne_none rnm, hasked⟩⟩)
    rw [brFn, hrnm, Source.string, hasked]
    rfl
  | some answer =>
    have hstep : s.brFn console .brgotoname q card .keyboard =
        (card.brgotoname s.bufs.ttnrows answer.1).map
          fun card => (.keyboard, (s.withOutside answer.2).put q card) := by
      rw [brFn, hrnm, Source.string, hasked]
      rfl
    rw [hstep, Option.map_eq_none_iff, Card.brgotoname_eq_none_iff]
    constructor
    · rintro ⟨rnm', name, hrnm', hname, hhash⟩
      refine Or.inl ⟨rfl, rfl, rnm', name, answer.2, hrnm', ?_, hhash⟩
      rw [hasked, ← hname]
    · rintro (⟨-, -, rnm', name, outside, hrnm', hname, hhash⟩ | ⟨-, ⟨hnumber, -⟩ | ⟨-, -, hover⟩⟩)
      · refine ⟨rnm', name, hrnm', ?_, hhash⟩
        rw [Option.some.inj (hasked.symm.trans hname)]
      · exact absurd hnumber (by simp [AsksNumber])
      · cases hasked.symm.trans hover

/-- Every function of a browser that has a key goes on but for these. -/
theorem brFn_eq_none_iff (hfits : card.Fits ttnrows room) {fn : BrFn} (hkey : HasKey fn) :
    s.brFn console fn q card src = none ↔
      s.AsksNowhere console fn card src ∨ s.RunsOver console fn card src := by
  have hgoes {next : Option (Source × Session σ)} (hnext : ∃ after, next = some after)
      (hother : src = .keyboard → ¬AsksNumber fn ∧ (fn = .brgotoname → card.buf.bRnms = none)) :
      next = none ↔ s.AsksNowhere console fn card src ∨ s.RunsOver console fn card src := by
    obtain ⟨after, rfl⟩ := hnext
    refine iff_of_false (Option.some_ne_none after) ?_
    rintro (⟨hfn, hsrc, rnm, name, outside, hrnm, -⟩ | ⟨hsrc, ⟨hnumber, -⟩ | ⟨hfn, hrnm, -⟩⟩)
    · cases ((hother hsrc).2 hfn).symm.trans hrnm
    · exact (hother hsrc).1 hnumber
    · exact hrnm ((hother hsrc).2 hfn)
  have hasks {next : Option (Source × Session σ)} (hnumber : AsksNumber fn) (hsrc : src = .keyboard)
      (hnext : next = none ↔ console.mbgetval s.outside = none) :
      next = none ↔ s.AsksNowhere console fn card src ∨ s.RunsOver console fn card src := by
    refine hnext.trans ⟨fun hover => Or.inr ⟨hsrc, Or.inl ⟨hnumber, hover⟩⟩, ?_⟩
    rintro (⟨hfn, -⟩ | ⟨-, ⟨-, hover⟩ | ⟨hfn, -⟩⟩)
    · rcases hnumber with hnumber | hnumber <;> cases hnumber.symm.trans hfn
    · exact hover
    · rcases hnumber with hnumber | hnumber <;> cases hnumber.symm.trans hfn
  have hwrites {next : Option Card} (hnext : ∃ card', next = some card') (src : Source) (s : Session σ) :
      ∃ after, next.map (fun card => (src, s.put q card)) = some after := by
    obtain ⟨card', rfl⟩ := hnext
    exact ⟨_, rfl⟩
  have hwrite (v : BitVec 32) : ∃ card', card.brwrite1 v = some card' :=
    (hfits.brwrite1 v).imp fun _ hwritten => hwritten.1
  have hscript (tok : TokenBuf) (hsrc : src = .script tok) :
      src = .keyboard → ¬AsksNumber fn ∧ (fn = .brgotoname → card.buf.bRnms = none) := by
    intro hkeyboard
    cases hsrc.symm.trans hkeyboard
  cases fn with
  | brapp => exact absurd hkey (by simp [HasKey, brklu])
  | brditto =>
    cases src with
    | keyboard => exact hgoes (hwrites (hwrite card.lastwrite) _ s) fun _ => ⟨by simp [AsksNumber], by simp⟩
    | script tok => exact hgoes ⟨_, rfl⟩ (hscript tok rfl)
  | brzero => exact hgoes (hwrites (hwrite 0) _ s) fun _ => ⟨by simp [AsksNumber], by simp⟩
  | brgoto =>
    cases src with
    | keyboard =>
      refine hasks (Or.inl rfl) rfl ?_
      rw [Session.brFn]
      dsimp only
      rw [Option.map_eq_bind]
      exact number_eq_none_iff fun asked => ⟨_, rfl⟩
    | script tok => exact hgoes ⟨_, rfl⟩ (hscript tok rfl)
  | brgotoname =>
    cases src with
    | keyboard =>
      cases hrnm : card.buf.bRnms with
      | none =>
        refine hgoes ⟨(.keyboard, s), ?_⟩ fun _ => ⟨by simp [AsksNumber], fun _ => hrnm⟩
        rw [brFn, hrnm]
        rfl
      | some rnm =>
        exact brgotoname_eq_none_iff hrnm
    | script tok => exact hgoes ⟨_, rfl⟩ (hscript tok rfl)
  | brwrite =>
    cases src with
    | keyboard =>
      refine hasks (Or.inr rfl) rfl ?_
      exact number_eq_none_iff fun asked =>
        hwrites ((hfits.brwrite asked.1).imp fun _ hwritten => hwritten.1) _ _
    | script tok => exact hgoes ⟨_, rfl⟩ (hscript tok rfl)
  | brchmod => exact hgoes ⟨_, rfl⟩ fun _ => ⟨by simp [AsksNumber], by simp⟩
  | braddrnm => exact absurd hkey (by simp [HasKey, brklu])
  | brrefreshoff => exact absurd hkey (by simp [HasKey, brklu])
  | brchrefresh => exact absurd hkey (by simp [HasKey, brklu])
  | brwrite2name => exact absurd hkey (by simp [HasKey, brklu])

/-- A function of `input.c` but `add-vme` goes on, but for a toggle to a display that is gone. -/
theorem Sound.inpFn_eq_none_iff (h : s.Sound ttnrows room p nodes) (hset : Setting console ttnrows room)
    {fn : InpFn} (hadd : fn ≠ .inpaddvme) (src : Source) :
    s.inpFn console fn src = none ↔ fn = .inptoggle ∧ ¬LastShown s := by
  constructor
  · intro hstuck
    have hgoes : ¬s.Proceeds ttnrows room p ((s.inpFn console fn src).map Prod.snd) := by
      rw [hstuck]
      rintro ⟨t, nodes', ht, -⟩
      cases ht
    by_cases hquit : fn = .inpquit ∧ src = .keyboard
    · obtain ⟨rfl, rfl⟩ := hquit
      obtain ⟨t, ht, -⟩ := h.quit
      have hended : s.inpFn console .inpquit .keyboard = some (.keyboard, t) := by
        rw [Session.inpFn, ht]
        rfl
      cases hstuck.symm.trans hended
    · by_contra hlast
      refine hgoes (h.inpFn hset fn src hadd (fun htoggle => ?_) fun hfn hsrc => hquit ⟨hfn, hsrc⟩)
      by_contra hgone
      exact hlast ⟨htoggle, hgone⟩
  · rintro ⟨rfl, hgone⟩
    rw [Session.inpFn, Option.map_eq_none_iff, Option.map_eq_none_iff, Buffers.bufferback, Buffers.buffergoto,
      Option.map_eq_none_iff, Option.eq_none_iff_forall_ne_some]
    intro shown hshown
    obtain ⟨buf, hbuf, -⟩ := Option.bind_eq_some_iff.mp hshown
    obtain ⟨q, hlast, hq⟩ := Option.bind_eq_some_iff.mp hbuf
    exact hgone ⟨q, hlast, Finmap.mem_iff.mpr ⟨buf, hq⟩⟩

/-- No buffer was made or freed; each browser has its region and its crate still, and what is behind the region
is as it was; so are the registers unless a key writes; and what was shown before can be shown still. -/
structure Browsed (writes : Prop) (s t : Session σ) : Prop where
  heap : t.bufs.heap = s.bufs.heap
  log : t.log = s.log
  exited : t.exited = s.exited
  cards : ∀ q card, s.cards q = some card →
    ∃ card', t.cards q = some card' ∧ card.Served card' ∧ (¬writes → card'.regs = card.regs)
  last : s.LastShown → t.LastShown

/-- Nothing happens. -/
theorem Browsed.refl (writes : Prop) (s : Session σ) : Browsed writes s s :=
  ⟨rfl, rfl, rfl, fun _ card hcard => ⟨card, hcard, .refl card, fun _ => rfl⟩, fun hlast => hlast⟩

/-- One key after another. -/
theorem Browsed.trans {writes writes' : Prop} (h : Browsed writes s t) (h' : Browsed writes' t u) :
    Browsed (writes ∨ writes') s u where
  heap := h'.heap.trans h.heap
  log := h'.log.trans h.log
  exited := h'.exited.trans h.exited
  cards q card hcard := by
    obtain ⟨card', hcard', hserved, hregs⟩ := h.cards q card hcard
    obtain ⟨card'', hcard'', hserved', hregs'⟩ := h'.cards q card' hcard'
    refine ⟨card'', hcard'', hserved.trans hserved', fun hwrites => ?_⟩
    rw [not_or] at hwrites
    exact (hregs' hwrites.2).trans (hregs hwrites.1)
  last hlast := h'.last (h.last hlast)

/-- A key that writes no register need not be known not to. -/
theorem Browsed.mono {writes writes' : Prop} (h : Browsed writes s t) (himp : writes → writes') :
    Browsed writes' s t :=
  ⟨h.heap, h.log, h.exited, fun q card hcard => (h.cards q card hcard).imp fun _ hcard' =>
    ⟨hcard'.1, hcard'.2.1, fun hwrites => hcard'.2.2 fun hw => hwrites (himp hw)⟩, h.last⟩

/-- What is outside does not matter. -/
theorem Browsed.withOutside (writes : Prop) (s : Session σ) (outside : σ) :
    Browsed writes s (s.withOutside outside) :=
  ⟨rfl, rfl, rfl, fun _ card hcard => ⟨card, hcard, .refl card, fun _ => rfl⟩, fun hlast => hlast⟩

/-- The functions of `input.c` that make or free buffers. -/
def Makes (fn : InpFn) : Prop := fn ∈ [InpFn.inpquit, .inpaddvme, .inpadddummy, .inpkill]

instance : DecidablePred Makes := fun fn => inferInstanceAs (Decidable (fn ∈ _))

/-- A key of a table is in it. -/
theorem mem_of_lookup {α β : Type*} [DecidableEq α] {table : List (α × β)} {k : α} {v : β}
    (h : table.lookup k = some v) : (k, v) ∈ table := by
  obtain ⟨before, after, rfl, -⟩ := List.lookup_eq_some_iff.mp h
  exact List.mem_append_right _ List.mem_cons_self

/-- A key of a browser is none of the whole program. -/
theorem inpklu_of_brklu {c : ℤ} {fn : BrFn} (h : brklu.lookup c = some fn) : inpklu.lookup c = none := by
  have hkeys : ∀ entry ∈ brklu, inpklu.lookup entry.1 = none := by decide
  exact hkeys (c, fn) (mem_of_lookup h)

/-- The function of a key has one. -/
theorem brklu_hasKey {c : ℤ} {fn : BrFn} (h : brklu.lookup c = some fn) : HasKey fn :=
  List.mem_map.mpr ⟨(c, fn), mem_of_lookup h, rfl⟩

/-- The key that asks for a name. -/
theorem brklu_brgotoname {c : ℤ} (h : brklu.lookup c = some .brgotoname) : c = keyOf 'G' := by
  have hmem := mem_of_lookup h
  simpa [brklu] using hmem

/-- The keys that toggle. -/
theorem inpklu_inptoggle {c : ℤ} : inpklu.lookup c = some .inptoggle ↔ c = keyOf 'b' ∨ c = keyOf 'B' := by
  constructor
  · intro h
    have hmem := mem_of_lookup h
    simpa [inpklu] using hmem
  · rintro (rfl | rfl)
    · rfl
    · rfl

/-- No key makes or frees buffers. -/
theorem inpklu_makes {c : ℤ} {fn : InpFn} (h : inpklu.lookup c = some fn) : ¬Makes fn := by
  have hmem := mem_of_lookup h
  rintro hfn
  simp only [Makes, List.mem_cons, List.not_mem_nil, or_false] at hfn
  rcases hfn with rfl | rfl | rfl | rfl <;> revert hmem <;> simp [inpklu]

/-- No key is for `add-vme`. -/
theorem inpklu_ne_inpaddvme {c : ℤ} {fn : InpFn} (h : inpklu.lookup c = some fn) : fn ≠ .inpaddvme := by
  rintro rfl
  exact inpklu_makes h (by decide)

/-- The key for commands. -/
theorem inpklu_inpcommand {c : ℤ} : inpklu.lookup c = some .inpcommand ↔ c = keyOf ':' := by
  constructor
  · intro h
    have hmem := mem_of_lookup h
    simpa [inpklu] using hmem
  · rintro rfl
    rfl

/-- A key after which there is no next state: it goes back to a display that is gone, or it asks for a name and
the one that is answered has no bucket, or it asks for something in a browser and the answer runs over the
buffer of the minibuffer. -/
def Lost (console : Console σ) (c : ℤ) (src : Source) (s : Session σ) : Prop :=
  (c = keyOf 'b' ∨ c = keyOf 'B') ∧ ¬s.LastShown ∨
    c = keyOf 'G' ∧ (∃ q card, s.bufs.gBuffer = some q ∧ s.cards q = some card ∧
      s.AsksNowhere console .brgotoname card src) ∨
    ∃ q card fn, s.bufs.gBuffer = some q ∧ s.cards q = some card ∧ brklu.lookup c = some fn ∧
      s.RunsOver console fn card src

/-- A key of the current buffer. -/
theorem Sound.keylookup_eq_none_iff (h : s.Sound ttnrows room p nodes) {c : ℤ} :
    s.keylookup console c src = none ↔
      ∃ q card fn, s.bufs.gBuffer = some q ∧ s.cards q = some card ∧ brklu.lookup c = some fn ∧
        (s.AsksNowhere console fn card src ∨ s.RunsOver console fn card src) := by
  obtain ⟨q, mode, -, hcurrent, hmode⟩ := h.exists_current
  rw [Session.keylookup, Session.onCurrent, hcurrent, Option.bind_some, hmode, Option.bind_some]
  cases mode with
  | bumode =>
    refine iff_of_false ?_ ?_
    · obtain ⟨bufs, hgoto, -⟩ := h.bugoto
      dsimp only
      rw [hgoto, Option.map_some]
      split_ifs
      · exact Option.some_ne_none _
      · exact Option.some_ne_none _
    · rintro ⟨r, card, fn, hr, hcard, -⟩
      obtain rfl := Option.some.inj hr
      cases (h.card_of_bumode hmode).symm.trans hcard
  | brmode a =>
    obtain ⟨card, hcard⟩ := h.exists_card hmode
    cases hfn : brklu.lookup c with
    | none =>
      refine iff_of_false (Option.some_ne_none _) ?_
      rintro ⟨r, other, fn, -, -, hother, -⟩
      cases hother
    | some fn =>
      dsimp only
      rw [hcard, Option.bind_some, brFn_eq_none_iff (h.fits q card hcard) (brklu_hasKey hfn)]
      constructor
      · exact fun hasks => ⟨q, card, fn, rfl, hcard, rfl, hasks⟩
      · rintro ⟨r, other, fn', hr, hother, hfn', hasks⟩
        obtain rfl := Option.some.inj hr
        obtain rfl := Option.some.inj (hcard.symm.trans hother)
        exact Option.some.inj hfn' ▸ hasks

/-- A browser that is freed, and nothing else. -/
theorem Sound.exists_brquit (h : s.Sound ttnrows room p nodes) (hcard : s.cards q = some card) :
    ∃ t, s.brquit q = some t ∧ t.exited = s.exited ∧ t.bufs.modeAt q = none ∧
      ∀ r, r ≠ q → t.bufs.modeAt r = s.bufs.modeAt r := by
  obtain ⟨hq, hne⟩ := h.buffer_of_card hcard
  obtain ⟨bufs, nodes', hkill, -, -, hgone, hmodes⟩ := h.bufferkill_modes hq hne
  rw [Session.brquit, hcard, Option.bind_some, hkill]
  exact ⟨_, rfl, rfl, hgone, hmodes⟩

/-- A kill from the buffer list leaves the buffer list in place. -/
theorem Sound.exists_bukill (h : s.Sound ttnrows room p nodes) (hmode : s.bufs.modeAt q = some .bumode) :
    ∃ t, s.bukill q = some t ∧ t.exited = s.exited ∧ t.bufs.modeAt q = some .bumode := by
  obtain ⟨before, r, after, hnodes, -, hunder⟩ := h.exists_under
  have hr : r ∈ nodes := hnodes ▸ List.mem_append_right _ List.mem_cons_self
  obtain ⟨buf, hbuf⟩ := Buffers.exists_buffer h.list hr
  have hkilled : s.bufs.modeAt r = some buf.bMode := by rw [Buffers.modeAt, hbuf, Option.map_some]
  simp only [Session.bukill, hunder, h.head, Option.bind_some, hkilled]
  by_cases hhead : some r = some p
  · rw [if_pos hhead]
    exact ⟨s, rfl, rfl, hmode⟩
  · rw [if_neg hhead]
    cases hbufMode : buf.bMode with
    | bumode => exact ⟨s, rfl, rfl, hmode⟩
    | brmode a =>
      dsimp only
      by_cases hself : r = q
      · rw [if_pos hself]
        exact ⟨s, rfl, rfl, hmode⟩
      · rw [if_neg hself]
        obtain ⟨card, hcard, -⟩ := (h.browsers r a).mp (hkilled.trans (congrArg some hbufMode))
        obtain ⟨t, hquit, hexited, -, hmodes⟩ := h.exists_brquit hcard
        rw [Session.brkill, hcard, Option.bind_some]
        split_ifs
        · exact ⟨s, rfl, rfl, hmode⟩
        · exact ⟨t, hquit, hexited, (hmodes q (Ne.symm hself)).trans hmode⟩

/-- The kill of the current buffer with the method that is called afterwards. -/
theorem Sound.kill_eq_none_iff (h : s.Sound ttnrows room p nodes) (hexited : s.exited = false) :
    s.inpkill.bind (setto s.bufs.gBuffer) = none ↔
      ∃ q card, s.bufs.gBuffer = some q ∧ s.cards q = some card ∧
        0 ≤ (card.buf.br.region.vmeAddr.setWidth 32).toInt := by
  obtain ⟨q, mode, hq, hcurrent, hmode⟩ := h.exists_current
  rw [Session.inpkill, hcurrent, Option.bind_some, hmode, Option.bind_some]
  cases mode with
  | bumode =>
    refine iff_of_false ?_ ?_
    · obtain ⟨t, ht, htexited, htmode⟩ := h.exists_bukill hmode
      dsimp only
      rw [ht, Option.bind_some, setto, htexited, hexited, if_neg Bool.false_ne_true, Option.bind_some, htmode,
        Option.bind_some]
      exact Option.some_ne_none t
    · rintro ⟨r, card, hr, hcard, -⟩
      obtain rfl := Option.some.inj hr
      cases (h.card_of_bumode hmode).symm.trans hcard
  | brmode a =>
    obtain ⟨card, hcard⟩ := h.exists_card hmode
    dsimp only
    rw [Session.brkill, hcard, Option.bind_some]
    split_ifs with hrefused
    · refine iff_of_false ?_ ?_
      · rw [Option.bind_some, setto, hexited, if_neg Bool.false_ne_true, Option.bind_some, hmode, Option.bind_some,
          hcard]
        exact Option.some_ne_none s
      · rintro ⟨r, other, hr, hother, hallowed⟩
        obtain rfl := Option.some.inj hr
        obtain rfl := Option.some.inj (hcard.symm.trans hother)
        exact absurd hrefused (Int.not_lt.mpr hallowed)
    · refine iff_of_true ?_ ⟨q, card, rfl, hcard, Int.not_lt.mp hrefused⟩
      obtain ⟨t, ht, htexited, hgone, -⟩ := h.exists_brquit hcard
      rw [ht, Option.bind_some, setto, htexited, hexited, if_neg Bool.false_ne_true, Option.bind_some, hgone]
      rfl

end Session

namespace Program

variable {σ : Type*} {os : Os σ} {paths : Paths} {console : Console σ} {fuel : ℕ} {p : Ptr} {ttnrows : ℤ}
  {room : ℕ} {a b : Program σ} {c : ℤ}

/-- What the keys but for the one of commands lead to. -/
theorem processinput_eq (hc : c ≠ keyOf ':') (hkey : c ≠ -1) :
    processinput os paths console fuel c a =
      match inpklu.lookup c with
      | some fn => (a.session.inpFn console fn a.source).map a.afterwards
      | none => (a.session.keylookup console c a.source).map a.afterwards := by
  rw [processinput, if_neg hkey]
  cases hfn : inpklu.lookup c with
  | none => rfl
  | some fn =>
    cases fn with
    | inpcommand => exact absurd (Session.inpklu_inpcommand.mp hfn) hc
    | _ => rfl

/-- A key other than `:` that leads nowhere is one of those. -/
theorem lost_of_processinput (hset : Session.Setting console ttnrows room) (h : a.session.Running ttnrows room p)
    (hc : c ≠ keyOf ':') (hstuck : processinput os paths console fuel c a = none) :
    a.session.Lost console c a.source := by
  obtain ⟨hexited, nodes, hsound⟩ := h
  have hkey : c ≠ -1 := by
    rintro rfl
    cases hstuck
  rw [processinput_eq hc hkey] at hstuck
  cases hfn : inpklu.lookup c with
  | some fn =>
    rw [hfn] at hstuck
    dsimp only at hstuck
    rw [Option.map_eq_none_iff, hsound.inpFn_eq_none_iff hset (Session.inpklu_ne_inpaddvme hfn)] at hstuck
    obtain ⟨rfl, hgone⟩ := hstuck
    exact Or.inl ⟨Session.inpklu_inptoggle.mp hfn, hgone⟩
  | none =>
    rw [hfn] at hstuck
    dsimp only at hstuck
    rw [Option.map_eq_none_iff, hsound.keylookup_eq_none_iff] at hstuck
    obtain ⟨q, card, fn, hcurrent, hcard, hbr, hasks | hover⟩ := hstuck
    · obtain rfl := hasks.1
      exact Or.inr (Or.inl ⟨Session.brklu_brgotoname hbr, q, card, hcurrent, hcard, hasks⟩)
    · exact Or.inr (Or.inr ⟨q, card, fn, hcurrent, hcard, hbr, hover⟩)

/-- A key other than `:` leads nowhere exactly when it toggles back to a display that is gone, when it asks
for a name in a browser with an RNM file and the answer has no bucket, or when it asks for a name or a number
in a browser and what is typed runs over the buffer of the minibuffer. -/
theorem processinput_eq_none_iff (hset : Session.Setting console ttnrows room)
    (h : a.session.Running ttnrows room p) (hc : c ≠ keyOf ':') :
    processinput os paths console fuel c a = none ↔ a.session.Lost console c a.source := by
  refine ⟨lost_of_processinput hset h hc, fun hlost => ?_⟩
  obtain ⟨hexited, nodes, hsound⟩ := h
  rcases hlost with ⟨hb, hgone⟩ | ⟨rfl, q, card, hcurrent, hcard, hasks⟩ |
    ⟨q, card, fn, hcurrent, hcard, hbr, hover⟩
  · have hkey : c ≠ -1 := by
      rintro rfl
      rcases hb with hb | hb
      · exact absurd hb (by decide)
      · exact absurd hb (by decide)
    rw [processinput_eq hc hkey, Session.inpklu_inptoggle.mpr hb]
    have htoggle : InpFn.inptoggle ≠ .inpaddvme := by decide
    exact Option.map_eq_none_iff.mpr ((hsound.inpFn_eq_none_iff hset htoggle a.source).mpr ⟨rfl, hgone⟩)
  · rw [processinput_eq hc (by decide)]
    exact Option.map_eq_none_iff.mpr
      (hsound.keylookup_eq_none_iff.mpr ⟨q, card, .brgotoname, hcurrent, hcard, rfl, Or.inl hasks⟩)
  · have hmem := Session.mem_of_lookup hbr
    have hnone : inpklu.lookup c = none := Session.inpklu_of_brklu hbr
    have hkey : c ≠ -1 := by
      rintro rfl
      cases hbr
    rw [processinput_eq hc hkey, hnone]
    exact Option.map_eq_none_iff.mpr
      (hsound.keylookup_eq_none_iff.mpr ⟨q, card, fn, hcurrent, hcard, hbr, Or.inr hover⟩)

/-- The word `kill` in the minibuffer leads nowhere exactly in a browser that may be killed: the method that is
called when the command is done is one of the buffer that was freed. -/
theorem inpcommand_kill_eq_none_iff (h : a.session.Running ttnrows room p) (hkeyboard : a.gInstream = none)
    {outside : σ} (hword : console.mbgets a.session.outside = some (some (octets ['k', 'i', 'l', 'l']), outside)) :
    inpcommand os paths console fuel a = none ↔
      ∃ q card, a.session.bufs.gBuffer = some q ∧ a.session.cards q = some card ∧
        0 ≤ (card.buf.br.region.vmeAddr.setWidth 32).toInt := by
  have hasked := h.withOutside outside
  obtain ⟨hexited, nodes, hsound⟩ := hasked
  have hcommand : inpcommand os paths console fuel a = none ↔
      (a.session.withOutside outside).inpkill.bind (Session.setto a.session.bufs.gBuffer) = none := by
    have hnext : a.nextString (Session.keyboardCommands console a.session.bufs.gBuffer) =
        some (some (octets ['k', 'i', 'l', 'l']), a.withOutside (a.session.withOutside outside)) := by
      have hmbgets : (Session.keyboardCommands console a.session.bufs.gBuffer).mbgets a.sys.outside =
          some (some (octets ['k', 'i', 'l', 'l']), a.session.withOutside outside) := by
        change (console.mbgets a.session.outside).map _ = _
        rw [hword]
        rfl
      unfold Interpreter.nextString
      rw [hkeyboard]
      dsimp only
      rw [hmbgets]
      rfl
    rw [inpcommand, hkeyboard]
    dsimp only
    rw [Interpreter.inpcommand, hnext, Option.bind_some]
    dsimp only
    rw [if_neg (by decide)]
    have hkill : Session.stringlookup console (octets ['k', 'i', 'l', 'l']) .keyboard
        (a.session.withOutside outside) =
          (a.session.withOutside outside).inpkill.map fun s => (.keyboard, s) := rfl
    unfold Interpreter.otherCommand
    change (Option.map _ (Option.map _ (Session.stringlookup console (octets ['k', 'i', 'l', 'l']) .keyboard
      (a.session.withOutside outside)))).bind _ = none ↔ _
    rw [hkill]
    cases (a.session.withOutside outside).inpkill with
    | none => exact iff_of_true rfl rfl
    | some t => exact Option.map_eq_none_iff
  rw [hcommand]
  exact hsound.kill_eq_none_iff hexited

end Program

/-- The answers in the minibuffer: a dummy is added, and then something is killed. -/
def dummyWords : List (List Octet) :=
  [octets ['a', 'd', 'd', '-', 'd', 'u', 'm', 'm', 'y'], octets ['k', 'i', 'l', 'l']]

/-- The registers of one crate and a dummy, which is shown. -/
def dummyShown : Option (Program (List (List Octet))) :=
  (Session.start wordConsole [] 4096 oneCrate 24 dummyWords).bind
    (Program.main noFiles ⟨[], []⟩ wordConsole 2 [keyOf ':', keyOf 'n'])

/-- The session with a dummy is in order, there is a display to toggle back to, and the next word is the one
for a kill. -/
theorem exists_dummyShown : ∃ a, dummyShown = some a ∧ a.session.Running 24 128 2 ∧ a.session.LastShown ∧
    a.gInstream = none ∧ ∃ outside,
      wordConsole.mbgets a.session.outside = some (some (octets ['k', 'i', 'l', 'l']), outside) := by
  have hsome : dummyShown.isSome = true := by decide
  have hmode : (Session.start wordConsole [] 4096 oneCrate 24 dummyWords).bind
      (fun s => s.bufs.modeAt 2) = some .bumode := by decide
  have hexited : dummyShown.map (fun a => a.session.exited) = some false := by decide
  have hlast : dummyShown.map (fun a => a.session.bufs.gLastbuf) = some (some 2) := by decide
  have hshown : dummyShown.bind (fun a => a.session.bufs.modeAt 2) = some .bumode := by decide
  have hinput : dummyShown.map (fun a => a.gInstream) = some none := by decide
  have hwords : dummyShown.map (fun a => a.session.outside) = some [octets ['k', 'i', 'l', 'l']] := by decide
  obtain ⟨a, ha⟩ := Option.isSome_iff_exists.mp hsome
  obtain ⟨s, hstart, hmain⟩ := Option.bind_eq_some_iff.mp ha
  obtain ⟨⟨r, loaded⟩, hload, hloop⟩ := Option.bind_eq_some_iff.mp hmain
  rw [hstart] at hmode
  rw [ha] at hexited hlast hshown hinput hwords
  have hscreen : FillsScreen 24 (Session.ctrlRegion 4096) := ⟨by decide, by decide, by decide, by decide⟩
  have hstarted : s.Running 24 128 2 :=
    Session.running_start setting_wordConsole hscreen (by decide) hstart hmode
  have hloaded := Program.running_loadFile setting_wordConsole Program.homeSetupFilename (Program.ofSession s) r
    loaded hstarted hload
  refine ⟨a, ha, ?_, ⟨2, Option.some.inj hlast, (Buffers.mem_heap_iff 2).mpr ⟨_, hshown⟩⟩,
    Option.some.inj hinput, [], congrArg wordConsole.mbgets (Option.some.inj hwords)⟩
  rcases Program.inOrder_ttyMain setting_wordConsole [keyOf ':', keyOf 'n'] (Or.inl hloaded) hloop with
    hrunning | ⟨hended, -⟩
  · exact hrunning
  · cases (Option.some.inj hexited).symm.trans hended

/-- A toggle in the session with a dummy. -/
theorem processinput_eq_none_iff_dummyShown : ∃ a, dummyShown = some a ∧
    (Program.processinput noFiles ⟨[], []⟩ wordConsole 1 (keyOf 'b') a = none ↔
      a.session.Lost wordConsole (keyOf 'b') a.source) := by
  obtain ⟨a, ha, hrunning, -⟩ := exists_dummyShown
  exact ⟨a, ha, Program.processinput_eq_none_iff setting_wordConsole hrunning (by decide)⟩

/-- The dummy is killed. -/
theorem inpcommand_kill_dummyShown : ∃ a, dummyShown = some a ∧
    (Program.inpcommand noFiles ⟨[], []⟩ wordConsole 1 a = none ↔
      ∃ q card, a.session.bufs.gBuffer = some q ∧ a.session.cards q = some card ∧
        0 ≤ (card.buf.br.region.vmeAddr.setWidth 32).toInt) := by
  obtain ⟨a, ha, hrunning, -, hinput, outside, hword⟩ := exists_dummyShown
  exact ⟨a, ha, Program.inpcommand_kill_eq_none_iff hrunning hinput hword⟩

end V120.Tui
