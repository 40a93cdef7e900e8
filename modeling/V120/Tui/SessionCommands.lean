import V120.Tui.SessionBuffers

/-!
# What the functions behind keys and words keep

A function of a browser changes its private data, at a position in the region still; a function of the whole
program moves between the buffers, makes or frees one, or ends the program.
-/

namespace V120.Tui

open V120.Common V120.Vme

namespace Session

variable {σ : Type*} {s t : Session σ} {nodes : List Ptr} {p q : Ptr} {ttnrows : ℤ} {room : ℕ} {card card' : Card}

section Commands

variable {console : Console σ} {src src' : Source}

/-- The private data is put back as it was. -/
theorem put_self (hcard : s.cards q = some card) : s.put q card = s := by
  rw [put, ← hcard, Function.update_eq_self]

/-- A string that is asked for changes what is outside only. -/
theorem string_outside {answer : Option (List Octet)} (h : src.string console s = some (answer, src', t)) :
    ∃ outside, t = s.withOutside outside := by
  cases src with
  | keyboard =>
    obtain ⟨⟨answer', outside⟩, -, hafter⟩ := Option.map_eq_some_iff.mp h
    exact ⟨outside, (Prod.mk.inj (Prod.mk.inj hafter).2).2.symm⟩
  | script tok => exact ⟨s.outside, (Prod.mk.inj (Prod.mk.inj (Option.some.inj h)).2).2.symm⟩

/-- A number that is asked for changes what is outside only. -/
theorem value_outside {number : List Octet → BitVec 32} {v : Option (BitVec 32)}
    (h : src.value console number s = some (v, src', t)) : ∃ outside, t = s.withOutside outside := by
  cases src with
  | keyboard =>
    obtain ⟨⟨answer', outside⟩, -, hafter⟩ := Option.map_eq_some_iff.mp h
    exact ⟨outside, (Prod.mk.inj (Prod.mk.inj hafter).2).2.symm⟩
  | script tok => exact ⟨s.outside, (Prod.mk.inj (Prod.mk.inj (Option.some.inj h)).2).2.symm⟩

/-- The name of an RNM file that is asked for changes what is outside only. -/
theorem rnmArg_outside {answer : Option (Option (List Octet))}
    (h : s.rnmArg console src = some (answer, src', t)) : ∃ outside, t = s.withOutside outside := by
  cases src with
  | keyboard =>
    obtain ⟨⟨name, src₁, t₁⟩, hasked, hafter⟩ := Option.map_eq_some_iff.mp h
    obtain ⟨-, rfl⟩ := Prod.mk.inj (Prod.mk.inj hafter).2
    exact string_outside hasked
  | script tok =>
    rw [rnmArg] at h
    obtain ⟨⟨name, src₁, t₁⟩, hasked, hafter⟩ := Option.map_eq_some_iff.mp h
    obtain ⟨-, rfl⟩ := Prod.mk.inj (Prod.mk.inj hafter).2
    exact string_outside hasked

/-- An offset that is given to `write-reg` is in the region. -/
def AsksInside (console : Console σ) (fn : BrFn) (card : Card) (src : Source) (s : Session σ) : Prop :=
  fn = .brwrite2name → ∀ name src' t, src.string console s = some (some name, src', t) →
    card.OffsetInside name

/-- The functions that write registers. -/
def Writes (fn : BrFn) : Prop := fn ∈ [BrFn.brditto, .brzero, .brwrite, .brwrite2name]

instance : DecidablePred Writes := fun fn => inferInstanceAs (Decidable (fn ∈ _))

/-- What a function of a browser does: the private data changes, at a position in the region still, and so does
what is outside. -/
structure Serves (console : Console σ) (ttnrows : ℤ) (room : ℕ) (fn : BrFn) (q : Ptr) (card : Card) (src : Source)
    (s t : Session σ) (outside : σ) (card' : Card) : Prop where
  state : t = (s.withOutside outside).put q card'
  fits : card'.Fits ttnrows room
  same : card.Same card'
  served : s.AsksInside console fn card src → card.Served card'
  unwritten : ¬Writes fn → card'.regs = card.regs

/-- A function that serves its card serves the session. -/
theorem Serves.of_served {fn : BrFn} {outside : σ} (hcard : card'.Fits ttnrows room ∧ card.Served card')
    (hunwritten : ¬Writes fn → card'.regs = card.regs) :
    Serves console ttnrows room fn q card src s ((s.withOutside outside).put q card') outside card' :=
  ⟨rfl, hcard.1, hcard.2.toSame, fun _ => hcard.2, hunwritten⟩

/-- Every function of a browser serves the session. -/
theorem exists_serves (hset : Setting console ttnrows room) (hterminal : s.bufs.ttnrows = ttnrows)
    (hcard : s.cards q = some card) (hfits : card.Fits ttnrows room) {fn : BrFn}
    (hstep : s.brFn console fn q card src = some (src', t)) :
    ∃ outside card', Serves console ttnrows room fn q card src s t outside card' := by
  have hstays (outside : σ) (ht : t = s.withOutside outside) :
      ∃ outside card', Serves console ttnrows room fn q card src s t outside card' := by
    refine ⟨outside, card, ?_, hfits, ⟨rfl, rfl⟩, fun _ => .refl card, fun _ => rfl⟩
    rw [ht]
    exact (put_self (s := s.withOutside outside) hcard).symm
  have hput (outside : σ) {card' : Card} (ht : t = (s.withOutside outside).put q card')
      (hserved : card'.Fits ttnrows room ∧ card.Served card') (hunwritten : ¬Writes fn → card'.regs = card.regs) :
      ∃ outside card', Serves console ttnrows room fn q card src s t outside card' :=
    ⟨outside, card', ht ▸ .of_served hserved hunwritten⟩
  cases fn with
  | brapp =>
    obtain ⟨-, rfl⟩ := Prod.mk.inj (Option.some.inj hstep)
    exact hstays s.outside rfl
  | brditto =>
    cases src with
    | keyboard =>
      obtain ⟨card', hwritten, hafter⟩ := Option.map_eq_some_iff.mp hstep
      obtain ⟨card'', hwritten', hserved⟩ := hfits.brwrite1 card.lastwrite
      obtain rfl := Option.some.inj (hwritten'.symm.trans hwritten)
      exact hput s.outside (Prod.mk.inj hafter).2.symm hserved fun hread => absurd (by decide) hread
    | script tok =>
      obtain ⟨-, rfl⟩ := Prod.mk.inj (Option.some.inj hstep)
      exact hstays s.outside rfl
  | brzero =>
    obtain ⟨card', hwritten, hafter⟩ := Option.map_eq_some_iff.mp hstep
    obtain ⟨card'', hwritten', hserved⟩ := hfits.brwrite1 0
    obtain rfl := Option.some.inj (hwritten'.symm.trans hwritten)
    exact hput s.outside (Prod.mk.inj hafter).2.symm hserved fun hread => absurd (by decide) hread
  | brgoto =>
    cases src with
    | keyboard =>
      obtain ⟨⟨v, src₁, s₁⟩, hasked, hafter⟩ := Option.map_eq_some_iff.mp hstep
      obtain ⟨outside, rfl⟩ := value_outside hasked
      exact hput outside (Prod.mk.inj hafter).2.symm (hterminal ▸ hfits.brgoto hset.fourRows v)
        fun _ => card.brgoto_regs s.bufs.ttnrows v
    | script tok =>
      obtain ⟨-, rfl⟩ := Prod.mk.inj (Option.some.inj hstep)
      exact hstays s.outside rfl
  | brgotoname =>
    cases src with
    | keyboard =>
      unfold brFn at hstep
      dsimp only at hstep
      split_ifs at hstep
      · obtain ⟨-, rfl⟩ := Prod.mk.inj (Option.some.inj hstep)
        exact hstays s.outside rfl
      · obtain ⟨⟨name, src₁, s₁⟩, hasked, hstep⟩ := Option.bind_eq_some_iff.mp hstep
        obtain ⟨outside, rfl⟩ := string_outside hasked
        obtain ⟨card', hgone, hafter⟩ := Option.map_eq_some_iff.mp hstep
        exact hput outside (Prod.mk.inj hafter).2.symm
          (hfits.brgotoname hset.fourRows (hterminal ▸ hgone)) fun _ => Card.brgotoname_regs hgone
    | script tok =>
      obtain ⟨-, rfl⟩ := Prod.mk.inj (Option.some.inj hstep)
      exact hstays s.outside rfl
  | brwrite =>
    cases src with
    | keyboard =>
      obtain ⟨⟨v, src₁, s₁⟩, hasked, hstep⟩ := Option.bind_eq_some_iff.mp hstep
      obtain ⟨outside, rfl⟩ := value_outside hasked
      obtain ⟨card', hwritten, hafter⟩ := Option.map_eq_some_iff.mp hstep
      obtain ⟨card'', hwritten', hserved⟩ := hfits.brwrite v
      obtain rfl := Option.some.inj (hwritten'.symm.trans hwritten)
      exact hput outside (Prod.mk.inj hafter).2.symm hserved fun hread => absurd (by decide) hread
    | script tok =>
      obtain ⟨-, rfl⟩ := Prod.mk.inj (Option.some.inj hstep)
      exact hstays s.outside rfl
  | brchmod =>
    obtain ⟨-, rfl⟩ := Prod.mk.inj (Option.some.inj hstep)
    exact hput s.outside rfl (hterminal ▸ hfits.pressKey .brchmod) fun _ => rfl
  | braddrnm =>
    obtain ⟨⟨name, src₁, s₁⟩, hasked, hafter⟩ := Option.map_eq_some_iff.mp hstep
    obtain ⟨outside₁, rfl⟩ := string_outside hasked
    cases name with
    | none => exact hstays outside₁ (Prod.mk.inj hafter).2.symm
    | some name =>
      have hrnm := hset.rnms name outside₁
      exact hput (console.rnmparse name outside₁).2 (Prod.mk.inj hafter).2.symm
        (hterminal ▸ hfits.braddrnm hrnm) fun _ => rfl
  | brrefreshoff =>
    obtain ⟨-, rfl⟩ := Prod.mk.inj (Option.some.inj hstep)
    exact hput s.outside rfl (hfits.withRefresh (-1)) fun _ => rfl
  | brchrefresh =>
    obtain ⟨⟨v, src₁, s₁⟩, hasked, hafter⟩ := Option.map_eq_some_iff.mp hstep
    obtain ⟨outside₁, rfl⟩ := value_outside hasked
    exact hput outside₁ (Prod.mk.inj hafter).2.symm (hfits.brchrefresh v) fun _ => card.brchrefresh_regs v
  | brwrite2name =>
    obtain ⟨⟨name, src₁, s₁⟩, hnamed, hstep⟩ := Option.bind_eq_some_iff.mp hstep
    obtain ⟨outside₁, rfl⟩ := string_outside hnamed
    cases name with
    | none =>
      obtain ⟨-, rfl⟩ := Prod.mk.inj (Option.some.inj hstep)
      exact hstays outside₁ rfl
    | some name =>
      obtain ⟨⟨v, src₂, s₂⟩, hvalue, hstep⟩ := Option.bind_eq_some_iff.mp hstep
      obtain ⟨outside₂, rfl⟩ := value_outside hvalue
      cases v with
      | none =>
        obtain ⟨-, rfl⟩ := Prod.mk.inj (Option.some.inj hstep)
        exact hstays outside₂ rfl
      | some v =>
        obtain ⟨card', hwritten, hafter⟩ := Option.map_eq_some_iff.mp hstep
        obtain ⟨hfits', hsame⟩ := hfits.brwrite2name hwritten
        refine ⟨outside₂, card', (Prod.mk.inj hafter).2.symm, hfits', hsame, fun hasked => ?_,
          fun hread => absurd (by decide) hread⟩
        exact hfits.brwrite2name_served hwritten (hasked rfl name _ _ hnamed)

/-- The display that was shown before the current one is there still. -/
def LastShown (s : Session σ) : Prop := ∃ q, s.bufs.gLastbuf = some q ∧ q ∈ s.bufs.heap

end Commands

namespace Sound

/-- The buffer of a browser, which is not the buffer list. -/
theorem buffer_of_card (h : s.Sound ttnrows room p nodes) (hcard : s.cards q = some card) :
    q ∈ nodes ∧ q ≠ p := by
  have hmode := h.mode_of_card hcard
  refine ⟨h.live q ((Buffers.mem_heap_iff q).mpr ⟨_, hmode⟩), ?_⟩
  rintro rfl
  cases h.mode.symm.trans hmode

/-- The current buffer. -/
theorem exists_current (h : s.Sound ttnrows room p nodes) :
    ∃ q mode, q ∈ nodes ∧ s.bufs.gBuffer = some q ∧ s.bufs.modeAt q = some mode := by
  obtain ⟨q, hq, hcurrent⟩ := h.current
  obtain ⟨buf, hbuf⟩ := Buffers.exists_buffer h.list hq
  exact ⟨q, buf.bMode, hq, hcurrent, by rw [Buffers.modeAt, hbuf, Option.map_some]⟩

/-- Another state of everything else. -/
theorem withOutside (h : s.Sound ttnrows room p nodes) (outside : σ) :
    (s.withOutside outside).Sound ttnrows room p nodes :=
  ⟨h.toHeaded, h.toStocked.withOutside outside⟩

/-- Moving between the buffers. -/
theorem withBufs (h : s.Sound ttnrows room p nodes) {bufs : Buffers} {nodes' : List Ptr}
    (hheaded : Buffers.Headed p bufs nodes') (hmoved : Buffers.Moved s.bufs bufs) :
    (s.withBufs bufs).Sound ttnrows room p nodes' :=
  ⟨hheaded, h.toStocked.withBufs hmoved.ttnrows hmoved.modeAt⟩

/-- The private data of a browser changes, but not its region and its crate. -/
theorem put (h : s.Sound ttnrows room p nodes) (hcard : s.cards q = some card)
    (hfits : card'.Fits ttnrows room) (hsame : card.Same card') : (s.put q card').Sound ttnrows room p nodes :=
  ⟨h.toHeaded, h.toStocked.put hcard hfits hsame⟩

/-- A browser is freed with what belongs to it. -/
theorem brquit (h : s.Sound ttnrows room p nodes) (hcard : s.cards q = some card) :
    s.bufs.bufferkill q = (s.brquit q).map Session.bufs ∧ s.Proceeds ttnrows room p (s.brquit q) := by
  obtain ⟨hq, hne⟩ := h.buffer_of_card hcard
  obtain ⟨bufs, nodes', hkill, hheaded, hrows, hgone, hmodes⟩ := h.bufferkill_modes hq hne
  have hquit : s.brquit q = some { s with
      bufs := bufs
      cards := Function.update s.cards q none
      log := s.log ++ (blocksOf q card.crateid).map .release } := by
    rw [Session.brquit, hcard, Option.bind_some, hkill, Option.map_some]
  rw [hquit]
  have hblocks := has_of_card (h.mode_of_card hcard) hcard
  refine ⟨hkill, _, nodes', rfl, ⟨hheaded, h.toStocked.remove hblocks ?_ hgone ?_ rfl⟩, rfl⟩
  · exact ⟨hrows, hmodes, fun r hr => Function.update_of_ne hr _ _⟩
  · exact Function.update_self _ _ _

/-- A browser is killed unless it is one for the registers of a crate. -/
theorem brkill (h : s.Sound ttnrows room p nodes) (hcard : s.cards q = some card) :
    s.bufs.brkill q card.buf.br.region.vmeAddr = (s.brkill q).map Session.bufs ∧
      s.Proceeds ttnrows room p (s.brkill q) := by
  rw [Session.brkill, hcard, Option.bind_some, Buffers.brkill]
  by_cases hrefused : (card.buf.br.region.vmeAddr.setWidth 32).toInt < 0
  · rw [if_pos hrefused, if_pos hrefused]
    exact ⟨rfl, .refl h⟩
  · rw [if_neg hrefused, if_neg hrefused]
    exact h.brquit hcard

/-- A kill from the buffer list, which is the one that the list knows. -/
theorem bukill (h : s.Sound ttnrows room p nodes) (pbuf : Ptr) :
    s.bufs.bukill pbuf = (s.bukill pbuf).map Session.bufs ∧ s.Proceeds ttnrows room p (s.bukill pbuf) := by
  obtain ⟨before, q, after, hnodes, -, hunder⟩ := h.exists_under
  have hq : q ∈ nodes := hnodes ▸ List.mem_append_right _ List.mem_cons_self
  obtain ⟨buf, hbuf⟩ := Buffers.exists_buffer h.list hq
  have hmode : s.bufs.modeAt q = some buf.bMode := by rw [Buffers.modeAt, hbuf, Option.map_some]
  simp only [Session.bukill, Buffers.bukill, hunder, h.head, Option.bind_eq_bind, Option.bind_some, hbuf, hmode]
  by_cases hhead : some q = some p
  · rw [if_pos hhead, if_pos hhead]
    exact ⟨rfl, .refl h⟩
  · rw [if_neg hhead, if_neg hhead]
    cases hbufMode : buf.bMode with
    | bumode => exact ⟨rfl, .refl h⟩
    | brmode a =>
      dsimp only
      by_cases hself : q = pbuf
      · rw [if_pos hself, if_pos hself]
        exact ⟨rfl, .refl h⟩
      · rw [if_neg hself, if_neg hself]
        obtain ⟨card, hcard, rfl⟩ := (h.browsers q a).mp (hmode.trans (congrArg some hbufMode))
        exact h.brkill hcard

/-- A kill is the one that the list of buffers knows. -/
theorem inpkill (h : s.Sound ttnrows room p nodes) :
    s.bufs.inpkill = s.inpkill.map Session.bufs ∧ s.Proceeds ttnrows room p s.inpkill := by
  obtain ⟨q, hq, hcurrent⟩ := h.current
  obtain ⟨buf, hbuf⟩ := Buffers.exists_buffer h.list hq
  have hmode : s.bufs.modeAt q = some buf.bMode := by rw [Buffers.modeAt, hbuf, Option.map_some]
  simp only [Session.inpkill, Buffers.inpkill, hcurrent, Option.bind_eq_bind, Option.bind_some, hbuf, hmode]
  cases hbufMode : buf.bMode with
  | bumode => exact h.bukill q
  | brmode a =>
    obtain ⟨card, hcard, rfl⟩ := (h.browsers q a).mp (hmode.trans (congrArg some hbufMode))
    exact h.brkill hcard

/-- Moving between buffers, where the list of buffers can. -/
theorem moves (h : s.Sound ttnrows room p nodes) (method : Buffers → Option Buffers)
    (hmoves : ∃ t, method s.bufs = some t ∧ Buffers.Headed p t nodes)
    (hmoved : ∀ t, method s.bufs = some t → Buffers.Moved s.bufs t) :
    s.Proceeds ttnrows room p ((method s.bufs).map s.withBufs) := by
  obtain ⟨bufs, hbufs, hheaded⟩ := hmoves
  refine ⟨s.withBufs bufs, nodes, ?_, h.withBufs hheaded (hmoved bufs hbufs), rfl⟩
  rw [hbufs, Option.map_some]

/-- The cursor moves in the list, or in the browser. -/
theorem cursor (h : s.Sound ttnrows room p nodes) (method : Buffers → Option Buffers)
    (hmoves : ∃ t, method s.bufs = some t ∧ Buffers.Headed p t nodes)
    (hmoved : ∀ t, method s.bufs = some t → Buffers.Moved s.bufs t) (key : BrowserKey) :
    s.Proceeds ttnrows room p (s.cursor method key) := by
  obtain ⟨q, mode, -, hcurrent, hmode⟩ := h.exists_current
  rw [Session.cursor, hcurrent, Option.bind_some, hmode, Option.bind_some]
  cases mode with
  | bumode => exact h.moves method hmoves hmoved
  | brmode a =>
    obtain ⟨card, hcard⟩ := h.exists_card hmode
    obtain ⟨hfits, hserved⟩ := (h.fits q card hcard).pressKey key
    dsimp only
    rw [hcard, Option.map_some, h.terminal]
    exact ⟨_, nodes, rfl, h.put hcard hfits hserved.toSame, rfl⟩

/-- A new browser comes second in the list, if there is memory for it. -/
theorem browsernew (h : s.Sound ttnrows room p nodes) (console : Console σ) {region : VmeRegion}
    (hscreen : FillsScreen ttnrows region) (hroom : room ≤ region.len.toNat) (hleast : 128 ≤ room)
    {metadata : Option RnmT} (hrnm : ∀ rnm, metadata = some rnm → RnmFits room rnm) (crateid : ℤ)
    (regs : ℕ → Octet) :
    s.Proceeds ttnrows room p ((s.browsernew console region metadata crateid regs).bind shuffled) := by
  obtain ⟨new, t, hnew, hstocked, hexited, hcase⟩ :=
    h.toStocked.browsernew console hscreen hroom hleast hrnm crateid regs
  rw [hnew, Option.bind_some]
  cases new with
  | false => exact ⟨t, nodes, rfl, ⟨hcase ▸ h.toHeaded, hstocked⟩, hexited⟩
  | true =>
    obtain ⟨q, hunused, hbufs⟩ := hcase
    obtain ⟨rest, rfl⟩ := h.exists_rest
    have hanswer : ∀ r, some q = some r → r ∉ s.bufs.heap := fun r hr => Option.some.inj hr ▸ hunused
    obtain ⟨bufs, nodes', hadded, hheaded⟩ := h.addBrowser region.vmeAddr hanswer
    have hshuffle : t.bufs.buffershuffle = some bufs := by
      rw [Buffers.addBrowser, hbufs, Option.bind_some] at hadded
      exact hadded
    obtain ⟨-, hlist, -⟩ := Buffers.buffernew_spec h.list hbufs
    obtain ⟨hrows, hmodes⟩ := Buffers.modes_of_buffershuffle hlist hshuffle
    refine ⟨t.withBufs bufs, nodes', ?_, ⟨hheaded, hstocked.withBufs hrows hmodes⟩, hexited⟩
    rw [shuffled, hshuffle, Option.map_some]

/-- `add_vme`. -/
theorem addVme (h : s.Sound ttnrows room p nodes) {console : Console σ} (hset : Setting console ttnrows room)
    (crateid vmeaddr : BitVec 32) (rnmfile : Option (List Octet)) :
    s.Proceeds ttnrows room p (s.addVme console crateid vmeaddr rnmfile) := by
  have hmost := hset.most
  rw [Session.addVme]
  cases hmap : console.mapVme crateid vmeaddr s.outside with
  | mk answer outside =>
    cases answer with
    | none => exact ⟨s.withOutside outside, nodes, rfl, h.withOutside outside, rfl⟩
    | some regs =>
      have hregion := hset.vmeRegion vmeaddr
      have hroom : room ≤ (Session.vmeRegion vmeaddr).len.toNat := by
        rw [Setting.len_vmeRegion]
        omega
      cases rnmfile with
      | none =>
        have hrnm : ∀ rnm, (none : Option RnmT) = some rnm → RnmFits room rnm := fun rnm hnone => by cases hnone
        exact (h.withOutside outside).browsernew console hregion hroom hset.least hrnm 1 regs
      | some filename =>
        have hrnm := hset.rnms filename outside
        exact (h.withOutside (console.rnmparse filename outside).2).browsernew console hregion hroom hset.least hrnm
          1 regs

/-- `add_dummy`. -/
theorem addDummy (h : s.Sound ttnrows room p nodes) {console : Console σ} (hset : Setting console ttnrows room) :
    s.Proceeds ttnrows room p (s.addDummy console) :=
  h.browsernew console hset.dummyRegion (hset.most.trans (by decide)) hset.least (fun rnm hnone => by cases hnone)
    _ _

/-- The program ends with every buffer freed. -/
theorem quit (h : s.Sound ttnrows room p nodes) : ∃ t, s.quit = some t ∧ t.exited = true ∧ t.Cleaned := by
  obtain ⟨t, hclean, -, hcleaned⟩ := h.toStocked.bufferclean h.list h.live (Buffers.length_le_card h.list)
  refine ⟨{ t with exited := true }, ?_, rfl, hcleaned.heap, hcleaned.balanced⟩
  rw [Session.quit, hclean, Option.map_some]

section Functions

variable {console : Console σ} {src src' : Source}

/-- `inpaddvme` goes on when every answer fits in the minibuffer. -/
theorem inpaddvme (h : s.Sound ttnrows room p nodes) (hset : Setting console ttnrows room)
    (hstep : s.inpaddvme console src = some (src', t)) :
    (∃ nodes', t.Sound ttnrows room p nodes') ∧ t.exited = s.exited := by
  have hstays {src₁ : Source} (outside : σ) (hafter : some (src₁, s.withOutside outside) = some (src', t)) :
      (∃ nodes', t.Sound ttnrows room p nodes') ∧ t.exited = s.exited := by
    obtain ⟨-, rfl⟩ := Prod.mk.inj (Option.some.inj hafter)
    exact ⟨⟨nodes, h.withOutside outside⟩, rfl⟩
  obtain ⟨⟨crateid, src₁, s₁⟩, hcrate, hstep⟩ := Option.bind_eq_some_iff.mp hstep
  obtain ⟨outside₁, rfl⟩ := value_outside hcrate
  cases crateid with
  | none => exact hstays outside₁ hstep
  | some crateid =>
    obtain ⟨⟨vmeaddr, src₂, s₂⟩, haddress, hstep⟩ := Option.bind_eq_some_iff.mp hstep
    obtain ⟨outside₂, rfl⟩ := value_outside haddress
    cases vmeaddr with
    | none => exact hstays outside₂ hstep
    | some vmeaddr =>
      obtain ⟨⟨rnmfile, src₃, s₃⟩, hrnm, hstep⟩ := Option.bind_eq_some_iff.mp hstep
      obtain ⟨outside₃, rfl⟩ := rnmArg_outside hrnm
      cases rnmfile with
      | none => exact hstays outside₃ hstep
      | some rnmfile =>
        dsimp only at hstep
        split_ifs at hstep
        · exact hstays outside₃ hstep
        · obtain ⟨u, hu, hafter⟩ := Option.map_eq_some_iff.mp hstep
          obtain ⟨-, rfl⟩ := Prod.mk.inj hafter
          obtain ⟨v, nodes', hv, hsound, hexited⟩ :=
            (h.withOutside outside₃).addVme hset crateid vmeaddr rnmfile
          have hadded : ((s.withOutside outside₃).addVme console crateid vmeaddr rnmfile) = some u := hu
          obtain rfl := Option.some.inj (hv.symm.trans hadded)
          exact ⟨⟨nodes', hsound⟩, hexited⟩

/-- A function of `input.c` but `add-vme` goes on, but for a toggle to a display that is gone and for the end
of the program. -/
theorem inpFn (h : s.Sound ttnrows room p nodes) (hset : Setting console ttnrows room) (fn : InpFn) (src : Source)
    (hadd : fn ≠ .inpaddvme) (htoggle : fn = .inptoggle → LastShown s)
    (hquit : fn = .inpquit → src ≠ .keyboard) :
    s.Proceeds ttnrows room p ((s.inpFn console fn src).map Prod.snd) := by
  have hown {next : Option (Session σ)} (hnext : s.Proceeds ttnrows room p next) :
      s.Proceeds ttnrows room p ((next.map fun s => (src, s)).map Prod.snd) := by
    obtain ⟨t, nodes', rfl, ht⟩ := hnext
    exact ⟨t, nodes', rfl, ht⟩
  cases fn with
  | inpdn => exact hown (h.cursor Buffers.budn h.budn (fun t => Buffers.moved_budn) .brdn)
  | inpup =>
    refine hown (h.cursor (fun bufs => some bufs.buup) ⟨_, rfl, h.buup⟩ (fun t ht => ?_) .brup)
    exact Option.some.inj ht ▸ Buffers.moved_buup s.bufs
  | inpright =>
    refine hown (h.cursor (fun bufs => some bufs.buright) ⟨s.bufs, rfl, h.toHeaded⟩ (fun t ht => ?_) .brright)
    exact Option.some.inj ht ▸ .refl s.bufs
  | inpleft =>
    refine hown (h.cursor (fun bufs => some bufs.buleft) ⟨s.bufs, rfl, h.toHeaded⟩ (fun t ht => ?_) .brleft)
    exact Option.some.inj ht ▸ .refl s.bufs
  | inppgup =>
    refine hown (h.cursor (fun bufs => some bufs.bupgup) ⟨_, rfl, h.bupgup⟩ (fun t ht => ?_) .brpgup)
    exact Option.some.inj ht ▸ ⟨rfl, rfl, Or.inl rfl⟩
  | inppgdn => exact hown (h.cursor Buffers.bupgdn h.bupgdn (fun t => Buffers.moved_bupgdn) .brpgdn)
  | inpcommand => exact hown (.refl h)
  | inphome =>
    obtain ⟨rest, hrest⟩ := h.exists_rest
    have hgoto := h.toHeaded.goto (q := p) (hrest ▸ List.mem_cons_self)
    rw [← h.head] at hgoto
    exact hown (h.moves (fun bufs => bufs.buffergoto bufs.gHeadbuf) hgoto fun t => Buffers.moved_buffergoto)
  | inpnext => exact hown (h.moves Buffers.buffernext h.buffernext fun t => Buffers.moved_buffernext)
  | inptoggle =>
    obtain ⟨q, hlast, hq⟩ := htoggle rfl
    have hgoto := h.toHeaded.goto (h.live q hq)
    rw [← hlast] at hgoto
    exact hown (h.moves Buffers.bufferback hgoto fun t => Buffers.moved_buffergoto)
  | inpquit =>
    cases src with
    | keyboard => exact absurd rfl (hquit rfl)
    | script tok => exact hown (.refl h)
  | inpaddvme => exact absurd rfl hadd
  | inpadddummy => exact hown (h.addDummy hset)
  | inpkill => exact hown h.inpkill.2

/-- What a function of a browser leaves. -/
theorem brFn (h : s.Sound ttnrows room p nodes) (hset : Setting console ttnrows room) (hcard : s.cards q = some card)
    {fn : BrFn} (hstep : s.brFn console fn q card src = some (src', t)) :
    t.Sound ttnrows room p nodes ∧ t.exited = s.exited := by
  obtain ⟨outside, card', hserves⟩ := exists_serves hset h.terminal hcard (h.fits q card hcard) hstep
  rw [hserves.state]
  exact ⟨(h.withOutside outside).put hcard hserves.fits hserves.same, rfl⟩

/-- What the current buffer does with a key or a word of its own. -/
theorem onCurrent (h : s.Sound ttnrows room p nodes) (hset : Setting console ttnrows room)
    {bu : Session σ → Option (Session σ)} (hbu : s.Proceeds ttnrows room p (bu s)) {br : Option BrFn}
    (hstep : s.onCurrent console bu br src = some (src', t)) :
    (∃ nodes', t.Sound ttnrows room p nodes') ∧ t.exited = s.exited := by
  obtain ⟨q, mode, -, hcurrent, hmode⟩ := h.exists_current
  rw [Session.onCurrent, hcurrent, Option.bind_some, hmode, Option.bind_some] at hstep
  cases mode with
  | bumode =>
    obtain ⟨u, nodes', hu, hsound, hexited⟩ := hbu
    dsimp only at hstep
    rw [hu] at hstep
    obtain ⟨-, rfl⟩ := Prod.mk.inj (Option.some.inj hstep)
    exact ⟨⟨nodes', hsound⟩, hexited⟩
  | brmode a =>
    cases br with
    | none =>
      obtain ⟨-, rfl⟩ := Prod.mk.inj (Option.some.inj hstep)
      exact ⟨⟨nodes, h⟩, rfl⟩
    | some fn =>
      obtain ⟨card, hcard, hstep⟩ := Option.bind_eq_some_iff.mp hstep
      obtain ⟨hsound, hexited⟩ := h.brFn hset hcard hstep
      exact ⟨⟨nodes, hsound⟩, hexited⟩

/-- A key that is not one of the whole program. -/
theorem keylookup (h : s.Sound ttnrows room p nodes) (hset : Setting console ttnrows room) {c : ℤ}
    (hstep : s.keylookup console c src = some (src', t)) :
    (∃ nodes', t.Sound ttnrows room p nodes') ∧ t.exited = s.exited := by
  refine h.onCurrent hset ?_ hstep
  split_ifs
  · exact h.moves Buffers.bugoto h.bugoto fun t => Buffers.moved_bugoto
  · exact .refl h

/-- What a function of `input.c` leaves: the program goes on, or it has ended at the keyboard. -/
theorem inpFn_cases (h : s.Sound ttnrows room p nodes) (hset : Setting console ttnrows room) {fn : InpFn}
    (hstep : s.inpFn console fn src = some (src', t)) :
    (∃ nodes', t.Sound ttnrows room p nodes') ∧ t.exited = s.exited ∨
      src = .keyboard ∧ t.exited = true ∧ t.Cleaned := by
  by_cases hquit : fn = .inpquit ∧ src = .keyboard
  · obtain ⟨rfl, rfl⟩ := hquit
    obtain ⟨u, hu, hexited, hcleaned⟩ := h.quit
    obtain ⟨v, hv, hafter⟩ := Option.map_eq_some_iff.mp hstep
    obtain ⟨-, rfl⟩ := Prod.mk.inj hafter
    obtain rfl := Option.some.inj (hu.symm.trans hv)
    exact Or.inr ⟨rfl, hexited, hcleaned⟩
  by_cases hadd : fn = .inpaddvme
  · subst hadd
    exact Or.inl (h.inpaddvme hset hstep)
  · left
    have htoggle : fn = .inptoggle → LastShown s := by
      rintro rfl
      obtain ⟨u, hu, -⟩ := Option.map_eq_some_iff.mp hstep
      obtain ⟨bufs, hbufs, -⟩ := Option.map_eq_some_iff.mp hu
      obtain ⟨shown, hshown, -⟩ := Option.map_eq_some_iff.mp hbufs
      obtain ⟨buf, hbuf, -⟩ := Option.bind_eq_some_iff.mp hshown
      obtain ⟨q, hlast, hq⟩ := Option.bind_eq_some_iff.mp hbuf
      exact ⟨q, hlast, Finmap.mem_iff.mpr ⟨buf, hq⟩⟩
    obtain ⟨u, nodes', hu, hsound, hexited⟩ :=
      h.inpFn hset fn src hadd htoggle fun hfn hsrc => hquit ⟨hfn, hsrc⟩
    rw [hstep] at hu
    obtain rfl := Option.some.inj hu
    exact ⟨⟨nodes', hsound⟩, hexited⟩

/-- What a word leaves. -/
theorem stringlookup_cases (h : s.Sound ttnrows room p nodes) (hset : Setting console ttnrows room)
    {name : List Octet} (hstep : s.stringlookup console name src = some (src', t)) :
    (∃ nodes', t.Sound ttnrows room p nodes') ∧ t.exited = s.exited ∨
      src = .keyboard ∧ t.exited = true ∧ t.Cleaned := by
  rw [stringlookup] at hstep
  split at hstep
  · exact h.inpFn_cases hset hstep
  · exact Or.inl (h.onCurrent hset (.refl h) hstep)

end Functions

end Sound

end Session

end V120.Tui
