import V120.Tui.Session

/-!
# The buffers of a session

The buffers are in their list, exactly the browsers have private data, each browser is at a position in its
region, and what was allocated for buffers and not freed is what belongs to those that are there. A new buffer
and the end of one keep this, and at the end of the program everything was freed once.
-/

namespace V120.Tui

open V120.Common V120.Vme

namespace Buffers

variable {s t : Buffers} {nodes : List Ptr} {p q : Ptr}

/-- No buffer was made or freed, the terminal is the same, and the display that was shown before is, or was the
current one. -/
structure Moved (s t : Buffers) : Prop where
  heap : t.heap = s.heap
  ttnrows : t.ttnrows = s.ttnrows
  last : t.gLastbuf = s.gLastbuf ∨ t.gLastbuf = s.gBuffer

/-- Nothing happens. -/
theorem Moved.refl (s : Buffers) : Moved s s := ⟨rfl, rfl, Or.inl rfl⟩

/-- The methods are as they were. -/
theorem Moved.modeAt (h : Moved s t) (q : Ptr) : t.modeAt q = s.modeAt q := by
  rw [Buffers.modeAt, Buffers.modeAt, h.heap]

/-- `buffergoto`. -/
theorem moved_buffergoto {q : Option Ptr} (h : s.buffergoto q = some t) : Moved s t := by
  obtain ⟨-, -, rfl⟩ := Option.map_eq_some_iff.mp h
  exact ⟨rfl, rfl, Or.inr rfl⟩

/-- `buffernext`. -/
theorem moved_buffernext (h : s.buffernext = some t) : Moved s t := by
  obtain ⟨current, -, hgoto⟩ := Option.bind_eq_some_iff.mp h
  exact moved_buffergoto hgoto

/-- `bugoto`. -/
theorem moved_bugoto (h : s.bugoto = some t) : Moved s t := by
  obtain ⟨p, -, hgoto⟩ := Option.bind_eq_some_iff.mp h
  cases p with
  | none => exact Option.some.inj hgoto ▸ .refl s
  | some p => exact moved_buffergoto hgoto

/-- `budn`. -/
theorem moved_budn (h : s.budn = some t) : Moved s t := by
  obtain ⟨cpos, rfl⟩ := exists_cursor_budn h
  exact ⟨rfl, rfl, Or.inl rfl⟩

/-- `bupgdn`. -/
theorem moved_bupgdn (h : s.bupgdn = some t) : Moved s t := by
  obtain ⟨cpos, rfl⟩ := exists_cursor_bupgdn h
  exact ⟨rfl, rfl, Or.inl rfl⟩

/-- `buup`. -/
theorem moved_buup (s : Buffers) : Moved s s.buup := by
  rw [buup]
  split_ifs
  · exact ⟨rfl, rfl, Or.inl rfl⟩
  · exact .refl s

/-- A buffer is in memory when it has methods. -/
theorem mem_heap_iff (q : Ptr) : q ∈ s.heap ↔ ∃ mode, s.modeAt q = some mode := by
  rw [Finmap.mem_iff]
  constructor
  · rintro ⟨buf, hbuf⟩
    exact ⟨buf.bMode, by rw [modeAt, hbuf, Option.map_some]⟩
  · rintro ⟨mode, hmode⟩
    obtain ⟨buf, hbuf, -⟩ := Option.map_eq_some_iff.mp hmode
    exact ⟨buf, hbuf⟩

/-- There are no methods where there is no buffer. -/
theorem modeAt_of_notMem (h : q ∉ s.heap) : s.modeAt q = none := by
  rw [Option.eq_none_iff_forall_ne_some]
  intro mode hmode
  exact h ((mem_heap_iff q).mpr ⟨mode, hmode⟩)

/-- A kill takes the buffer away and leaves the others as they are. -/
theorem Headed.bufferkill_modes (h : Headed p s nodes) (hq : q ∈ nodes) (hne : q ≠ p) :
    ∃ t nodes', s.bufferkill q = some t ∧ Headed p t nodes' ∧ t.ttnrows = s.ttnrows ∧ t.modeAt q = none ∧
      ∀ r, r ≠ q → t.modeAt r = s.modeAt r := by
  obtain ⟨t, nodes', ht, hheaded⟩ := h.bufferkill hq hne
  have hnotHead : s.gHeadbuf ≠ some q := fun hhead => hne (Option.some.inj (hhead.symm.trans h.head))
  obtain ⟨before, r, after, hnodes⟩ := h.list.exists_before hq hnotHead
  obtain ⟨t', ht', hlist, -, hmodes, -, -, -, hrows, hheap⟩ := bufferkill_spec (hnodes ▸ h.list)
  obtain rfl := Option.some.inj (ht'.symm.trans ht)
  refine ⟨t', nodes', ht, hheaded, hrows, ?_, ?_⟩
  · apply modeAt_of_notMem
    intro hkilled
    exact ((hheap q).mp hkilled).1 rfl
  · intro x hx
    by_cases hin : x ∈ s.heap
    · exact hmodes x (mem_unlinked (hnodes ▸ h.live x hin) hx)
    · have hout : x ∉ t'.heap := fun hxt => hin ((hheap x).mp hxt).2
      rw [modeAt_of_notMem hin, modeAt_of_notMem hout]

/-- The head of the list is taken out of it, as it is at the end of the program. -/
theorem bufferkill_head {rest : List Ptr} (h : LinkedList s.next s.gHeadbuf (p :: rest)) :
    ∃ t, s.bufferkill p = some t ∧ s.next p = some t.gHeadbuf ∧ LinkedList t.next t.gHeadbuf rest ∧
      t.ttnrows = s.ttnrows ∧ t.modeAt p = none ∧ ∀ r, r ≠ p → t.modeAt r = s.modeAt r := by
  have hnodup := h.nodup
  obtain ⟨hhead, link, hlink, hrest⟩ := h
  refine ⟨{ s with gHeadbuf := link, heap := s.heap.erase p }, ?_, hlink, ?_, rfl, ?_, fun r hr => ?_⟩
  · simp only [bufferkill, hhead, hlink, Option.bind_eq_bind, Option.bind_some, if_pos]
  · refine hrest.congr fun r hr => next_erase_of_ne s p ?_
    rintro rfl
    exact (List.nodup_cons.mp hnodup).1 hr
  · apply modeAt_of_notMem
    exact Finmap.notMem_erase_self
  · exact modeAt_erase_of_ne s p hr

/-- A new buffer has its methods, and the others keep theirs. -/
theorem modes_of_buffernew {mode : ModeT} (h : s.buffernew mode (some q) = some t) :
    q ∉ s.heap ∧ t.ttnrows = s.ttnrows ∧ t.modeAt q = some mode ∧ ∀ r, r ≠ q → t.modeAt r = s.modeAt r := by
  rw [buffernew] at h
  obtain ⟨hfresh, h⟩ : q ∉ s.heap ∧ _ := by simpa using h
  subst h
  refine ⟨hfresh, rfl, ?_, fun r hr => modeAt_insert_of_ne _ _ _ hr⟩
  rw [modeAt, Finmap.lookup_insert, Option.map_some]

/-- A shuffle changes no methods. -/
theorem modes_of_buffershuffle {b c : Ptr} {rest : List Ptr}
    (hlist : LinkedList s.next s.gHeadbuf (b :: c :: rest)) (h : s.buffershuffle = some t) :
    t.ttnrows = s.ttnrows ∧ ∀ r, t.modeAt r = s.modeAt r := by
  obtain ⟨t', ht', -, -, hmodes, -, -, -, hrows, -⟩ := buffershuffle_spec hlist
  obtain rfl := Option.some.inj (ht'.symm.trans h)
  exact ⟨hrows, hmodes⟩

end Buffers

/-- The buffer that something belongs to. -/
def Block.owner : Block → Ptr
  | .buffer q => q
  | .browser q => q
  | .base q => q

namespace Session

variable {σ : Type*} {s t : Session σ} {nodes : List Ptr} {p q : Ptr} {ttnrows : ℤ} {room : ℕ} {card card' : Card}

/-- The private data that was changed. -/
theorem put_cards_self : (s.put q card).cards q = some card := Function.update_self _ _ _

/-- Other private data. -/
theorem put_cards_of_ne {r : Ptr} (h : r ≠ q) : (s.put q card).cards r = s.cards r := Function.update_of_ne h _ _

/-- What belongs to the buffers that are there. -/
def Owns (s : Session σ) : Block → Prop
  | .buffer q => q ∈ s.bufs.heap
  | .browser q => ∃ card, s.cards q = some card
  | .base q => ∃ card, s.cards q = some card ∧ card.crateid < 0

/-- What belongs to a buffer depends on its methods and its private data. -/
theorem owns_congr {b : Block} (hmode : t.bufs.modeAt b.owner = s.bufs.modeAt b.owner)
    (hcard : t.cards b.owner = s.cards b.owner) : s.Owns b ↔ t.Owns b := by
  cases b with
  | buffer r =>
    change r ∈ s.bufs.heap ↔ r ∈ t.bufs.heap
    change t.bufs.modeAt r = s.bufs.modeAt r at hmode
    rw [Buffers.mem_heap_iff, Buffers.mem_heap_iff, hmode]
  | browser r =>
    change (∃ card, s.cards r = some card) ↔ ∃ card, t.cards r = some card
    change t.cards r = s.cards r at hcard
    rw [hcard]
  | base r =>
    change (∃ card, s.cards r = some card ∧ _) ↔ ∃ card, t.cards r = some card ∧ _
    change t.cards r = s.cards r at hcard
    rw [hcard]

/-- Nothing belongs to a buffer that is not there. -/
theorem not_owns {b : Block} (hmode : s.bufs.modeAt b.owner = none) (hcard : s.cards b.owner = none) :
    ¬s.Owns b := by
  cases b with
  | buffer r =>
    intro hr
    obtain ⟨mode, hmode'⟩ := (Buffers.mem_heap_iff r).mp hr
    cases hmode.symm.trans hmode'
  | browser r =>
    rintro ⟨card, hcard'⟩
    cases hcard.symm.trans hcard'
  | base r =>
    rintro ⟨card, hcard', -⟩
    cases hcard.symm.trans hcard'

/-- What belongs to a browser. -/
theorem mem_blocksOf {crateid : ℤ} {b : Block} :
    b ∈ blocksOf p crateid ↔ b = .base p ∧ crateid < 0 ∨ b = .browser p ∨ b = .buffer p := by
  rw [blocksOf, List.mem_append, List.mem_cons, List.mem_singleton]
  split_ifs with hdummy
  · simp only [List.mem_singleton, hdummy, and_true]
  · simp only [List.not_mem_nil, hdummy, and_false]

/-- Each of it is something else. -/
theorem nodup_blocksOf (p : Ptr) (crateid : ℤ) : (blocksOf p crateid).Nodup := by
  rw [blocksOf]
  split_ifs
  · simp
  · simp

/-- All blocks of a buffer belong to it. -/
theorem owner_of_mem_blocksOf {crateid : ℤ} {b : Block} (hb : b ∈ blocksOf p crateid) : b.owner = p := by
  rcases mem_blocksOf.mp hb with ⟨rfl, -⟩ | rfl | rfl
  · rfl
  · rfl
  · rfl

/-- What belongs to a buffer, each of it once. -/
structure Has (q : Ptr) (s : Session σ) (blocks : List Block) : Prop where
  nodup : blocks.Nodup
  owner : ∀ b ∈ blocks, b.owner = q
  owns : ∀ b, b.owner = q → (s.Owns b ↔ b ∈ blocks)

/-- A browser with its buffer. -/
theorem has_of_card {mode : ModeT} (hmode : s.bufs.modeAt q = some mode) (hcard : s.cards q = some card) :
    Has q s (blocksOf q card.crateid) := by
  refine ⟨nodup_blocksOf q card.crateid, fun b => owner_of_mem_blocksOf, fun b hb => ?_⟩
  subst hb
  rw [mem_blocksOf]
  cases b with
  | buffer r => exact iff_of_true ((Buffers.mem_heap_iff r).mpr ⟨mode, hmode⟩) (Or.inr (Or.inr rfl))
  | browser r => exact iff_of_true ⟨card, hcard⟩ (Or.inr (Or.inl rfl))
  | base r =>
    constructor
    · rintro ⟨other, hother, hdummy⟩
      obtain rfl := Option.some.inj (hcard.symm.trans hother)
      exact Or.inl ⟨rfl, hdummy⟩
    · rintro (⟨-, hdummy⟩ | hbrowser | hbuffer)
      · exact ⟨card, hcard, hdummy⟩
      · cases hbrowser
      · cases hbuffer

/-- A buffer without private data. -/
theorem has_buffer {mode : ModeT} (hmode : s.bufs.modeAt q = some mode) (hnone : s.cards q = none) :
    Has q s [.buffer q] := by
  refine ⟨List.nodup_singleton _, fun b hb => List.mem_singleton.mp hb ▸ rfl, fun b hb => ?_⟩
  subst hb
  rw [List.mem_singleton]
  cases b with
  | buffer r => exact iff_of_true ((Buffers.mem_heap_iff r).mpr ⟨mode, hmode⟩) rfl
  | browser r =>
    refine iff_of_false ?_ fun heq => by cases heq
    rintro ⟨card, hcard⟩
    cases hnone.symm.trans hcard
  | base r =>
    refine iff_of_false ?_ fun heq => by cases heq
    rintro ⟨card, hcard, -⟩
    cases hnone.symm.trans hcard

/-- Nothing changes but what belongs to one buffer. -/
structure Beside (q : Ptr) (s t : Session σ) : Prop where
  ttnrows : t.bufs.ttnrows = s.bufs.ttnrows
  modes : ∀ r, r ≠ q → t.bufs.modeAt r = s.bufs.modeAt r
  cards : ∀ r, r ≠ q → t.cards r = s.cards r

/-- The browsers are the buffers that have private data, for the region that their methods know; each of them is
at a position in its region; and what is allocated is what belongs to the buffers. -/
structure Stocked (ttnrows : ℤ) (room : ℕ) (s : Session σ) : Prop where
  terminal : s.bufs.ttnrows = ttnrows
  browsers : ∀ q a, s.bufs.modeAt q = some (.brmode a) ↔
    ∃ card, s.cards q = some card ∧ card.buf.br.region.vmeAddr = a
  fits : ∀ q card, s.cards q = some card → card.Fits ttnrows room
  account : HeldExactly s.log s.Owns

/-- The buffers are in their list, too, which begins with the buffer list. -/
structure Sound (ttnrows : ℤ) (room : ℕ) (p : Ptr) (s : Session σ) (nodes : List Ptr) : Prop
    extends Buffers.Headed p s.bufs nodes, Stocked ttnrows room s

/-- No buffer is left, and what was allocated for buffers was freed, once each time. -/
structure Cleaned (s : Session σ) : Prop where
  heap : ∀ q, q ∉ s.bufs.heap
  balanced : Balanced s.log

/-- There is a next state, in which all is as it should be and the program goes on if it did. -/
def Proceeds (ttnrows : ℤ) (room : ℕ) (p : Ptr) (s : Session σ) (next : Option (Session σ)) : Prop :=
  ∃ t nodes, next = some t ∧ t.Sound ttnrows room p nodes ∧ t.exited = s.exited

/-- Nothing happens. -/
theorem Proceeds.refl (h : s.Sound ttnrows room p nodes) : s.Proceeds ttnrows room p (some s) :=
  ⟨s, nodes, rfl, h, rfl⟩

/-- What a terminal and an RNM file may be: there are four rows of registers at least, a dummy card fills the
screen, and every register of a file is in every region. -/
structure Setting (console : Console σ) (ttnrows : ℤ) (room : ℕ) : Prop where
  rows : 9 ≤ ttnrows
  screen : ttnrows ≤ 2053
  least : 128 ≤ room
  most : room ≤ 32768
  rnms : ∀ name outside rnm, (console.rnmparse name outside).1 = some rnm → RnmFits room rnm

namespace Setting

variable {console : Console σ}

/-- A region of rows that is as long as a dummy card fills the screen. -/
theorem fillsScreen (h : Setting console ttnrows room) {region : VmeRegion} (hmultiple : 16 ∣ region.len.toNat)
    (hlong : 32768 ≤ region.len.toNat) (hshort : region.len.toNat < 2 ^ 31) : FillsScreen ttnrows region := by
  have hrows := h.rows
  have hscreen := h.screen
  constructor
  · rw [btnrows, rowTag]
    omega
  · exact hmultiple
  · exact hshort
  · rw [btnrows, rowTag]
    omega

/-- The region of a card is 64 KiB long. -/
theorem len_vmeRegion (vmeaddr : BitVec 32) : (Session.vmeRegion vmeaddr).len.toNat = 65536 := rfl

/-- A card fills the screen. -/
theorem vmeRegion (h : Setting console ttnrows room) (vmeaddr : BitVec 32) :
    FillsScreen ttnrows (Session.vmeRegion vmeaddr) := by
  have hlen := len_vmeRegion vmeaddr
  apply h.fillsScreen <;> omega

/-- A dummy card does. -/
theorem dummyRegion (h : Setting console ttnrows room) : FillsScreen ttnrows Session.dummyRegion :=
  h.fillsScreen (by decide) (by decide) (by decide)

/-- There are four rows of registers. -/
theorem fourRows (h : Setting console ttnrows room) : FourRows ttnrows := by
  have hrows := h.rows
  rw [FourRows, btnrows, rowTag]
  omega

end Setting

namespace Stocked

/-- The browser of a buffer. -/
theorem exists_card (h : s.Stocked ttnrows room) {a : BitVec 64} (hmode : s.bufs.modeAt q = some (.brmode a)) :
    ∃ card, s.cards q = some card :=
  ((h.browsers q a).mp hmode).imp fun _ hcard => hcard.1

/-- The methods of the buffer of a browser. -/
theorem mode_of_card (h : s.Stocked ttnrows room) (hcard : s.cards q = some card) :
    s.bufs.modeAt q = some (.brmode card.buf.br.region.vmeAddr) :=
  (h.browsers q card.buf.br.region.vmeAddr).mpr ⟨card, hcard, rfl⟩

/-- Another state of everything else. -/
theorem withOutside (h : s.Stocked ttnrows room) (outside : σ) : (s.withOutside outside).Stocked ttnrows room :=
  ⟨h.terminal, h.browsers, h.fits, h.account⟩

/-- Other links and pointers between the buffers. -/
theorem withBufs (h : s.Stocked ttnrows room) {bufs : Buffers} (hrows : bufs.ttnrows = s.bufs.ttnrows)
    (hmodes : ∀ q, bufs.modeAt q = s.bufs.modeAt q) : (s.withBufs bufs).Stocked ttnrows room := by
  refine ⟨hrows.trans h.terminal, fun q a => ?_, h.fits, h.account.congr fun b => ?_⟩
  · exact (hmodes q).symm ▸ h.browsers q a
  · exact owns_congr (hmodes b.owner) rfl

/-- The private data of a browser changes, but not its region and its crate. -/
theorem put (h : s.Stocked ttnrows room) (hcard : s.cards q = some card) (hfits : card'.Fits ttnrows room)
    (hsame : card.Same card') : (s.put q card').Stocked ttnrows room := by
  -- what is asked of a browser and does not change
  have hiff (r : Ptr) {P : Card → Prop} (hP : P card' ↔ P card) :
      (∃ other, (s.put q card').cards r = some other ∧ P other) ↔ ∃ other, s.cards r = some other ∧ P other := by
    by_cases hr : r = q
    · subst hr
      simp only [put_cards_self, hcard, Option.some.injEq, exists_eq_left', hP]
    · rw [put_cards_of_ne hr]
  refine ⟨h.terminal, fun r a => ?_, fun r other hr => ?_, h.account.congr fun b => ?_⟩
  · refine (h.browsers r a).trans (hiff r ?_).symm
    rw [hsame.region]
  · by_cases hrq : r = q
    · subst hrq
      rw [put_cards_self] at hr
      exact Option.some.inj hr ▸ hfits
    · rw [put_cards_of_ne hrq] at hr
      exact h.fits r other hr
  · cases b with
    | buffer r => exact Iff.rfl
    | browser r =>
      have hbrowser := hiff r (P := fun _ => True) Iff.rfl
      simp only [and_true] at hbrowser
      exact hbrowser.symm
    | base r => exact (hiff r (by rw [hsame.crateid])).symm

/-- Another buffer, or none, where one was. -/
theorem beside (h : s.Stocked ttnrows room) (hbeside : Beside q s t)
    (hbrowser : ∀ a, t.bufs.modeAt q = some (.brmode a) ↔
      ∃ card, t.cards q = some card ∧ card.buf.br.region.vmeAddr = a)
    (hfits : ∀ card, t.cards q = some card → card.Fits ttnrows room) (haccount : HeldExactly t.log t.Owns) :
    t.Stocked ttnrows room := by
  refine ⟨hbeside.ttnrows.trans h.terminal, fun r a => ?_, fun r card hcard => ?_, haccount⟩
  · by_cases hr : r = q
    · exact hr ▸ hbrowser a
    · rw [hbeside.modes r hr, hbeside.cards r hr]
      exact h.browsers r a
  · by_cases hr : r = q
    · exact hfits card (hr ▸ hcard)
    · exact h.fits r card ((hbeside.cards r hr).symm.trans hcard)

/-- A buffer is gone, and what belongs to it is freed. -/
theorem remove (h : s.Stocked ttnrows room) {blocks : List Block} (hblocks : s.Has q blocks)
    (hbeside : Beside q s t) (hmode : t.bufs.modeAt q = none) (hnone : t.cards q = none)
    (hlog : t.log = s.log ++ blocks.map .release) : t.Stocked ttnrows room := by
  refine h.beside hbeside (fun a => ?_) (fun card hcard => ?_) ?_
  · rw [hmode, hnone]
    constructor
    · intro hsome
      cases hsome
    · rintro ⟨card, hsome, -⟩
      cases hsome
  · cases hnone.symm.trans hcard
  · have howned : ∀ b ∈ blocks, s.Owns b := fun b hb => (hblocks.owns b (hblocks.owner b hb)).mpr hb
    rw [hlog]
    refine (h.account.releases hblocks.nodup howned).congr fun b => ?_
    by_cases hb : b.owner = q
    · rw [hblocks.owns b hb]
      exact iff_of_false (fun hin => hin.2 hin.1) (not_owns (hb ▸ hmode) (hb ▸ hnone))
    · refine Iff.trans (and_iff_left fun hin => hb (hblocks.owner b hin)) ?_
      exact owns_congr (hbeside.modes b.owner hb) (hbeside.cards b.owner hb)

/-- What belongs to a new buffer is allocated. -/
theorem account_insert (h : s.Stocked ttnrows room) (hgone : s.bufs.modeAt q = none) {blocks : List Block}
    (hblocks : t.Has q blocks) (hbeside : Beside q s t) (hlog : t.log = s.log ++ blocks.map .acquire) :
    HeldExactly t.log t.Owns := by
  have hnone : s.cards q = none := by
    rw [Option.eq_none_iff_forall_ne_some]
    intro old hold
    cases hgone.symm.trans (h.mode_of_card hold)
  have hunowned : ∀ b ∈ blocks, ¬s.Owns b := by
    intro b hb
    have howner := hblocks.owner b hb
    exact not_owns (howner.symm ▸ hgone) (howner.symm ▸ hnone)
  rw [hlog]
  refine (h.account.acquires hblocks.nodup hunowned).congr fun b => ?_
  by_cases hb : b.owner = q
  · rw [hblocks.owns b hb]
    exact or_iff_right (not_owns (hb ▸ hgone) (hb ▸ hnone))
  · refine Iff.trans (or_iff_left fun hin => hb (hblocks.owner b hin)) ?_
    exact owns_congr (hbeside.modes b.owner hb) (hbeside.cards b.owner hb)

/-- A browser is new, and what belongs to it is allocated. -/
theorem insert (h : s.Stocked ttnrows room) (hgone : s.bufs.modeAt q = none) (hbeside : Beside q s t)
    (hmode : t.bufs.modeAt q = some (.brmode card.buf.br.region.vmeAddr)) (hcard : t.cards q = some card)
    (hfits : card.Fits ttnrows room) (hlog : t.log = s.log ++ (blocksOf q card.crateid).map .acquire) :
    t.Stocked ttnrows room := by
  refine h.beside hbeside (fun a => ?_) (fun other hother => ?_) ?_
  · simp only [hmode, hcard, Option.some.injEq, ModeT.brmode.injEq, exists_eq_left']
  · exact Option.some.inj (hcard.symm.trans hother) ▸ hfits
  · exact h.account_insert hgone (has_of_card hmode hcard) hbeside hlog

/-- A new browser for a region that fills the screen, if there is memory for it. -/
theorem browsernew (h : s.Stocked ttnrows room) (console : Console σ) {region : VmeRegion}
    (hscreen : FillsScreen ttnrows region) (hroom : room ≤ region.len.toNat) (hleast : 128 ≤ room)
    {metadata : Option RnmT} (hrnm : ∀ rnm, metadata = some rnm → RnmFits room rnm) (crateid : ℤ)
    (regs : ℕ → Octet) :
    ∃ new t, s.browsernew console region metadata crateid regs = some (new, t) ∧ t.Stocked ttnrows room ∧
      t.exited = s.exited ∧
      match new with
      | false => t.bufs = s.bufs
      | true => ∃ q, q ∉ s.bufs.heap ∧ s.bufs.buffernew (.brmode region.vmeAddr) (some q) = some t.bufs := by
  rw [Session.browsernew]
  have hfresh := console.fresh s.bufs.heap.keys s.outside
  cases hanswer : console.newBuffer s.bufs.heap.keys s.outside with
  | mk answer outside =>
    rw [hanswer] at hfresh
    cases answer with
    | none => exact ⟨false, _, rfl, h.withOutside outside, rfl, rfl⟩
    | some q =>
      have hunused : q ∉ s.bufs.heap := fun hused => hfresh q rfl (Finmap.mem_keys.mpr hused)
      obtain ⟨bufs, hnew⟩ : ∃ bufs, s.bufs.buffernew (.brmode region.vmeAddr) (some q) = some bufs := by
        rw [Buffers.buffernew]
        exact ⟨_, if_neg hunused⟩
      obtain ⟨-, hrows, hmode, hmodes⟩ := Buffers.modes_of_buffernew hnew
      have hfits := Card.ofRegion_fits console.uninitialised hscreen hroom hleast hrnm crateid regs
      have hregion := (browsernew_inside hscreen console.uninitialised metadata).region
      dsimp only
      rw [hnew, Option.map_some, h.terminal]
      refine ⟨true, _, rfl, ?_, rfl, q, hunused, hnew⟩
      apply h.insert (Buffers.modeAt_of_notMem hunused) ?_ ?_ (Function.update_self _ _ _) hfits rfl
      · exact ⟨hrows, hmodes, fun r hr => Function.update_of_ne hr _ _⟩
      · exact hmode.trans (congrArg (fun region => some (ModeT.brmode region.vmeAddr)) hregion.symm)

/-- The buffer list has no private data. -/
theorem card_of_bumode (h : s.Stocked ttnrows room) (hmode : s.bufs.modeAt q = some .bumode) :
    s.cards q = none := by
  rw [Option.eq_none_iff_forall_ne_some]
  intro card hcard
  cases hmode.symm.trans (h.mode_of_card hcard)

/-- The first buffer of the list is freed with what belongs to it. -/
theorem mQuit (h : s.Stocked ttnrows room) {rest : List Ptr}
    (hlist : LinkedList s.bufs.next s.bufs.gHeadbuf (q :: rest)) :
    ∃ t, s.mQuit q = some t ∧ s.bufs.next q = some t.bufs.gHeadbuf ∧ t.Stocked ttnrows room ∧
      LinkedList t.bufs.next t.bufs.gHeadbuf rest ∧ t.exited = s.exited ∧
      ∀ r ∈ t.bufs.heap, r ∈ s.bufs.heap ∧ r ≠ q := by
  obtain ⟨bufs, hkill, hnext, hrest, hrows, hgone, hmodes⟩ := Buffers.bufferkill_head hlist
  obtain ⟨buf, hbuf⟩ := Buffers.exists_buffer hlist List.mem_cons_self
  have hmode : s.bufs.modeAt q = some buf.bMode := by rw [Buffers.modeAt, hbuf, Option.map_some]
  have hheap : ∀ r ∈ bufs.heap, r ∈ s.bufs.heap ∧ r ≠ q := by
    intro r hr
    obtain ⟨mode, hr⟩ := (Buffers.mem_heap_iff r).mp hr
    have hne : r ≠ q := by
      rintro rfl
      cases hgone.symm.trans hr
    exact ⟨(Buffers.mem_heap_iff r).mpr ⟨mode, (hmodes r hne).symm.trans hr⟩, hne⟩
  rw [Session.mQuit, hmode, Option.bind_some]
  cases hbufMode : buf.bMode with
  | bumode =>
    have hnone := h.card_of_bumode (hmode.trans (congrArg some hbufMode))
    have hquit : s.buquit q = some { s with
        bufs := bufs, log := s.log ++ [Block.buffer q].map .release } := by
      rw [buquit, hkill, Option.map_some]
    refine ⟨_, hquit, hnext, h.remove (has_buffer hmode hnone) ?_ hgone hnone rfl, hrest, rfl, hheap⟩
    exact ⟨hrows, hmodes, fun r _ => rfl⟩
  | brmode a =>
    obtain ⟨card, hcard⟩ := h.exists_card (hmode.trans (congrArg some hbufMode))
    have hquit : s.brquit q = some { s with
        bufs := bufs
        cards := Function.update s.cards q none
        log := s.log ++ (blocksOf q card.crateid).map .release } := by
      rw [Session.brquit, hcard, Option.bind_some, hkill, Option.map_some]
    refine ⟨_, hquit, hnext, h.remove (has_of_card hmode hcard) ?_ hgone ?_ rfl, hrest, rfl, hheap⟩
    · exact ⟨hrows, hmodes, fun r hr => Function.update_of_ne hr _ _⟩
    · exact Function.update_self _ _ _

/-- The loop frees every buffer that is in the list, and ends. -/
theorem bufferclean (h : s.Stocked ttnrows room) {turns : ℕ}
    (hlist : LinkedList s.bufs.next s.bufs.gHeadbuf nodes) (hlive : ∀ r ∈ s.bufs.heap, r ∈ nodes)
    (hturns : nodes.length ≤ turns) :
    ∃ t, bufferclean turns s.bufs.gHeadbuf s = some t ∧ t.exited = s.exited ∧ Cleaned t := by
  induction nodes generalizing s turns with
  | nil =>
    have hhead : s.bufs.gHeadbuf = none := hlist
    have hempty : ∀ r, r ∉ s.bufs.heap := fun r hr => List.not_mem_nil (hlive r hr)
    rw [hhead, Session.bufferclean.eq_1]
    refine ⟨_, rfl, rfl, hempty, h.account.balanced fun b hb => ?_⟩
    have hmode : s.bufs.modeAt b.owner = none := Buffers.modeAt_of_notMem (hempty b.owner)
    refine not_owns hmode ?_ hb
    rw [Option.eq_none_iff_forall_ne_some]
    intro card hcard
    cases hmode.symm.trans (h.mode_of_card hcard)
  | cons q rest ih =>
    cases turns with
    | zero => exact absurd hturns (Nat.not_succ_le_zero _)
    | succ turns =>
      obtain ⟨t, hquit, hnext, hstocked, hrest, hexited, hheap⟩ := h.mQuit hlist
      have hlive' : ∀ r ∈ t.bufs.heap, r ∈ rest := by
        intro r hr
        obtain ⟨hr, hne⟩ := hheap r hr
        exact (List.mem_cons.mp (hlive r hr)).resolve_left hne
      obtain ⟨u, hclean, hexited', hcleaned⟩ := ih hstocked hrest hlive' (Nat.le_of_succ_le_succ hturns)
      refine ⟨u, ?_, hexited'.trans hexited, hcleaned⟩
      have hhead : s.bufs.gHeadbuf = some q := hlist.1
      rw [hhead, Session.bufferclean, hnext, Option.bind_some, hquit, Option.bind_some]
      exact hclean

end Stocked

end Session

end V120.Tui
