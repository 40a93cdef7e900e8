import V120.Common.Runs
import V120.Tui.Buffers

/-!
# The pointers into the buffer list

`gbl` points to the current buffer and to the one before it, and a buffer can be killed from itself or
from the buffer list. A kill from the buffer itself moves both pointers to its predecessor in the list; a
kill from the buffer list moves neither, and when it is aimed at the buffer that `g_lastbuf` points to,
that pointer is left behind in freed memory. In every run both pointers stay in the list exactly when no
step is such a kill.
-/

namespace V120.Tui

open V120.Common

namespace Buffers

/-- The methods of the buffer at an address. -/
def modeAt (s : Buffers) (p : Ptr) : Option ModeT := (s.heap.lookup p).map BufferT.bMode

/-- A list from the head with the current buffer and the one before it on it. -/
structure Members (s : Buffers) (nodes : List Ptr) : Prop where
  list : LinkedList s.next s.gHeadbuf nodes
  current : ∃ p ∈ nodes, s.gBuffer = some p
  last : ∃ p ∈ nodes, s.gLastbuf = some p

/-- Both pointers are in the list, and neither `bufferback` nor the display loop follows a pointer that
leads nowhere. -/
structure Kept (s : Buffers) : Prop where
  members : ∃ nodes, s.Members nodes
  back : s.bufferback.isSome
  display : s.display.isSome

/-- Both pointers are in the list, and its head is a buffer that no kill removes. -/
structure Intact (s : Buffers) (nodes : List Ptr) : Prop extends Members s nodes where
  head : ∃ p mode, s.gHeadbuf = some p ∧ s.modeAt p = some mode ∧ mode.killable = false

variable {s t : Buffers} {nodes : List Ptr}

/-- There is a buffer at every address of the list. -/
theorem exists_buffer (h : LinkedList s.next s.gHeadbuf nodes) {p : Ptr} (hp : p ∈ nodes) :
    ∃ buf, s.heap.lookup p = some buf := by
  obtain ⟨link, hlink⟩ := h.exists_link hp
  obtain ⟨buf, hbuf, -⟩ := Option.map_eq_some_iff.mp hlink
  exact ⟨buf, hbuf⟩

/-- The list is no longer than there are buffers in memory. -/
theorem length_le_card (h : LinkedList s.next s.gHeadbuf nodes) : nodes.length ≤ s.heap.keys.card := by
  rw [← List.toFinset_card_of_nodup h.nodup]
  refine Finset.card_le_card fun p hp => Finmap.mem_keys.mpr (Finmap.mem_iff.mpr ?_)
  exact exists_buffer h (List.mem_toFinset.mp hp)

section Writes

variable (s) (p : Ptr) (buf : BufferT) {r : Ptr}

/-- The link of a buffer that was just written. -/
theorem next_insert : { s with heap := s.heap.insert p buf }.next p = some buf.bNext := by
  rw [next, Finmap.lookup_insert, Option.map_some]

/-- The link of another buffer. -/
theorem next_insert_of_ne (h : r ≠ p) : { s with heap := s.heap.insert p buf }.next r = s.next r := by
  rw [next, next, Finmap.lookup_insert_of_ne _ h]

/-- The link of a buffer that is not the freed one. -/
theorem next_erase_of_ne (h : r ≠ p) : { s with heap := s.heap.erase p }.next r = s.next r := by
  rw [next, next, Finmap.lookup_erase_ne h]

/-- The methods of a buffer that is not the freed one. -/
theorem modeAt_erase_of_ne (h : r ≠ p) : { s with heap := s.heap.erase p }.modeAt r = s.modeAt r := by
  rw [modeAt, modeAt, Finmap.lookup_erase_ne h]

/-- The methods of another buffer than the new one. -/
theorem modeAt_insert_of_ne (h : r ≠ p) :
    { s with heap := s.heap.insert p buf }.modeAt r = s.modeAt r := by
  rw [modeAt, modeAt, Finmap.lookup_insert_of_ne _ h]

end Writes

/-- No buffer comes into memory when one that is there is written. -/
theorem mem_insert_iff {p : Ptr} {buf : BufferT} (hbuf : s.heap.lookup p = some buf) (buf' : BufferT)
    (r : Ptr) : r ∈ s.heap.insert p buf' ↔ r ∈ s.heap := by
  rw [Finmap.mem_insert]
  refine or_iff_right_of_imp fun hr => ?_
  exact hr ▸ Finmap.mem_iff.mpr ⟨buf, hbuf⟩

/-- Writing the link of a buffer that is there. -/
theorem setNext_eq {p : Ptr} {buf : BufferT} (hbuf : s.heap.lookup p = some buf) (link : Option Ptr) :
    s.setNext p link = some { s with heap := s.heap.insert p { buf with bNext := link } } := by
  rw [setNext, hbuf, Option.map_some]

/-- A buffer keeps its methods when its link is written. -/
theorem modeAt_setNext {p : Ptr} {buf : BufferT} (hbuf : s.heap.lookup p = some buf) (link : Option Ptr)
    (r : Ptr) :
    { s with heap := s.heap.insert p { buf with bNext := link } }.modeAt r = s.modeAt r := by
  by_cases hr : r = p
  · subst hr
    rw [modeAt, modeAt, Finmap.lookup_insert, hbuf, Option.map_some, Option.map_some]
  · exact modeAt_insert_of_ne s p _ hr

/-- A buffer of the list can be shown. -/
theorem display_eq (h : LinkedList s.next s.gHeadbuf nodes) {p : Ptr} (hp : p ∈ nodes)
    (hcurrent : s.gBuffer = some p) : s.display = some () := by
  obtain ⟨buf, hbuf⟩ := exists_buffer h hp
  rw [display, deref, hcurrent, Option.bind_some, hbuf]
  cases hmode : buf.bMode with
  | bumode => simp only [Option.bind_eq_bind, Option.bind_some, hmode, busplash, h.walk_eq, Option.map_some]
  | brmode vmeAddr => simp only [Option.bind_eq_bind, Option.bind_some, hmode]

/-- Going to a buffer of the list. -/
theorem buffergoto_eq (h : LinkedList s.next s.gHeadbuf nodes) {p : Ptr} (hp : p ∈ nodes) :
    s.buffergoto (some p) = some { s with gLastbuf := s.gBuffer, gBuffer := some p } := by
  have hshown : { s with gLastbuf := s.gBuffer, gBuffer := some p }.display = some () := by
    refine display_eq ?_ hp rfl
    exact h
  rw [buffergoto, hshown, Option.map_some]

/-- The buffer at a position is on the list, or there is none. -/
theorem pos2buf_eq (h : LinkedList s.next s.gHeadbuf nodes) {head : Ptr} (hhead : s.gHeadbuf = some head)
    (pos : ℤ) : s.pos2buf pos = some nodes[pos.toNat]? := by
  by_cases hpos : 0 < pos
  · obtain ⟨k, hk⟩ : ∃ k, pos.toNat = k + 1 := ⟨pos.toNat - 1, by omega⟩
    have hwalk := h.walk_eq (k + 1)
    rw [hhead, walk] at hwalk
    rw [pos2buf, if_pos hpos, hhead, Option.bind_some, hk, Nat.add_sub_cancel]
    exact hwalk
  · rw [pos2buf, if_neg hpos, Int.toNat_of_nonpos (Int.not_lt.mp hpos)]
    exact h.walk_eq 0

namespace Intact

/-- What a state with both pointers in the list allows. -/
theorem kept (h : s.Intact nodes) : s.Kept := by
  obtain ⟨p, hp, hcurrent⟩ := h.current
  obtain ⟨q, hq, hlast⟩ := h.last
  refine ⟨⟨nodes, h.toMembers⟩, ?_, ?_⟩
  · rw [bufferback, hlast, buffergoto_eq h.list hq]
    rfl
  · rw [display_eq h.list hp hcurrent]
    rfl

/-- The cursor and the terminal do not matter. -/
theorem setCursor (h : s.Intact nodes) (cpos ttnrows : ℤ) :
    { s with cpos := cpos, ttnrows := ttnrows }.Intact nodes :=
  ⟨⟨h.list, h.current, h.last⟩, h.head⟩

/-- Going to a buffer of the list keeps both pointers in it. -/
theorem goto (h : s.Intact nodes) {p : Ptr} (hp : p ∈ nodes) (hstep : s.buffergoto (some p) = some t) :
    t.Intact nodes := by
  rw [buffergoto_eq h.list hp] at hstep
  obtain rfl := Option.some.inj hstep
  exact ⟨⟨h.list, ⟨p, hp, rfl⟩, h.current⟩, h.head⟩

end Intact

/-- The first two buffers of the list change places, and nothing else changes. -/
theorem buffershuffle_spec {b c : Ptr} {rest : List Ptr}
    (h : LinkedList s.next s.gHeadbuf (b :: c :: rest)) :
    ∃ t, s.buffershuffle = some t ∧ LinkedList t.next (some c) (c :: b :: rest) ∧ t.gHeadbuf = some c ∧
      (∀ r, t.modeAt r = s.modeAt r) ∧ t.gBuffer = s.gBuffer ∧ t.gLastbuf = s.gLastbuf ∧
      t.cpos = s.cpos ∧ t.ttnrows = s.ttnrows ∧ ∀ r, r ∈ t.heap ↔ r ∈ s.heap := by
  obtain ⟨bufB, hbufB⟩ := exists_buffer h List.mem_cons_self
  obtain ⟨bufC, hbufC⟩ := exists_buffer h (List.mem_cons_of_mem _ List.mem_cons_self)
  have hhead : s.gHeadbuf = some b := h.1
  have hnextB : s.next b = some (some c) := by
    obtain ⟨-, link, hlink, hrest⟩ := h
    rw [hlink, hrest.1]
  have hnextC : s.next c = some bufC.bNext := by rw [next, hbufC, Option.map_some]
  obtain ⟨hb, hc⟩ := List.nodup_cons.mp h.nodup
  have hne : c ≠ b := fun hcb => hb (hcb ▸ List.mem_cons_self)
  let u : Buffers := { s with heap := s.heap.insert b { bufB with bNext := bufC.bNext } }
  have hbufC' : u.heap.lookup c = some bufC := (Finmap.lookup_insert_of_ne _ hne).trans hbufC
  have hnextB' : u.next b = s.next c := (next_insert _ _ _).trans hnextC.symm
  let t : Buffers := { u with heap := u.heap.insert c { bufC with bNext := some b }, gHeadbuf := some c }
  have hother {r : Ptr} (hr : r ≠ c) : t.next r = u.next r := next_insert_of_ne u c _ hr
  refine ⟨t, ?_, h.swap ((hother hne.symm).trans hnextB') (next_insert u c _) fun r hr => ?_, rfl,
    fun r => (modeAt_setNext hbufC' _ r).trans (modeAt_setNext hbufB _ r), rfl, rfl, rfl, rfl,
    fun r => (mem_insert_iff hbufC' _ r).trans (mem_insert_iff hbufB _ r)⟩
  · rw [buffershuffle, hhead]
    simp only [hnextB, hnextC, Option.bind_eq_bind, Option.bind_some, setNext_eq hbufB]
    rw [setNext_eq hbufC']
    rfl
  · have hrb : r ≠ b := fun hrb => hb (hrb ▸ List.mem_cons_of_mem _ hr)
    have hrc : r ≠ c := fun hrc => (List.nodup_cons.mp hc).1 (hrc ▸ hr)
    rw [hother hrc, next_insert_of_ne s b _ hrb]

/-- A new buffer is the head of the list, and the old ones are as they were. -/
theorem buffernew_spec (h : LinkedList s.next s.gHeadbuf nodes) {mode : ModeT} {p : Ptr}
    (hstep : s.buffernew mode (some p) = some t) :
    p ∉ nodes ∧ LinkedList t.next t.gHeadbuf (p :: nodes) ∧ t.gHeadbuf = some p ∧ t.modeAt p = some mode ∧
      (∀ r ∈ nodes, t.modeAt r = s.modeAt r) ∧ t.gBuffer = s.gBuffer ∧ t.gLastbuf = s.gLastbuf ∧
      t.cpos = s.cpos ∧ t.ttnrows = s.ttnrows ∧ ∀ r, r ∈ t.heap ↔ r = p ∨ r ∈ s.heap := by
  rw [buffernew] at hstep
  obtain ⟨hfresh, hstep⟩ : p ∉ s.heap ∧ _ := by simpa using hstep
  subst hstep
  have hne : ∀ r ∈ nodes, r ≠ p := by
    rintro r hr rfl
    obtain ⟨buf, hbuf⟩ := exists_buffer h hr
    exact hfresh (Finmap.mem_iff.mpr ⟨buf, hbuf⟩)
  refine ⟨fun hp => hne p hp rfl,
    h.push (next_insert _ _ _) fun r hr => next_insert_of_ne _ _ _ (hne r hr), rfl,
    ?_, fun r hr => modeAt_insert_of_ne _ _ _ (hne r hr), rfl, rfl, rfl, rfl, fun r => Finmap.mem_insert⟩
  rw [modeAt, Finmap.lookup_insert, Option.map_some]

/-- A new browser is there when `malloc` answered an address that was not in use. -/
theorem notMem_of_addBrowser {vmeAddr : BitVec 64} {q : Ptr} (hstep : s.addBrowser vmeAddr (some q) = some t) :
    q ∉ s.heap := by
  obtain ⟨u, hnew, -⟩ := Option.bind_eq_some_iff.mp hstep
  rw [buffernew] at hnew
  split_ifs at hnew with hused
  exact hused

/-- A new browser comes second in the list. -/
theorem addBrowser_spec {p q : Ptr} {rest : List Ptr} (h : LinkedList s.next s.gHeadbuf (p :: rest))
    (vmeAddr : BitVec 64) (hfresh : q ∉ s.heap) :
    ∃ t, s.addBrowser vmeAddr (some q) = some t ∧ LinkedList t.next t.gHeadbuf (p :: q :: rest) ∧
      t.gHeadbuf = some p ∧ (∀ r ∈ p :: rest, t.modeAt r = s.modeAt r) ∧ t.gBuffer = s.gBuffer ∧
      t.gLastbuf = s.gLastbuf ∧ t.cpos = s.cpos ∧ t.ttnrows = s.ttnrows ∧
      ∀ r, r ∈ t.heap ↔ r = q ∨ r ∈ s.heap := by
  have hnew : s.buffernew (.brmode vmeAddr) (some q) = some
      { s with heap := s.heap.insert q ⟨s.gHeadbuf, .brmode vmeAddr⟩, gHeadbuf := some q } := by
    rw [buffernew, if_neg hfresh]
  obtain ⟨-, hlist, -, -, hmodes, hcurrent, hlast, hcpos, hrows, hheap⟩ := buffernew_spec h hnew
  obtain ⟨t, ht, hlist', hhead', hmodes', hcurrent', hlast', hcpos', hrows', hheap'⟩ :=
    buffershuffle_spec hlist
  exact ⟨t, Option.bind_eq_some_iff.mpr ⟨_, hnew, ht⟩, hhead' ▸ hlist', hhead',
    fun r hr => (hmodes' r).trans (hmodes r hr), hcurrent'.trans hcurrent, hlast'.trans hlast,
    hcpos'.trans hcpos, hrows'.trans hrows, fun r => (hheap' r).trans (hheap r)⟩

/-- The old buffers are in the list still. -/
theorem mem_second {p q r : Ptr} {rest : List Ptr} (hr : r ∈ p :: rest) : r ∈ p :: q :: rest :=
  ((List.sublist_cons_self q rest).cons_cons p).subset hr

/-- A new browser leaves both pointers in the list and its head where it is. -/
theorem Intact.addBrowser (h : s.Intact nodes) {vmeAddr : BitVec 64} {answer : Option Ptr}
    (hstep : s.addBrowser vmeAddr answer = some t) : ∃ nodes, t.Intact nodes := by
  cases answer with
  | none =>
    obtain rfl := Option.some.inj hstep
    exact ⟨nodes, h⟩
  | some p =>
    obtain ⟨head, mode, hhead, hmode, hkillable⟩ := h.head
    obtain ⟨rest, rfl⟩ := (hhead ▸ h.list : LinkedList s.next (some head) nodes).exists_cons
    obtain ⟨t', ht', hlist, hhead', hmodes, hcurrent, hlast, -⟩ :=
      addBrowser_spec h.list vmeAddr (notMem_of_addBrowser hstep)
    obtain rfl := Option.some.inj (ht'.symm.trans hstep)
    obtain ⟨q, hq, hqcurrent⟩ := h.current
    obtain ⟨r, hr, hrlast⟩ := h.last
    exact ⟨head :: p :: rest,
      ⟨hlist, ⟨q, mem_second hq, hcurrent.trans hqcurrent⟩, ⟨r, mem_second hr, hlast.trans hrlast⟩⟩,
      head, mode, hhead', (hmodes head List.mem_cons_self).trans hmode, hkillable⟩

/-- A kill takes a buffer out of the list and frees it; the pointers move when it was the current one. -/
theorem bufferkill_spec {before after : List Ptr} {p q : Ptr}
    (h : LinkedList s.next s.gHeadbuf (before ++ p :: q :: after)) :
    ∃ t, s.bufferkill q = some t ∧ LinkedList t.next t.gHeadbuf (before ++ p :: after) ∧
      t.gHeadbuf = s.gHeadbuf ∧ (∀ r ∈ before ++ p :: after, t.modeAt r = s.modeAt r) ∧
      t.gBuffer = (if s.gBuffer = some q then some p else s.gBuffer) ∧
      (t.gLastbuf = if s.gBuffer = some q then some p else s.gLastbuf) ∧
      t.cpos = 0 ∧ t.ttnrows = s.ttnrows ∧ ∀ r, r ∈ t.heap ↔ r ≠ q ∧ r ∈ s.heap := by
  have hp : p ∈ before ++ p :: q :: after := List.mem_append_right _ List.mem_cons_self
  have hq : q ∈ before ++ p :: q :: after :=
    List.mem_append_right _ (List.mem_cons_of_mem _ List.mem_cons_self)
  obtain ⟨bufP, hbufP⟩ := exists_buffer h hp
  obtain ⟨bufQ, hbufQ⟩ := exists_buffer h hq
  obtain ⟨first, hfirst⟩ : ∃ first, s.gHeadbuf = some first := by
    cases before with
    | nil => exact ⟨p, h.1⟩
    | cons r before => exact ⟨r, h.1⟩
  have hnotFirst : q ≠ first := fun hqf => h.head_ne (hqf ▸ hfirst)
  have hfound : findBefore s.next q s.heap.keys.card first = some (p, some q) :=
    LinkedList.findBefore_eq (hfirst ▸ h) (length_le_card h)
  have hnextQ : s.next q = some bufQ.bNext := by rw [next, hbufQ, Option.map_some]
  have hnodup := h.nodup
  rw [List.append_cons, List.nodup_middle, ← List.append_cons, List.nodup_cons] at hnodup
  obtain ⟨hout, hnodup⟩ := hnodup
  have hother (r : Ptr) (hr : r ∈ before ++ after) : r ≠ p := fun hrp =>
    (List.nodup_cons.mp (List.nodup_middle.mp hnodup)).1 (hrp ▸ hr)
  -- the list without `q`, which is still in memory
  let u : Buffers := { s with cpos := 0, heap := s.heap.insert p { bufP with bNext := bufQ.bNext } }
  have hlist : LinkedList u.next u.gHeadbuf (before ++ p :: after) :=
    h.unlink ((next_insert s p _).trans hnextQ.symm) fun r hr => next_insert_of_ne s p _ (hother r hr)
  let v : Buffers := if s.gBuffer = some q then { u with gBuffer := some p, gLastbuf := some p } else u
  have hkill : s.bufferkill q = some { v with heap := v.heap.erase q } := by
    refine Option.bind_eq_some_iff.mpr ⟨first, hfirst, ?_⟩
    rw [if_neg hnotFirst]
    refine Option.bind_eq_some_iff.mpr ⟨(p, some q), hfound, ?_⟩
    refine Option.bind_eq_some_iff.mpr ⟨bufQ.bNext, hnextQ, ?_⟩
    refine Option.bind_eq_some_iff.mpr ⟨u, setNext_eq (s := { s with cpos := 0 }) hbufP _, ?_⟩
    by_cases hcurrent : s.gBuffer = some q
    · have hgoto := buffergoto_eq (s := { u with gBuffer := some p }) hlist
        (List.mem_append_right _ List.mem_cons_self)
      rw [if_pos (show u.gBuffer = some q from hcurrent)]
      simp only [v, if_pos hcurrent]
      exact Option.bind_eq_some_iff.mpr ⟨_, hgoto, rfl⟩
    · rw [if_neg (show u.gBuffer ≠ some q from hcurrent)]
      simp only [v, if_neg hcurrent]
      rfl
  have hsame : v.heap = u.heap ∧ v.gHeadbuf = u.gHeadbuf := by
    by_cases hcurrent : s.gBuffer = some q
    · simp only [v, if_pos hcurrent, and_self]
    · simp only [v, if_neg hcurrent, and_self]
  have hnext (r : Ptr) (hr : r ∈ before ++ p :: after) :
      ({ v with heap := v.heap.erase q } : Buffers).next r = u.next r := by
    rw [next_erase_of_ne v q fun hrq => hout (hrq ▸ hr), next, next, hsame.1]
  refine ⟨_, hkill, hsame.2 ▸ hlist.congr hnext, hsame.2, fun r hr => ?_, ?_, ?_, ?_, ?_, fun r => ?_⟩
  · rw [modeAt_erase_of_ne v q fun hrq => hout (hrq ▸ hr), modeAt, hsame.1]
    exact modeAt_setNext hbufP _ r
  · exact apply_ite gBuffer _ _ _
  · exact apply_ite gLastbuf _ _ _
  · exact (apply_ite cpos _ _ _).trans (ite_self _)
  · exact (apply_ite ttnrows _ _ _).trans (ite_self _)
  · change r ∈ v.heap.erase q ↔ _
    rw [Finmap.mem_erase, hsame.1, mem_insert_iff hbufP]

/-- The other buffers are in the list still. -/
theorem mem_unlinked {before after : List Ptr} {p q r : Ptr} (hr : r ∈ before ++ p :: q :: after)
    (hne : r ≠ q) : r ∈ before ++ p :: after := by
  simp only [List.mem_append, List.mem_cons] at hr ⊢
  tauto

/-- A buffer that can be killed is not the head. -/
theorem Intact.exists_before (h : s.Intact nodes) {q : Ptr} (hq : q ∈ nodes) {mode : ModeT}
    (hmode : s.modeAt q = some mode) (hkillable : mode.killable = true) :
    ∃ before p after, nodes = before ++ p :: q :: after := by
  refine h.list.exists_before hq fun hhead => ?_
  obtain ⟨p, mode', hp, hmode', hnot⟩ := h.head
  obtain rfl := Option.some.inj (hp.symm.trans hhead)
  obtain rfl := Option.some.inj (hmode.symm.trans hmode')
  rw [hkillable] at hnot
  exact absurd hnot (by decide)

/-- A kill keeps both pointers in the list when the buffer is the current one, or not the one before it. -/
theorem Intact.kill (h : s.Intact nodes) {q : Ptr} (hq : q ∈ nodes) {mode : ModeT}
    (hmode : s.modeAt q = some mode) (hkillable : mode.killable = true)
    (hlast : s.gBuffer = some q ∨ s.gLastbuf ≠ some q) (hstep : s.bufferkill q = some t) :
    ∃ nodes, t.Intact nodes := by
  obtain ⟨before, p, after, rfl⟩ := h.exists_before hq hmode hkillable
  obtain ⟨t', ht', hlist, hhead', hmodes, hcurrent', hlast', -⟩ := bufferkill_spec h.list
  obtain rfl := Option.some.inj (ht'.symm.trans hstep)
  have hp : p ∈ before ++ p :: after := List.mem_append_right _ List.mem_cons_self
  obtain ⟨head, headMode, hhead, hheadMode, hnot⟩ := h.head
  have hheadMem : head ∈ before ++ p :: after := by
    have hfirst := hlist
    rw [hhead', hhead] at hfirst
    obtain ⟨rest, hrest⟩ := hfirst.exists_cons
    exact hrest ▸ List.mem_cons_self
  have hheadSame : t'.modeAt head = some headMode := (hmodes head hheadMem).trans hheadMode
  have hheadAt : t'.gHeadbuf = some head := hhead'.trans hhead
  by_cases hself : s.gBuffer = some q
  · rw [if_pos hself] at hcurrent' hlast'
    exact ⟨_, ⟨hlist, ⟨p, hp, hcurrent'⟩, ⟨p, hp, hlast'⟩⟩, head, headMode, hheadAt, hheadSame, hnot⟩
  · rw [if_neg hself] at hcurrent' hlast'
    obtain ⟨r, hr, hcurrent⟩ := h.current
    obtain ⟨l, hl, hl'⟩ := h.last
    have hne : l ≠ q := fun hlq => hlast.resolve_left hself (hlq ▸ hl')
    exact ⟨_, ⟨hlist, ⟨r, mem_unlinked hr fun hrq => hself (hrq ▸ hcurrent), hcurrent'.trans hcurrent⟩,
      ⟨l, mem_unlinked hl hne, hlast'.trans hl'⟩⟩, head, headMode, hheadAt, hheadSame, hnot⟩

/-- A kill of the buffer before the current one leaves `g_lastbuf` behind, outside the list. -/
theorem Intact.kill_last (h : s.Intact nodes) {q : Ptr} {mode : ModeT} (hmode : s.modeAt q = some mode)
    (hkillable : mode.killable = true) (hself : s.gBuffer ≠ some q) (hlast : s.gLastbuf = some q) :
    ∃ t, s.bufferkill q = some t ∧ ¬t.Kept := by
  obtain ⟨l, hl, hl'⟩ := h.last
  obtain rfl := Option.some.inj (hl'.symm.trans hlast)
  obtain ⟨before, p, after, rfl⟩ := h.exists_before hl hmode hkillable
  obtain ⟨t, ht, hlist, -, -, -, hlast', -⟩ := bufferkill_spec h.list
  refine ⟨t, ht, fun hkept => ?_⟩
  obtain ⟨nodes, hnodes⟩ := hkept.members
  obtain ⟨r, hr, hr'⟩ := hnodes.last
  rw [if_neg hself, hlast] at hlast'
  obtain rfl := Option.some.inj (hlast'.symm.trans hr')
  rw [hnodes.list.unique hlist] at hr
  have hnodup := h.list.nodup
  rw [List.append_cons, List.nodup_middle, ← List.append_cons, List.nodup_cons] at hnodup
  exact hnodup.1 hr

/-- A kill from the buffer list that is aimed at the browser `g_lastbuf` points to and is not refused. -/
def KillsLast (op : Op) (s : Buffers) : Prop :=
  op = .inpkill ∧ s.gBuffer.bind s.modeAt = some .bumode ∧ s.pos2buf s.cpos = some s.gLastbuf ∧
    ∃ mode, s.gLastbuf.bind s.modeAt = some mode ∧ mode.killable = true

/-- A kill that is not refused: of the current buffer, or of the one under the cursor. -/
theorem Intact.inpkill_cases (h : s.Intact nodes) (hstep : s.inpkill = some t) :
    t = s ∨ ∃ q ∈ nodes, ∃ mode, s.modeAt q = some mode ∧ mode.killable = true ∧ s.bufferkill q = some t ∧
      (s.gBuffer = some q ∨
        s.gBuffer.bind s.modeAt = some .bumode ∧ s.pos2buf s.cpos = some (some q)) := by
  have hbrkill (q : Ptr) (hq : q ∈ nodes) (vmeAddr : BitVec 64) (hmode : s.modeAt q = some (.brmode vmeAddr))
      (hkill : s.brkill q vmeAddr = some t) :
      t = s ∨ s.bufferkill q = some t ∧ (ModeT.brmode vmeAddr).killable = true := by
    rw [brkill] at hkill
    by_cases hrefused : (vmeAddr.setWidth 32).toInt < 0
    · rw [if_pos hrefused] at hkill
      exact Or.inl (Option.some.inj hkill).symm
    · rw [if_neg hrefused] at hkill
      exact Or.inr ⟨hkill, decide_eq_true (Int.not_lt.mp hrefused)⟩
  obtain ⟨p, hp, hcurrent⟩ := h.current
  obtain ⟨buf, hbuf⟩ := exists_buffer h.list hp
  have hmode : s.modeAt p = some buf.bMode := by rw [modeAt, hbuf, Option.map_some]
  rw [inpkill, hcurrent] at hstep
  simp only [Option.bind_eq_bind, Option.bind_some, hbuf] at hstep
  cases hbufMode : buf.bMode with
  | brmode vmeAddr =>
    rw [hbufMode] at hstep hmode
    rcases hbrkill p hp vmeAddr hmode hstep with hsame | ⟨hkill, hkillable⟩
    · exact Or.inl hsame
    · exact Or.inr ⟨p, hp, _, hmode, hkillable, hkill, Or.inl hcurrent⟩
  | bumode =>
    obtain ⟨head, -, hhead, -⟩ := h.head
    rw [hbufMode] at hstep hmode
    have hpos := pos2buf_eq h.list hhead s.cpos
    simp only [bukill, hpos, Option.bind_eq_bind, Option.bind_some] at hstep
    split at hstep
    · exact Or.inl (Option.some.inj hstep).symm
    cases hq : nodes[s.cpos.toNat]? with
    | none =>
      rw [hq] at hstep
      exact absurd hstep (Option.some_ne_none t).symm
    | some q =>
      have hqmem : q ∈ nodes := List.mem_of_getElem? hq
      obtain ⟨bufQ, hbufQ⟩ := exists_buffer h.list hqmem
      have hmodeQ : s.modeAt q = some bufQ.bMode := by rw [modeAt, hbufQ, Option.map_some]
      simp only [hq, Option.bind_some, hbufQ] at hstep
      split at hstep
      · exact Or.inl (Option.some.inj hstep).symm
      · rename_i vmeAddr hbufQMode
        rw [hbufQMode] at hmodeQ
        split at hstep
        · exact Or.inl (Option.some.inj hstep).symm
        · rcases hbrkill q hqmem vmeAddr hmodeQ hstep with hsame | ⟨hkill, hkillable⟩
          · exact Or.inl hsame
          · refine Or.inr ⟨q, hqmem, _, hmodeQ, hkillable, hkill, Or.inr ⟨?_, hpos.trans (congrArg some hq)⟩⟩
            rw [hcurrent, Option.bind_some, hmode]

/-- A cursor method moves the cursor only. -/
theorem Intact.onBufferList (h : s.Intact nodes) {method : Buffers → Option Buffers}
    (hmethod : ∀ t, method s = some t → ∃ cpos, t = { s with cpos := cpos })
    (hstep : s.onBufferList method = some t) : t.Intact nodes := by
  obtain ⟨buf, -, hstep⟩ := Option.bind_eq_some_iff.mp hstep
  cases hmode : buf.bMode with
  | bumode =>
    simp only [hmode] at hstep
    obtain ⟨cpos, rfl⟩ := hmethod t hstep
    exact h.setCursor cpos s.ttnrows
  | brmode vmeAddr =>
    simp only [hmode] at hstep
    exact Option.some.inj hstep ▸ h

/-- `budn` moves the cursor only. -/
theorem exists_cursor_budn (hstep : s.budn = some t) : ∃ cpos, t = { s with cpos := cpos } := by
  obtain ⟨p, -, hstep⟩ := Option.bind_eq_some_iff.mp hstep
  cases p with
  | none => exact ⟨s.cpos, (Option.some.inj hstep).symm⟩
  | some p =>
    obtain ⟨link, -, hstep⟩ := Option.bind_eq_some_iff.mp hstep
    obtain rfl := Option.some.inj hstep
    split
    · exact ⟨_, rfl⟩
    · exact ⟨s.cpos, rfl⟩

/-- `bupgdn` moves the cursor only. -/
theorem exists_cursor_bupgdn (hstep : s.bupgdn = some t) : ∃ cpos, t = { s with cpos := cpos } := by
  obtain ⟨p, -, hstep⟩ := Option.bind_eq_some_iff.mp hstep
  cases p with
  | none => exact ⟨s.cpos, (Option.some.inj hstep).symm⟩
  | some p =>
    obtain ⟨moved, -, rfl⟩ := Option.map_eq_some_iff.mp hstep
    exact ⟨_, rfl⟩

/-- `buffernext` goes to a buffer of the list: the one behind the current one, or the head. -/
theorem exists_buffernext (h : LinkedList s.next s.gHeadbuf nodes) {p : Ptr} (hp : p ∈ nodes)
    (hcurrent : s.gBuffer = some p) : ∃ q ∈ nodes, s.buffernext = s.buffergoto (some q) := by
  obtain ⟨before, after, rfl⟩ := List.append_of_mem hp
  obtain ⟨-, -, -, link, hlink, hafter⟩ := segment_append.mp h
  obtain ⟨buf, hbuf, rfl⟩ := Option.map_eq_some_iff.mp hlink
  have hgoto : s.buffernext = s.buffergoto (buf.bNext.or s.gHeadbuf) := by
    rw [Buffers.buffernext, deref, hcurrent, Option.bind_some, hbuf]
    rfl
  rw [hgoto]
  cases after with
  | nil =>
    have hnext : buf.bNext = none := hafter
    rw [hnext, Option.none_or]
    cases before with
    | nil => exact ⟨p, List.mem_cons_self, congrArg s.buffergoto h.1⟩
    | cons q before => exact ⟨q, List.mem_cons_self, congrArg s.buffergoto h.1⟩
  | cons q after =>
    have hnext : buf.bNext = some q := hafter.1
    rw [hnext, Option.some_or]
    exact ⟨q, List.mem_append_right _ (List.mem_cons_of_mem _ List.mem_cons_self), rfl⟩

/-- The next buffer keeps both pointers in the list. -/
theorem Intact.buffernext (h : s.Intact nodes) (hstep : s.buffernext = some t) : t.Intact nodes := by
  obtain ⟨p, hp, hcurrent⟩ := h.current
  obtain ⟨q, hq, hgoto⟩ := exists_buffernext h.list hp hcurrent
  exact h.goto hq (hgoto ▸ hstep)

/-- Every step but such a kill keeps both pointers in the list. -/
theorem Intact.step (h : s.Intact nodes) (op : Op) (hkills : ¬KillsLast op s) (hstep : s.step op = some t) :
    ∃ nodes, t.Intact nodes := by
  obtain ⟨head, -, hhead, -⟩ := h.head
  have hpos := pos2buf_eq h.list hhead s.cpos
  cases op with
  | addBrowser vmeAddr answer => exact h.addBrowser hstep
  | bugoto =>
    obtain ⟨buf, -, hstep⟩ := Option.bind_eq_some_iff.mp hstep
    cases hmode : buf.bMode with
    | brmode vmeAddr =>
      simp only [hmode] at hstep
      exact ⟨nodes, Option.some.inj hstep ▸ h⟩
    | bumode =>
      simp only [hmode, Buffers.bugoto, hpos, Option.bind_eq_bind, Option.bind_some] at hstep
      split at hstep
      · exact ⟨nodes, Option.some.inj hstep ▸ h⟩
      · exact ⟨nodes, h.goto (List.mem_of_getElem? ‹_›) hstep⟩
  | inphome =>
    obtain ⟨rest, hrest⟩ := (hhead ▸ h.list : LinkedList s.next (some head) nodes).exists_cons
    rw [Buffers.step, hhead] at hstep
    exact ⟨nodes, h.goto (hrest ▸ List.mem_cons_self) hstep⟩
  | inpnext => exact ⟨nodes, h.buffernext hstep⟩
  | inptoggle =>
    obtain ⟨p, hp, hlast⟩ := h.last
    rw [Buffers.step, bufferback, hlast] at hstep
    exact ⟨nodes, h.goto hp hstep⟩
  | inpup =>
    have hmethod : s.onBufferList (fun s => some s.buup) = some t := hstep
    refine ⟨nodes, h.onBufferList (fun t ht => ?_) hmethod⟩
    obtain rfl := Option.some.inj ht
    rw [buup]
    split
    · exact ⟨_, rfl⟩
    · exact ⟨s.cpos, rfl⟩
  | inpdn => exact ⟨nodes, h.onBufferList (fun t => exists_cursor_budn) hstep⟩
  | inppgup =>
    have hmethod : s.onBufferList (fun s => some s.bupgup) = some t := hstep
    refine ⟨nodes, h.onBufferList (fun t ht => ?_) hmethod⟩
    obtain rfl := Option.some.inj ht
    exact ⟨_, rfl⟩
  | inppgdn => exact ⟨nodes, h.onBufferList (fun t => exists_cursor_bupgdn) hstep⟩
  | inpkill =>
    rcases h.inpkill_cases hstep with rfl | ⟨q, hq, mode, hmode, hkillable, hkill, hcase⟩
    · exact ⟨nodes, h⟩
    · refine h.kill hq hmode hkillable
        (hcase.imp id fun hlist hlast => hkills ⟨rfl, hlist.1, ?_, mode, ?_, hkillable⟩)
        hkill
      · rw [hlist.2, hlast]
      · rw [hlast, Option.bind_some, hmode]
  | ttsize rows =>
    obtain rfl := Option.some.inj hstep
    exact ⟨nodes, h.setCursor s.cpos rows⟩

/-- Such a kill loses the pointer. -/
theorem Intact.killsLast (h : s.Intact nodes) {op : Op} (hkills : KillsLast op s) :
    ∃ t, s.step op = some t ∧ ¬t.Kept := by
  obtain ⟨rfl, hlist, hpos, mode, hmode, hkillable⟩ := hkills
  obtain ⟨p, -, hcurrent⟩ := h.current
  obtain ⟨q, hq, hlast⟩ := h.last
  obtain ⟨head, headMode, hhead, hheadMode, hnot⟩ := h.head
  obtain ⟨buf, hbuf⟩ := exists_buffer h.list hq
  rw [hlast, Option.bind_some] at hmode
  rw [hcurrent, Option.bind_some] at hlist
  have hbufMode : buf.bMode = mode := by
    rw [modeAt, hbuf, Option.map_some] at hmode
    exact Option.some.inj hmode
  have hself : s.gBuffer ≠ some q := fun hself => by
    rw [hcurrent] at hself
    obtain rfl := Option.some.inj hself
    obtain rfl := Option.some.inj (hmode.symm.trans hlist)
    exact absurd hkillable (by decide)
  have hnotHead : some q ≠ s.gHeadbuf := fun hq => by
    obtain rfl := Option.some.inj (hq.trans hhead)
    obtain rfl := Option.some.inj (hmode.symm.trans hheadMode)
    rw [hkillable] at hnot
    exact absurd hnot (by decide)
  obtain ⟨t, hkill, hlost⟩ := h.kill_last hmode hkillable hself hlast
  refine ⟨t, ?_, hlost⟩
  obtain ⟨bufP, hbufP, hbufPMode⟩ := Option.map_eq_some_iff.mp hlist
  refine Option.bind_eq_some_iff.mpr ⟨p, hcurrent, Option.bind_eq_some_iff.mpr ⟨bufP, hbufP, ?_⟩⟩
  simp only [hbufPMode]
  refine Option.bind_eq_some_iff.mpr ⟨some q, hpos.trans (congrArg some hlast), ?_⟩
  rw [if_neg hnotHead]
  refine Option.bind_eq_some_iff.mpr ⟨q, rfl, Option.bind_eq_some_iff.mpr ⟨buf, hbuf, ?_⟩⟩
  cases mode with
  | bumode => exact absurd hkillable (by decide)
  | brmode vmeAddr =>
    simp only [hbufMode]
    have hqp : q ≠ p := fun hqp => hself (hqp ▸ hcurrent)
    rw [if_neg hqp, brkill, if_neg (Int.not_lt.mpr (of_decide_eq_true hkillable)),
      hkill]

/-- A list of buffers that no kill removes. -/
def Permanent (s : Buffers) (nodes : List Ptr) : Prop :=
  LinkedList s.next s.gHeadbuf nodes ∧ ∀ p ∈ nodes, ∃ mode, s.modeAt p = some mode ∧ mode.killable = false

/-- A new buffer that no kill removes keeps the list permanent. -/
theorem Permanent.buffernew (h : s.Permanent nodes) {mode : ModeT} (hmode : mode.killable = false)
    {answer : Option Ptr} (hstep : s.buffernew mode answer = some t) : ∃ nodes, t.Permanent nodes := by
  cases answer with
  | none => exact ⟨nodes, Option.some.inj hstep ▸ h⟩
  | some p =>
    obtain ⟨-, hlist, -, hnew, hmodes, -⟩ := buffernew_spec h.1 hstep
    refine ⟨p :: nodes, hlist, List.forall_mem_cons.mpr ⟨⟨mode, hnew, hmode⟩, fun r hr => ?_⟩⟩
    rw [hmodes r hr]
    exact h.2 r hr

/-- The browsers for the registers of the crates. -/
theorem Permanent.foldlM_ctrlnew (h : s.Permanent nodes) {crates : List (Option Ptr)}
    (hstep : crates.foldlM ctrlnew s = some t) : ∃ nodes, t.Permanent nodes := by
  induction crates generalizing s nodes with
  | nil => exact ⟨nodes, Option.some.inj hstep ▸ h⟩
  | cons answer crates ih =>
    rw [List.foldlM_cons] at hstep
    obtain ⟨u, hu, hstep⟩ := Option.bind_eq_some_iff.mp hstep
    obtain ⟨nodes', hnodes'⟩ := h.buffernew (by decide) hu
    exact ih hnodes' hstep

/-- When the program starts both pointers lead to the head of the list. -/
theorem exists_intact_start {crates : List (Option Ptr)} {answer : Option Ptr} {ttnrows : ℤ}
    (hstart : start crates answer ttnrows = some s) : ∃ nodes, s.Intact nodes := by
  obtain ⟨u, hu, hstart⟩ := Option.bind_eq_some_iff.mp hstart
  obtain ⟨v, hv, hstart⟩ := Option.bind_eq_some_iff.mp hstart
  obtain ⟨w, hw, rfl⟩ := Option.map_eq_some_iff.mp hv
  have hempty : Permanent ⟨∅, none, none, none, 0, ttnrows⟩ [] :=
    ⟨rfl, fun p hp => absurd hp List.not_mem_nil⟩
  obtain ⟨nodes, hnodes⟩ := hempty.foldlM_ctrlnew hu
  obtain ⟨nodes, hlist, hmodes⟩ := hnodes.buffernew rfl hw
  obtain ⟨hshown, hdisplay, rfl⟩ := Option.map_eq_some_iff.mp hstart
  obtain ⟨buf, hbuf, -⟩ := Option.bind_eq_some_iff.mp hdisplay
  obtain ⟨head, hhead, -⟩ := Option.bind_eq_some_iff.mp hbuf
  obtain ⟨rest, rfl⟩ := (show w.gHeadbuf = some head from hhead) ▸ hlist |>.exists_cons
  obtain ⟨mode, hmode, hkillable⟩ := hmodes head List.mem_cons_self
  exact ⟨head :: rest,
    ⟨hlist, ⟨head, List.mem_cons_self, hhead⟩, ⟨head, List.mem_cons_self, hhead⟩⟩, head, mode,
    hhead, hmode, hkillable⟩

end Buffers

/-- **The pointers into the buffer list.** In a run of the program every state that is reached has
`g_buffer` and `g_lastbuf` in the list from `g_headbuf`, exactly when no step of the run is a kill from the
buffer list that is aimed at the killable browser `g_lastbuf` points to. -/
theorem pointers_kept_iff {crates : List (Option Ptr)} {answer : Option Ptr} {ttnrows : ℤ} {s : Buffers}
    (hstart : Buffers.start crates answer ttnrows = some s) (ops : List Op) :
    (∀ before t, before <+: ops → s.run before = some t → t.Kept) ↔
      ∀ before op t, before ++ [op] <+: ops → s.run before = some t → ¬Buffers.KillsLast op t := by
  obtain ⟨nodes, hnodes⟩ := Buffers.exists_intact_start hstart
  refine foldlM_kept_iff Buffers.step Buffers.Kept (fun s => ∃ nodes, s.Intact nodes)
    (fun op s => ¬Buffers.KillsLast op s) ?_ ?_ ?_ ops s ⟨nodes, hnodes⟩
  · rintro s ⟨nodes, h⟩
    exact h.kept
  · rintro op s t ⟨nodes, h⟩ hkills hstep
    exact h.step op hkills hstep
  · rintro op s ⟨nodes, h⟩ hkills
    exact h.killsLast (not_not.mp hkills)

/-- The user goes to a browser from the buffer list, goes back and kills it there. -/
def killFromList : List Op := [.addBrowser 0 (some 2), .inpdn, .bugoto, .inphome, .inpkill]

/-- In this run `g_lastbuf` leads to freed memory, and the next toggle follows it. -/
theorem pointers_lost : ¬∀ crates answer ttnrows s, Buffers.start crates answer ttnrows = some s →
    ∀ ops t, s.run ops = some t → t.Kept := by
  intro h
  obtain ⟨s, hs, hrun⟩ : ∃ s, Buffers.start [] (some 1) 24 = some s ∧
      ((s.run killFromList).map fun t => t.bufferback.isSome) = some false :=
    Option.bind_eq_some_iff.mp (by decide)
  obtain ⟨t, ht, hback⟩ := Option.map_eq_some_iff.mp hrun
  have hkept := (h [] (some 1) 24 s hs killFromList t ht).back
  rw [hback] at hkept
  exact absurd hkept (by decide)

/-- Killing a browser from itself is a run in which both pointers stay. -/
theorem pointers_kept_killSelf : ∃ s, Buffers.start [] (some 1) 24 = some s ∧
    ((∀ before t, before <+: [.addBrowser 0 (some 2), .inpnext, .inpkill] → s.run before = some t → t.Kept) ↔
      ∀ before op t, before ++ [op] <+: [.addBrowser 0 (some 2), .inpnext, .inpkill] →
        s.run before = some t → ¬Buffers.KillsLast op t) := by
  obtain ⟨s, hs⟩ := Option.isSome_iff_exists.mp (by decide : (Buffers.start [] (some 1) 24).isSome = true)
  exact ⟨s, hs, pointers_kept_iff hs _⟩

end V120.Tui
