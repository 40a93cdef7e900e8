import V120.Tui.BufferRuns

/-!
# The structure of the buffer list

A new buffer becomes the head of the list and then changes places with the one behind it, a kill takes a
buffer out at any position, and the cursor moves along the links. So the buffer list, which is made last of
the buffers at the start, stays the head; the other buffers are behind it, each of them once; and the cursor
is on one of them. `g_lastbuf` has no part in this: it may lead to freed memory.
-/

namespace V120.Tui

open V120.Common

namespace Buffers

/-- `buleft`. -/
def buleft (s : Buffers) : Buffers := s

/-- `buright`. -/
def buright (s : Buffers) : Buffers := s

/-- The loop of `buend`: the number of links behind a buffer. There is no answer when the links do not
end. -/
def linksBehind (next : Ptr → Option (Option Ptr)) : ℕ → Ptr → Option ℤ
  | 0, _ => none
  | fuel + 1, p => do
    match ← next p with
    | none => some 0
    | some q => (linksBehind next fuel q).map (· + 1)

/-- `buend`. -/
def buend (s : Buffers) : Option Buffers :=
  match s.gHeadbuf with
  | none => some { s with cpos := 0 }
  | some p => (linksBehind s.next s.heap.keys.card p).map fun n => { s with cpos := n }

/-- `buhome`. -/
def buhome (s : Buffers) : Buffers := { s with cpos := 0 }

end Buffers

/-- What the user or a script does to the buffers, and the methods of the cursor that have no key or do
nothing. -/
inductive ListOp where
  | op (op : Op)
  | cursleft
  | cursright
  | cursend
  | curshome

/-- One step. -/
def Buffers.listStep (s : Buffers) : ListOp → Option Buffers
  | .op op => s.step op
  | .cursleft => s.onBufferList fun s => some s.buleft
  | .cursright => s.onBufferList fun s => some s.buright
  | .cursend => s.onBufferList Buffers.buend
  | .curshome => s.onBufferList fun s => some s.buhome

/-- The steps of a run one after the other. -/
def Buffers.listRun (s : Buffers) (ops : List ListOp) : Option Buffers := ops.foldlM Buffers.listStep s

namespace Buffers

/-- The list from the head has every buffer in memory, and the terminal has three rows at least. -/
structure Listed (s : Buffers) (nodes : List Ptr) : Prop where
  list : LinkedList s.next s.gHeadbuf nodes
  live : ∀ q ∈ s.heap, q ∈ nodes
  rows : 3 ≤ s.ttnrows

/-- The buffer list is its head, and the current buffer and the cursor are on it. -/
structure Headed (p : Ptr) (s : Buffers) (nodes : List Ptr) : Prop extends Listed s nodes where
  head : s.gHeadbuf = some p
  mode : s.modeAt p = some .bumode
  current : ∃ q ∈ nodes, s.gBuffer = some q
  low : 0 ≤ s.cpos
  high : s.cpos < nodes.length

/-- What a step asks of the world: the answer of `malloc` is not in use, the display that was shown before
is still there, and the terminal has three rows at least. -/
def Possible (s : Buffers) : ListOp → Prop
  | .op (.addBrowser _ (some q)) => q ∉ s.heap
  | .op .inptoggle => ∃ q, s.gLastbuf = some q ∧ q ∈ s.heap
  | .op (.ttsize rows) => 3 ≤ rows
  | _ => True

variable {s t : Buffers} {nodes : List Ptr} {p : Ptr}

/-- A page down ends at the last buffer, if there are not enough. -/
theorem pageDown_eq {next : Ptr → Option (Option Ptr)} {rest : List Ptr}
    (h : LinkedList next (some p) (p :: rest)) (n : ℕ) :
    pageDown next n p = some (min (n : ℤ) (rest.length : ℤ)) := by
  induction n generalizing p rest with
  | zero =>
    obtain ⟨-, link, hlink, -⟩ := h
    rw [pageDown, hlink, Option.map_some]
    congr 1
  | succ n ih =>
    obtain ⟨-, link, hlink, hrest⟩ := h
    cases rest with
    | nil =>
      obtain rfl : link = none := hrest
      simp only [pageDown, hlink, Option.bind_eq_bind, Option.bind_some, List.length_nil]
      congr 1
    | cons q rest =>
      obtain rfl : link = some q := hrest.1
      simp only [pageDown, hlink, Option.bind_eq_bind, Option.bind_some, ih hrest, Option.map_some,
        List.length_cons]
      congr 1
      omega

/-- The links behind a buffer of the list are counted. -/
theorem linksBehind_eq {next : Ptr → Option (Option Ptr)} {rest : List Ptr}
    (h : LinkedList next (some p) (p :: rest)) {fuel : ℕ} (hfuel : (p :: rest).length ≤ fuel) :
    linksBehind next fuel p = some (rest.length : ℤ) := by
  induction fuel generalizing p rest with
  | zero => exact absurd hfuel (Nat.not_succ_le_zero _)
  | succ fuel ih =>
    obtain ⟨-, link, hlink, hrest⟩ := h
    cases rest with
    | nil =>
      obtain rfl : link = none := hrest
      simp only [linksBehind, hlink, Option.bind_eq_bind, Option.bind_some, List.length_nil]
      rfl
    | cons q rest =>
      obtain rfl : link = some q := hrest.1
      simp only [linksBehind, hlink, Option.bind_eq_bind, Option.bind_some,
        ih hrest (Nat.le_of_succ_le_succ hfuel), Option.map_some, List.length_cons]
      rfl

/-- A new buffer at the head. -/
theorem Listed.buffernew (h : s.Listed nodes) {mode : ModeT} {answer : Option Ptr}
    (hstep : s.buffernew mode answer = some t) : ∃ nodes, t.Listed nodes := by
  cases answer with
  | none => exact ⟨nodes, Option.some.inj hstep ▸ h⟩
  | some q =>
    obtain ⟨-, hlist, -, -, -, -, -, -, hrows, hheap⟩ := buffernew_spec h.list hstep
    refine ⟨q :: nodes, hlist, fun r hr => ?_, hrows ▸ h.rows⟩
    rcases (hheap r).mp hr with rfl | hr
    · exact List.mem_cons_self
    · exact List.mem_cons_of_mem _ (h.live r hr)

/-- The browsers for the registers of the crates. -/
theorem Listed.foldlM_ctrlnew (h : s.Listed nodes) {crates : List (Option Ptr)}
    (hstep : crates.foldlM ctrlnew s = some t) : ∃ nodes, t.Listed nodes := by
  induction crates generalizing s nodes with
  | nil => exact ⟨nodes, Option.some.inj hstep ▸ h⟩
  | cons answer crates ih =>
    rw [List.foldlM_cons] at hstep
    obtain ⟨u, hu, hstep⟩ := Option.bind_eq_some_iff.mp hstep
    obtain ⟨nodes', hnodes'⟩ := h.buffernew hu
    exact ih hnodes' hstep

namespace Headed

/-- The head is the first of the list. -/
theorem exists_rest (h : Headed p s nodes) : ∃ rest, nodes = p :: rest :=
  LinkedList.exists_cons (h.head ▸ h.list)

/-- There is a buffer under the cursor. -/
theorem exists_under (h : Headed p s nodes) :
    ∃ before q after, nodes = before ++ q :: after ∧ s.cpos = before.length ∧
      s.pos2buf s.cpos = some (some q) := by
  have hlow := h.low
  have hhigh := h.high
  have hless : s.cpos.toNat < nodes.length := by omega
  refine ⟨nodes.take s.cpos.toNat, nodes[s.cpos.toNat], nodes.drop (s.cpos.toNat + 1), ?_, ?_, ?_⟩
  · rw [← List.drop_eq_getElem_cons hless, List.take_append_drop]
  · rw [List.length_take]
    omega
  · rw [pos2buf_eq h.list h.head, List.getElem?_eq_getElem hless]

/-- The cursor moves on the list. -/
theorem setCursor (h : Headed p s nodes) {cpos : ℤ} (hlow : 0 ≤ cpos) (hhigh : cpos < nodes.length) :
    Headed p { s with cpos := cpos } nodes :=
  ⟨⟨h.list, h.live, h.rows⟩, h.head, h.mode, h.current, hlow, hhigh⟩

/-- A display that is in the list. -/
theorem goto (h : Headed p s nodes) {q : Ptr} (hq : q ∈ nodes) :
    ∃ t, s.buffergoto (some q) = some t ∧ Headed p t nodes :=
  ⟨_, buffergoto_eq h.list hq, ⟨h.list, h.live, h.rows⟩, h.head, h.mode, ⟨q, hq, rfl⟩, h.low, h.high⟩

/-- A new browser comes second, if there is memory for it. -/
theorem addBrowser (h : Headed p s nodes) (vmeAddr : BitVec 64) {answer : Option Ptr}
    (hanswer : ∀ q, answer = some q → q ∉ s.heap) :
    ∃ t nodes, s.addBrowser vmeAddr answer = some t ∧ Headed p t nodes := by
  cases answer with
  | none => exact ⟨s, nodes, rfl, h⟩
  | some q =>
    obtain ⟨rest, rfl⟩ := h.exists_rest
    obtain ⟨t, ht, hlist, hhead, hmodes, hcurrent, -, hcpos, hrows, hheap⟩ :=
      addBrowser_spec h.list vmeAddr (hanswer q rfl)
    obtain ⟨current, hin, heq⟩ := h.current
    refine ⟨t, p :: q :: rest, ht, ⟨hlist, fun r hr => ?_, hrows ▸ h.rows⟩, hhead,
      (hmodes p List.mem_cons_self).trans h.mode, ⟨current, mem_second hin, hcurrent.trans heq⟩,
      hcpos ▸ h.low, ?_⟩
    · rcases (hheap r).mp hr with rfl | hr
      · exact List.mem_cons_of_mem _ List.mem_cons_self
      · exact mem_second (h.live r hr)
    · have hhigh := h.high
      rw [List.length_cons] at hhigh
      rw [hcpos, List.length_cons, List.length_cons]
      push_cast at hhigh ⊢
      omega

/-- A kill of another buffer than the head. -/
theorem bufferkill (h : Headed p s nodes) {q : Ptr} (hq : q ∈ nodes) (hne : q ≠ p) :
    ∃ t nodes, s.bufferkill q = some t ∧ Headed p t nodes := by
  have hnotHead : s.gHeadbuf ≠ some q := fun hhead => hne (Option.some.inj (hhead.symm.trans h.head))
  obtain ⟨before, r, after, rfl⟩ := h.list.exists_before hq hnotHead
  obtain ⟨t, ht, hlist, hhead, hmodes, hcurrent, -, hcpos, hrows, hheap⟩ := bufferkill_spec h.list
  have hr : r ∈ before ++ r :: after := List.mem_append_right _ List.mem_cons_self
  have hp : p ∈ before ++ r :: after := by
    rw [hhead, h.head] at hlist
    obtain ⟨rest, hrest⟩ := hlist.exists_cons
    exact hrest ▸ List.mem_cons_self
  refine ⟨t, _, ht, ⟨hlist, fun x hx => ?_, ?_⟩, hhead.trans h.head, (hmodes p hp).trans h.mode, ?_, ?_, ?_⟩
  · obtain ⟨hxq, hx⟩ := (hheap x).mp hx
    exact mem_unlinked (h.live x hx) hxq
  · rw [hrows]
    exact h.rows
  · by_cases hself : s.gBuffer = some q
    · rw [if_pos hself] at hcurrent
      exact ⟨r, hr, hcurrent⟩
    · rw [if_neg hself] at hcurrent
      obtain ⟨current, hin, heq⟩ := h.current
      exact ⟨current, mem_unlinked hin fun hcq => hself (hcq ▸ heq), hcurrent.trans heq⟩
  · exact Int.le_of_eq hcpos.symm
  · rw [hcpos]
    exact Int.natCast_pos.mpr (List.length_pos_of_mem hr)

/-- A kill of a browser that is not refused. -/
theorem brkill (h : Headed p s nodes) {q : Ptr} (hq : q ∈ nodes) (hne : q ≠ p) (vmeAddr : BitVec 64) :
    ∃ t nodes, s.brkill q vmeAddr = some t ∧ Headed p t nodes := by
  rw [Buffers.brkill]
  by_cases hrefused : (vmeAddr.setWidth 32).toInt < 0
  · rw [if_pos hrefused]
    exact ⟨s, nodes, rfl, h⟩
  · rw [if_neg hrefused]
    exact h.bufferkill hq hne

/-- A kill from the buffer list spares the head. -/
theorem bukill (h : Headed p s nodes) (pbuf : Ptr) :
    ∃ t nodes, s.bukill pbuf = some t ∧ Headed p t nodes := by
  obtain ⟨before, q, after, hnodes, -, hunder⟩ := h.exists_under
  have hq : q ∈ nodes := hnodes ▸ List.mem_append_right _ List.mem_cons_self
  obtain ⟨buf, hbuf⟩ := exists_buffer h.list hq
  simp only [Buffers.bukill, hunder, h.head, Option.bind_eq_bind, Option.bind_some, hbuf]
  by_cases hhead : q = p
  · rw [if_pos (congrArg some hhead)]
    exact ⟨s, nodes, rfl, h⟩
  · rw [if_neg fun heq => hhead (Option.some.inj heq)]
    cases hmode : buf.bMode with
    | bumode => exact ⟨s, nodes, rfl, h⟩
    | brmode vmeAddr =>
      simp only []
      by_cases hself : q = pbuf
      · rw [if_pos hself]
        exact ⟨s, nodes, rfl, h⟩
      · rw [if_neg hself]
        exact h.brkill hq hhead vmeAddr

/-- A kill from the current buffer. -/
theorem inpkill (h : Headed p s nodes) : ∃ t nodes, s.inpkill = some t ∧ Headed p t nodes := by
  obtain ⟨q, hq, hcurrent⟩ := h.current
  obtain ⟨buf, hbuf⟩ := exists_buffer h.list hq
  simp only [Buffers.inpkill, hcurrent, Option.bind_eq_bind, Option.bind_some, hbuf]
  cases hmode : buf.bMode with
  | bumode => exact h.bukill q
  | brmode vmeAddr =>
    have hne : q ≠ p := by
      rintro rfl
      have hhead := h.mode
      rw [modeAt, hbuf, Option.map_some, hmode] at hhead
      exact absurd (Option.some.inj hhead) ModeT.noConfusion
    exact h.brkill hq hne vmeAddr

/-- A method of the buffer list, on the display that has it. -/
theorem onBufferList (h : Headed p s nodes) (method : Buffers → Option Buffers)
    (hmethod : ∃ t, method s = some t ∧ Headed p t nodes) :
    ∃ t, s.onBufferList method = some t ∧ Headed p t nodes := by
  obtain ⟨q, hq, hcurrent⟩ := h.current
  obtain ⟨buf, hbuf⟩ := exists_buffer h.list hq
  simp only [Buffers.onBufferList, deref, hcurrent, Option.bind_eq_bind, Option.bind_some, hbuf]
  cases hmode : buf.bMode with
  | bumode => exact hmethod
  | brmode vmeAddr => exact ⟨s, rfl, h⟩

/-- `buup` stops at the head. -/
theorem buup (h : Headed p s nodes) : Headed p s.buup nodes := by
  have hlow := h.low
  have hhigh := h.high
  rw [Buffers.buup]
  split_ifs with hpos
  · exact h.setCursor (by omega) (by omega)
  · exact h

/-- `bupgup` stops at the head: a page has no negative number of rows. -/
theorem bupgup (h : Headed p s nodes) : Headed p s.bupgup nodes := by
  have hlow := h.low
  have hhigh := h.high
  have hrows := h.rows
  have hpage : 0 ≤ s.btnrows := Int.sub_nonneg_of_le hrows
  exact h.setCursor (Int.le_max_left _ _) (by omega)

/-- `budn` stops at the last buffer. -/
theorem budn (h : Headed p s nodes) : ∃ t, s.budn = some t ∧ Headed p t nodes := by
  obtain ⟨before, q, after, rfl, hcpos, hunder⟩ := h.exists_under
  obtain ⟨-, -, -, link, hlink, hafter⟩ := segment_append.mp h.list
  simp only [Buffers.budn, hunder, hlink, Option.bind_eq_bind, Option.bind_some]
  cases after with
  | nil =>
    obtain rfl : link = none := hafter
    exact ⟨s, rfl, h⟩
  | cons r after =>
    obtain rfl : link = some r := hafter.1
    have hlow := h.low
    refine ⟨_, rfl, h.setCursor (by omega) ?_⟩
    rw [List.length_append, List.length_cons, List.length_cons, hcpos]
    push_cast
    omega

/-- `bupgdn` stops there, too. -/
theorem bupgdn (h : Headed p s nodes) : ∃ t, s.bupgdn = some t ∧ Headed p t nodes := by
  obtain ⟨before, q, after, rfl, hcpos, hunder⟩ := h.exists_under
  obtain ⟨middle, -, hbehind⟩ := segment_append.mp h.list
  obtain rfl : middle = some q := hbehind.1
  have hlow := h.low
  simp only [Buffers.bupgdn, hunder, Option.bind_eq_bind, Option.bind_some, pageDown_eq hbehind,
    Option.map_some]
  refine ⟨_, rfl, h.setCursor (by omega) ?_⟩
  rw [List.length_append, List.length_cons, hcpos]
  push_cast
  omega

/-- `buend` goes to the last buffer. -/
theorem buend (h : Headed p s nodes) : ∃ t, s.buend = some t ∧ Headed p t nodes := by
  obtain ⟨rest, rfl⟩ := h.exists_rest
  have hcounted : linksBehind s.next s.heap.keys.card p = some (rest.length : ℤ) :=
    linksBehind_eq (h.head ▸ h.list) (length_le_card h.list)
  have hend : s.buend = some { s with cpos := rest.length } := by
    rw [Buffers.buend]
    split
    · exact absurd (h.head.symm.trans ‹_›) (Option.some_ne_none p)
    · obtain rfl := Option.some.inj (h.head.symm.trans ‹_›)
      rw [hcounted, Option.map_some]
  refine ⟨_, hend, h.setCursor (Int.natCast_nonneg _) ?_⟩
  rw [List.length_cons]
  exact Int.ofNat_lt.mpr (Nat.lt_succ_self _)

/-- `buhome` goes to the head. -/
theorem buhome (h : Headed p s nodes) : Headed p s.buhome nodes := by
  have hlow := h.low
  have hhigh := h.high
  exact h.setCursor (Int.le_refl 0) (by omega)

/-- The display under the cursor. -/
theorem bugoto (h : Headed p s nodes) : ∃ t, s.bugoto = some t ∧ Headed p t nodes := by
  obtain ⟨before, q, after, hnodes, -, hunder⟩ := h.exists_under
  simp only [Buffers.bugoto, hunder, Option.bind_eq_bind, Option.bind_some]
  exact h.goto (hnodes ▸ List.mem_append_right _ List.mem_cons_self)

/-- The display behind the current one, or the buffer list. -/
theorem buffernext (h : Headed p s nodes) : ∃ t, s.buffernext = some t ∧ Headed p t nodes := by
  obtain ⟨q, hq, hcurrent⟩ := h.current
  obtain ⟨r, hr, hgoto⟩ := exists_buffernext h.list hq hcurrent
  rw [hgoto]
  exact h.goto hr

end Headed

/-- Every step that is possible leads to a next state, with the same structure. -/
theorem Headed.exists_step (h : Headed p s nodes) {op : ListOp} (hop : s.Possible op) :
    ∃ t nodes, s.listStep op = some t ∧ Headed p t nodes := by
  have hsame (hmoved : ∃ t, s.listStep op = some t ∧ Headed p t nodes) :
      ∃ t nodes, s.listStep op = some t ∧ Headed p t nodes := by
    obtain ⟨t, ht, hheaded⟩ := hmoved
    exact ⟨t, nodes, ht, hheaded⟩
  cases op with
  | op op =>
    cases op with
    | addBrowser vmeAddr answer =>
      apply h.addBrowser
      rintro q rfl
      exact hop
    | bugoto => exact hsame (h.onBufferList Buffers.bugoto h.bugoto)
    | inphome =>
      obtain ⟨rest, hrest⟩ := h.exists_rest
      apply hsame
      rw [listStep, Buffers.step, h.head]
      exact h.goto (hrest ▸ List.mem_cons_self)
    | inpnext => exact hsame h.buffernext
    | inptoggle =>
      obtain ⟨q, hlast, hq⟩ := hop
      apply hsame
      rw [listStep, Buffers.step, bufferback, hlast]
      exact h.goto (h.live q hq)
    | inpup => exact hsame (h.onBufferList (fun s => some s.buup) ⟨_, rfl, h.buup⟩)
    | inpdn => exact hsame (h.onBufferList Buffers.budn h.budn)
    | inppgup => exact hsame (h.onBufferList (fun s => some s.bupgup) ⟨_, rfl, h.bupgup⟩)
    | inppgdn => exact hsame (h.onBufferList Buffers.bupgdn h.bupgdn)
    | inpkill => exact h.inpkill
    | ttsize rows =>
      exact ⟨_, nodes, rfl, ⟨h.list, h.live, hop⟩, h.head, h.mode, h.current, h.low, h.high⟩
  | cursleft => exact hsame (h.onBufferList (fun s => some s.buleft) ⟨s, rfl, h⟩)
  | cursright => exact hsame (h.onBufferList (fun s => some s.buright) ⟨s, rfl, h⟩)
  | cursend => exact hsame (h.onBufferList Buffers.buend h.buend)
  | curshome => exact hsame (h.onBufferList (fun s => some s.buhome) ⟨_, rfl, h.buhome⟩)

/-- A step that leads to a next state was possible, if it leaves three rows. -/
theorem possible_of_listStep {op : ListOp} (hstep : s.listStep op = some t)
    (hrows : ∀ rows, op = .op (.ttsize rows) → 3 ≤ rows) : s.Possible op := by
  cases op with
  | op op =>
    cases op with
    | addBrowser vmeAddr answer =>
      cases answer with
      | none => trivial
      | some q => exact notMem_of_addBrowser hstep
    | inptoggle =>
      obtain ⟨shown, hshown, -⟩ := Option.map_eq_some_iff.mp hstep
      obtain ⟨buf, hbuf, -⟩ := Option.bind_eq_some_iff.mp hshown
      obtain ⟨q, hlast, hq⟩ := Option.bind_eq_some_iff.mp hbuf
      exact ⟨q, hlast, Finmap.mem_iff.mpr ⟨buf, hq⟩⟩
    | ttsize rows => exact hrows rows rfl
    | _ => trivial
  | _ => trivial

/-- Every run keeps a list that has a head. -/
theorem Headed.run (h : Headed p s nodes) {ops : List ListOp}
    (hrows : ∀ rows, .op (.ttsize rows) ∈ ops → 3 ≤ rows) (hrun : s.listRun ops = some t) :
    ∃ nodes, Headed p t nodes := by
  induction ops generalizing s nodes with
  | nil => exact ⟨nodes, Option.some.inj hrun ▸ h⟩
  | cons op ops ih =>
    rw [listRun, List.foldlM_cons] at hrun
    obtain ⟨u, hstep, hrun⟩ := Option.bind_eq_some_iff.mp hrun
    have hop : s.Possible op := by
      apply possible_of_listStep hstep
      rintro rows rfl
      exact hrows rows List.mem_cons_self
    obtain ⟨u', nodes', hu', hnodes'⟩ := h.exists_step hop
    obtain rfl := Option.some.inj (hu'.symm.trans hstep)
    exact ih hnodes' (fun rows hin => hrows rows (List.mem_cons_of_mem _ hin)) hrun

/-- At the start of the program the buffer list is made last. -/
theorem exists_headed_start {crates : List (Option Ptr)} {ttnrows : ℤ} (hrows : 3 ≤ ttnrows)
    (hstart : start crates (some p) ttnrows = some s) : ∃ nodes, Headed p s nodes := by
  obtain ⟨u, hu, hstart⟩ := Option.bind_eq_some_iff.mp hstart
  obtain ⟨v, hv, hstart⟩ := Option.bind_eq_some_iff.mp hstart
  obtain ⟨w, hw, rfl⟩ := Option.map_eq_some_iff.mp hv
  have hempty : Listed ⟨∅, none, none, none, 0, ttnrows⟩ [] :=
    ⟨rfl, fun q hq => absurd hq Finmap.notMem_empty, hrows⟩
  obtain ⟨nodes, hnodes⟩ := hempty.foldlM_ctrlnew hu
  obtain ⟨-, hlist, hhead, hmode, -, -, -, -, hrows', hheap⟩ := buffernew_spec hnodes.list hw
  have hheaded : Headed p { w with cpos := 0, gBuffer := w.gHeadbuf } (p :: nodes) := by
    refine ⟨⟨hlist, fun q hq => ?_, hrows' ▸ hnodes.rows⟩, hhead, hmode, ⟨p, List.mem_cons_self, hhead⟩,
      Int.le_refl 0, ?_⟩
    · rcases (hheap q).mp hq with rfl | hq
      · exact List.mem_cons_self
      · exact List.mem_cons_of_mem _ (hnodes.live q hq)
    · exact Int.natCast_pos.mpr (Nat.succ_pos _)
  obtain ⟨t, ht, hgone⟩ := hheaded.goto List.mem_cons_self
  have hstart' : ({ w with cpos := 0, gBuffer := w.gHeadbuf } : Buffers).buffergoto (some p) = some s :=
    hhead ▸ hstart
  obtain rfl := Option.some.inj (ht.symm.trans hstart')
  exact ⟨_, hgone⟩

/-- The list has every live buffer exactly once, and the cursor is on it; its head is the buffer list, and a
kill from there leaves it; and the program goes on with every step that is possible. -/
structure ListKept (p : Ptr) (s : Buffers) : Prop where
  list : ∃ nodes, LinkedList s.next s.gHeadbuf nodes ∧ nodes.Nodup ∧ (∀ q, q ∈ nodes ↔ q ∈ s.heap) ∧
    0 ≤ s.cpos ∧ s.cpos < nodes.length
  head : s.gHeadbuf = some p ∧ s.modeAt p = some .bumode
  under : ∃ q, s.pos2buf s.cpos = some (some q)
  kill : ∀ pbuf, ∃ t, s.bukill pbuf = some t ∧ t.gHeadbuf = some p ∧ p ∈ t.heap
  step : ∀ op, s.Possible op → ∃ t, s.listStep op = some t

/-- The head of the list is in memory. -/
theorem Headed.mem_heap (h : Headed p s nodes) : p ∈ s.heap := by
  obtain ⟨buf, hbuf, -⟩ := Option.map_eq_some_iff.mp h.mode
  exact Finmap.mem_iff.mpr ⟨buf, hbuf⟩

/-- This is what the invariant says. -/
theorem Headed.kept (h : Headed p s nodes) : ListKept p s where
  list := by
    refine ⟨nodes, h.list, h.list.nodup, fun q => ⟨fun hq => ?_, h.live q⟩, h.low, h.high⟩
    obtain ⟨buf, hbuf⟩ := exists_buffer h.list hq
    exact Finmap.mem_iff.mpr ⟨buf, hbuf⟩
  head := ⟨h.head, h.mode⟩
  under := by
    obtain ⟨-, q, -, -, -, hunder⟩ := h.exists_under
    exact ⟨q, hunder⟩
  kill := by
    intro pbuf
    obtain ⟨t, nodes', ht, hheaded⟩ := h.bukill pbuf
    exact ⟨t, ht, hheaded.head, hheaded.mem_heap⟩
  step := by
    intro op hop
    obtain ⟨t, -, ht, -⟩ := h.exists_step hop
    exact ⟨t, ht⟩

end Buffers

/-- **The structure of the buffer list.** On a terminal of three rows at least, once the buffer list is
made, every state that a run reaches has all live buffers in the list from `g_headbuf`, each once, with the
buffer list at its head and the cursor on one of them. -/
theorem bufferlist_kept {crates : List (Option Ptr)} {p : Ptr} {ttnrows : ℤ} {s t : Buffers}
    (hrows : 3 ≤ ttnrows) (hstart : Buffers.start crates (some p) ttnrows = some s) {ops : List ListOp}
    (hsizes : ∀ rows, .op (.ttsize rows) ∈ ops → 3 ≤ rows) (hrun : s.listRun ops = some t) :
    t.ListKept p := by
  obtain ⟨nodes, hnodes⟩ := Buffers.exists_headed_start hrows hstart
  obtain ⟨nodes', hnodes'⟩ := hnodes.run hsizes hrun
  exact hnodes'.kept

/-- Two browsers are added, the cursor goes to the last one and it is killed; there is no memory for another
one. -/
def killLast : List ListOp :=
  [.op (.addBrowser 0 (some 2)), .op (.addBrowser 0x1000 (some 3)), .cursend, .op .inpkill,
    .op (.addBrowser 0 none)]

/-- A run on a small terminal, after the registers of one crate. -/
theorem bufferlist_kept_killLast :
    ∃ s t, Buffers.start [some 0] (some 1) 3 = some s ∧ s.listRun killLast = some t ∧ t.ListKept 1 := by
  have hran : ((Buffers.start [some 0] (some 1) 3).bind fun s => s.listRun killLast).isSome := by decide
  obtain ⟨t, ht⟩ := Option.isSome_iff_exists.mp hran
  obtain ⟨s, hs, hrun⟩ := Option.bind_eq_some_iff.mp ht
  refine ⟨s, t, hs, hrun, bufferlist_kept (Int.le_refl 3) hs (fun rows hin => ?_) hrun⟩
  simp [killLast] at hin

end V120.Tui
