import V120.Irqd.SharedLines

/-!
# `process_vme` comes to an end

A crate with any finite collection of pending interrupters and no new ones. Which of those pending on a
line gets the acknowledge cycle is anybody's choice. A ROAK interrupter withdraws its request with its
vector, a RORA interrupter when its client answers `ACK`. Each pass over such a crate either loses an
interrupter or switches a line off, so their number and the number of enabled lines together bound the
vectors that are fetched.
-/

namespace V120.Irqd

open V120.Common

/-- When an interrupter withdraws its request: release on acknowledge, or release on register access,
which the driver of the interrupter does before it answers. -/
inductive Release where
  | roak
  | rora
  deriving DecidableEq

/-- An interrupter that is pending on one of the lines 1 to 7. -/
structure Interrupter where
  line : ℕ
  vector : BitVec 32
  release : Release
  range : 1 ≤ line ∧ line ≤ 7
  deriving DecidableEq

/-- What a client does with the signal it got. -/
inductive ClientAnswer where
  | message (buf : ResponseBuffer)
  | hungUp
  | failed (errno : Errno)

/-- What `read` makes of the answer of a client. -/
def ClientAnswer.received : ClientAnswer → Received
  | .message buf => .message buf
  | .hungUp => .ended
  | .failed errno => .failed errno

/-- Whether it is an `ACK`. -/
def ClientAnswer.acks : ClientAnswer → Bool
  | .message buf => buf.msg == .ack
  | _ => false

/-- Everything that is left open: which interrupter a line grants its acknowledge cycle, whether a
signal reaches its client, what the client answers, and what uninitialised buffers hold. -/
structure Choices (ε : Type*) where
  grant : ℕ → ε → ℕ × ε
  send : ℤ → ResponseBuffer → ε → Option Errno × ε
  answer : ℤ → ε → ClientAnswer × ε
  stale : ε → ResponseBuffer × ε

/-- A crate: its pending interrupters, the RORA interrupter that was acknowledged last, and the state of
the choices. -/
structure PendingCrate (ε : Type*) where
  pending : List Interrupter
  served : Option Interrupter
  choices : ε

namespace PendingCrate

variable {ε : Type*}

/-- The interrupters pending on a line. -/
def onLine (s : PendingCrate ε) (irq : ℕ) : List Interrupter := s.pending.filter fun p => p.line == irq

/-- The lines the pending interrupters assert. -/
def asserted (s : PendingCrate ε) : BitVec 32 := requests (s.pending.map fun p => (p.line, p.vector))

/-- The served interrupter withdraws its request. -/
def withdraw (s : PendingCrate ε) : PendingCrate ε :=
  match s.served with
  | none => s
  | some p => { s with pending := s.pending.erase p, served := none }

/-- An interrupter gets the acknowledge cycle. -/
def acknowledge (s : PendingCrate ε) (p : Interrupter) : PendingCrate ε :=
  match p.release with
  | .roak => { s with pending := s.pending.erase p, served := none }
  | .rora => { s with served := some p }

end PendingCrate

section Crate

variable {ε : Type*} (choices : Choices ε)

/-- The crate as the daemon sees it. An acknowledge cycle goes to some interrupter pending on the line;
without one it is spurious. -/
def pendingSystem : System (PendingCrate ε) :=
  { System.silent with
    irqstatus := fun _ s => (s.asserted, s)
    iackVector := fun _ irq s =>
      let (k, rest) := choices.grant irq s.choices
      let s := { s with choices := rest }
      match (s.onLine irq)[k % (s.onLine irq).length]? with
      | none => (BitVec.allOnes 32, s)
      | some p => (p.vector, s.acknowledge p)
    sockets := {
      write := fun sock buf s =>
        let (result, rest) := choices.send sock buf s.choices
        (result, { s with choices := rest })
      read := fun sock s =>
        let (answer, rest) := choices.answer sock s.choices
        let s := { s with choices := rest }
        (answer.received, if answer.acks then s.withdraw else s)
      stale := fun s =>
        let (buf, rest) := choices.stale s.choices
        (buf, { s with choices := rest }) } }

/-- The number of lines that are enabled. -/
def enabledLines (irqen : BitVec 32) : ℕ := [1, 2, 3, 4, 5, 6, 7].countP irqen.getLsbD

namespace PendingCrate

/-- A line is asserted when an interrupter is pending on it. -/
theorem getLsbD_asserted (s : PendingCrate ε) {irq : ℕ} (hirq : irq < 32) :
    s.asserted.getLsbD irq = true ↔ ∃ p ∈ s.pending, p.line = irq := by
  rw [asserted, getLsbD_requests hirq, vectorsOn, ne_eq, List.map_eq_nil_iff, List.filter_eq_nil_iff]
  simp

/-- With its vector an interrupter withdraws its request if it is a ROAK interrupter. -/
theorem pending_acknowledge (s : PendingCrate ε) (p : Interrupter) :
    (s.acknowledge p).pending = if p.release = .roak then s.pending.erase p else s.pending := by
  unfold acknowledge
  cases p.release <;> rfl

/-- After an `ACK` the interrupter that was acknowledged is gone, whichever kind it is. -/
theorem pending_withdraw_acknowledge (s : PendingCrate ε) (p : Interrupter) :
    (s.acknowledge p).withdraw.pending = s.pending.erase p := by
  unfold acknowledge
  cases p.release <;> rfl

/-- A client's `ACK` takes away at most the request it answers. -/
theorem length_withdraw (s : PendingCrate ε) : s.withdraw.pending.length ≤ s.pending.length := by
  unfold withdraw
  split
  · exact le_rfl
  · exact List.length_erase_le

end PendingCrate

/-- The acknowledge cycle of an asserted line goes to an interrupter that is pending on it. -/
theorem iackVector_pending (idx : ℕ) {irq : ℕ} (w : World (PendingCrate ε))
    (h : ∃ p ∈ w.outside.pending, p.line = irq) :
    ∃ p ∈ w.outside.pending, p.line = irq ∧ ∃ rest w',
      w.iackVector (pendingSystem choices) idx irq = (p.vector, w') ∧
        Io w w' [.iackVector idx irq p.vector] ∧
        w'.outside = PendingCrate.acknowledge { w.outside with choices := rest } p := by
  obtain ⟨q, hq, hline⟩ := h
  have hmem : q ∈ w.outside.onLine irq := List.mem_filter.mpr ⟨hq, beq_iff_eq.mpr hline⟩
  have hlt : (choices.grant irq w.outside.choices).1 % (w.outside.onLine irq).length <
      (w.outside.onLine irq).length := Nat.mod_lt _ (List.length_pos_of_mem hmem)
  have hgranted := List.getElem_mem hlt
  generalize hp : (w.outside.onLine irq)[(choices.grant irq w.outside.choices).1 %
    (w.outside.onLine irq).length] = p at hgranted
  obtain ⟨hpending, hpline⟩ := List.mem_filter.mp hgranted
  refine ⟨p, hpending, beq_iff_eq.mp hpline, (choices.grant irq w.outside.choices).2,
    { w.log (.iackVector idx irq p.vector) with
      outside := PendingCrate.acknowledge
        { w.outside with choices := (choices.grant irq w.outside.choices).2 } p }, ?_, ⟨rfl, rfl⟩, rfl⟩
  have hsome : (w.outside.onLine irq)[(choices.grant irq w.outside.choices).1 %
      (w.outside.onLine irq).length]? = some p := List.getElem?_eq_some_iff.mpr ⟨hlt, hp⟩
  have hfetch : (pendingSystem choices).iackVector idx irq w.outside =
      (p.vector, PendingCrate.acknowledge
        { w.outside with choices := (choices.grant irq w.outside.choices).2 } p) := by
    unfold PendingCrate.onLine at hsome
    simp only [pendingSystem, PendingCrate.onLine, hsome]
  rw [World.iackVector, hfetch]
  rfl

/-- A handshake is acknowledged by an `ACK` and by nothing else. -/
theorem acknowledged_received (answer : ClientAnswer) (buf : ResponseBuffer) :
    acknowledged answer.received.len (answer.received.fill buf) = 0 ↔ answer.acks = true := by
  cases answer with
  | message answer =>
    rw [ClientAnswer.received, Received.len_message, Received.fill_message, (acknowledged_all answer).1,
      ClientAnswer.acks, beq_iff_eq]
  | hungUp =>
    simp [ClientAnswer.received, ClientAnswer.acks, acknowledged, econnreset]
  | failed errno =>
    have hpos := errno.property
    have hneg : (Received.failed errno).len < 0 := Int.neg_neg_of_pos hpos
    rw [ClientAnswer.received, acknowledged, if_pos hneg]
    exact iff_of_false (Int.ne_of_lt hneg) Bool.false_ne_true

/-- A notification succeeds when the client answers `ACK`, and then the interrupter it was for is gone;
when it fails nobody withdraws. -/
theorem interrupt_pending (sock : ℤ) (sel : V120irqdSelector) (w : World (PendingCrate ε)) :
    ∃ w' ret es, v120irqdInterrupt (World.sockets (pendingSystem choices)) sock sel w = (ret, w') ∧
      Io w w' es ∧ fetched es = [] ∧
      w'.outside.pending = if ret = 0 then w.outside.withdraw.pending else w.outside.pending := by
  let io := World.sockets (pendingSystem choices)
  let entry := io.stale w
  let buf := (entry.1.setMsg .irqSignal).setSelector sel
  let written := io.write sock buf entry.2
  let answer := (choices.answer sock written.2.outside.choices).1
  let crate : PendingCrate ε :=
    { written.2.outside with choices := (choices.answer sock written.2.outside.choices).2 }
  have hdef : v120irqdInterrupt io sock sel w =
      if sent written.1 < 0 then (sent written.1, written.2)
      else (acknowledged answer.received.len (answer.received.fill buf), (io.read sock written.2).2) := rfl
  have hwrite : Io w written.2 [.write sock buf written.1] := ⟨rfl, rfl⟩
  rw [hdef]
  by_cases hlost : sent written.1 < 0
  · rw [if_pos hlost]
    exact ⟨_, _, _, rfl, hwrite, rfl, by rw [if_neg (Int.ne_of_lt hlost)]; rfl⟩
  · rw [if_neg hlost]
    have hread : Io written.2 (io.read sock written.2).2 [.read sock answer.received] := ⟨rfl, rfl⟩
    have houtside : (io.read sock written.2).2.outside = if answer.acks then crate.withdraw else crate := rfl
    have hwithdrawn : crate.withdraw.pending = w.outside.withdraw.pending := by
      have hserved : crate.served = w.outside.served := rfl
      have hsame : crate.pending = w.outside.pending := rfl
      unfold PendingCrate.withdraw
      rw [hserved]
      cases w.outside.served with
      | none => exact hsame
      | some p => exact congrArg (List.erase · p) hsame
    refine ⟨_, _, _, rfl, hwrite.trans hread, rfl, ?_⟩
    rw [houtside]
    by_cases hacks : answer.acks = true
    · rw [if_pos hacks, if_pos ((acknowledged_received answer buf).mpr hacks), hwithdrawn]
    · rw [if_neg hacks, if_neg fun h => hacks ((acknowledged_received answer buf).mp h)]
      rfl

/-- `notify_irq` withdraws the served interrupter when its client acknowledges, and nobody otherwise; an
interrupt without a client fails. -/
theorem notifyIrq_pending (sel : V120irqdSelector) (w : World (PendingCrate ε)) :
    ∃ w' ret es, notifyIrq (pendingSystem choices) sel w = (ret, w') ∧ Io w w' es ∧ fetched es = [] ∧
      w'.outside.pending = if ret = 0 then w.outside.withdraw.pending else w.outside.pending := by
  have hlog := io_log w (.lookup sel)
  cases hfind : findInterrupt sel w.daemon.vectorTable with
  | error errno =>
    have hne : -einval ≠ 0 := by decide
    exact ⟨_, _, _, notifyIrq_unmatched _ hfind, hlog, rfl, by rw [if_neg hne]; rfl⟩
  | ok found =>
    obtain ⟨sock, found⟩ := found
    obtain ⟨w', ret, es, hinterrupt, hio, hfetched, hpending⟩ :=
      interrupt_pending choices sock found (w.log (.lookup sel))
    have hnotify := (notifyIrq_matched _ hfind).trans hinterrupt
    exact ⟨w', ret, _, hnotify, hlog.trans hio, by rw [fetched_append, hfetched]; rfl, hpending⟩

/-- What bounds the search: each pass loses an interrupter or an enabled line. -/
def workLeft (s : PendingCrate ε) (irqen : BitVec 32) : ℕ := s.pending.length + enabledLines irqen

/-- Switching a line off that is on. -/
theorem enabledLines_clear {irqen : BitVec 32} {irq : ℕ} (hline : 1 ≤ irq ∧ irq ≤ 7)
    (hon : irqen.getLsbD irq = true) :
    enabledLines (irqen &&& ~~~((1 : BitVec 32) <<< irq)) + 1 = enabledLines irqen := by
  have hmem : irq ∈ [1, 2, 3, 4, 5, 6, 7] := by simp; omega
  have hsplit (lines : List ℕ) (hnodup : lines.Nodup) (hmem : irq ∈ lines) :
      lines.countP (irqen &&& ~~~((1 : BitVec 32) <<< irq)).getLsbD + 1 = lines.countP irqen.getLsbD := by
    induction lines with
    | nil => exact absurd hmem List.not_mem_nil
    | cons line lines ih =>
      rw [List.nodup_cons] at hnodup
      rw [List.countP_cons, List.countP_cons, getLsbD_clear]
      rcases List.mem_cons.mp hmem with rfl | hmem
      · have hother : lines.countP (irqen &&& ~~~((1 : BitVec 32) <<< irq)).getLsbD =
            lines.countP irqen.getLsbD := by
          apply List.countP_congr
          intro other hother
          have hne : irq ≠ other := fun h => hnodup.1 (h ▸ hother)
          rw [getLsbD_clear, decide_eq_true hne, Bool.and_true]
        rw [hother, hon, if_pos rfl, decide_eq_false fun h => h rfl]
        rfl
      · have hne : irq ≠ line := fun h => hnodup.1 (h ▸ hmem)
        rw [decide_eq_true hne, Bool.and_true]
        have hrest := ih hnodup.2 hmem
        omega
  exact hsplit _ (by decide) hmem

/-- What one pass over a crate does: no enabled line is asserted, or it fetches one vector and there is
less work left. -/
inductive PendingPass (idx : ℕ) (locals : VmeLocals) (w : World (PendingCrate ε)) :
    VmeNext (PendingCrate ε) → Prop where
  | idle {w' : World (PendingCrate ε)} (status : BitVec 32) (houtside : w'.outside = w.outside)
      (hnone : ∀ irq, locals.irqen.getLsbD irq = true → ¬ ∃ p ∈ w.outside.pending, p.line = irq)
      (hio : Io w w' [.irqstatus idx status]) : PendingPass idx locals w (.returned w')
  | served {locals' : VmeLocals} {w' : World (PendingCrate ε)} (es : List Event)
      (hless : workLeft w'.outside locals'.irqen < workLeft w.outside locals.irqen)
      (hfetched : (fetched es).length = 1)
      (hdaemon : w'.daemon = w.daemon.setIrqen idx locals'.irqen)
      (htrace : w'.trace = w.trace ++ es) : PendingPass idx locals w (.irqsearch locals' w')

/-- An acknowledge cycle and its notification: one interrupter of the line is gone, unless it is a RORA
interrupter that was not acknowledged. -/
theorem serve_pending (idx : ℕ) {irq : ℕ} (select : BitVec 32 → V120irqdSelector)
    (w : World (PendingCrate ε)) (h : ∃ p ∈ w.outside.pending, p.line = irq) :
    ∃ p ∈ w.outside.pending, p.line = irq ∧ ∃ w₁ w₂ ret es,
      w.iackVector (pendingSystem choices) idx irq = (p.vector, w₁) ∧
        notifyIrq (pendingSystem choices) (select p.vector) w₁ = (ret, w₂) ∧ Io w w₂ es ∧
        (fetched es).length = 1 ∧
        (w₂.outside.pending = w.outside.pending.erase p ∨
          ret ≠ 0 ∧ w₂.outside.pending = w.outside.pending) := by
  obtain ⟨p, hp, hline, rest, w₁, hfetch, hio, hgranted⟩ := iackVector_pending choices idx w h
  obtain ⟨w₂, ret, es, hnotify, hio', hfetched, hpending⟩ :=
    notifyIrq_pending choices (select p.vector) w₁
  refine ⟨p, hp, hline, w₁, w₂, ret, _, hfetch, hnotify, hio.trans hio', ?_, ?_⟩
  · rw [fetched_append, hfetched]
    rfl
  · rw [hgranted, PendingCrate.pending_withdraw_acknowledge, PendingCrate.pending_acknowledge] at hpending
    by_cases hret : ret = 0
    · rw [if_pos hret] at hpending
      exact Or.inl hpending
    · rw [if_neg hret] at hpending
      by_cases hroak : p.release = .roak
      · rw [if_pos hroak] at hpending
        exact Or.inl hpending
      · rw [if_neg hroak] at hpending
        exact Or.inr ⟨hret, hpending⟩

/-- Every pass over a crate is one of these. -/
theorem irqsearch_pending (n : Fin 16) (idx : ℕ) (locals : VmeLocals) (w : World (PendingCrate ε))
    (hcached : w.daemon.irqen idx = locals.irqen) :
    PendingPass idx locals w (irqsearch (pendingSystem choices) idx n locals w) := by
  have hlines (irq : ℕ) (hirq : w.outside.asserted.getLsbD irq = true) : 1 ≤ irq ∧ irq ≤ 7 := by
    obtain ⟨p, -, rfl⟩ := (w.outside.getLsbD_asserted (BitVec.lt_of_getLsbD hirq)).mp hirq
    exact p.range
  rcases irqsearch_asserted (pendingSystem choices) idx PendingCrate.asserted
    (fun _ => rfl) n locals w hlines hcached with
    ⟨hnone, hreturned⟩ | ⟨irq, hrange, hon, hset, hnext⟩
  · rw [hreturned]
    refine .idle _ rfl (fun irq hirq hpending => ?_) (io_log w _)
    have hbit := (w.outside.getLsbD_asserted (BitVec.lt_of_getLsbD hirq)).mpr hpending
    exact absurd (hbit.symm.trans (hnone irq hirq)) Bool.false_ne_true.symm
  · have hlt : irq < 32 := by omega
    obtain ⟨p, hp, hline, w₁, w₂, ret, es, hfetch, hnotify, hio, hfetched, hpending⟩ :=
      serve_pending choices idx (fun vector => concrete n irq vector locals.selector.payload)
        (w.log (.irqstatus idx w.outside.asserted)) ((w.outside.getLsbD_asserted hlt).mp hset)
    have hmem : p ∈ w.outside.pending := hp
    obtain ⟨locals', w', hsearch, hend⟩ := hnext p.vector w₁ ret w₂ _ hfetch hnotify ((io_log w _).trans hio)
    obtain ⟨last, htrace, hlast, -⟩ := hend.trace
    have hless : workLeft w₂.outside locals'.irqen < workLeft w.outside locals.irqen := by
      rw [hend.irqen]
      rcases hpending with herase | ⟨hret, hsame⟩
      · -- the interrupter is gone, and no line is switched on
        have hgone := List.length_erase_of_mem hmem
        have hpos := List.length_pos_of_mem hmem
        have hlength : w₂.outside.pending.length + 1 = w.outside.pending.length := by
          rw [herase]
          exact (congrArg (· + 1) hgone).trans (Nat.sub_add_cancel hpos)
        have hfewer := enabledLines_clear hrange hon
        rw [workLeft, workLeft]
        split <;> omega
      · -- the interrupter still asserts its line, which is switched off
        have hstill : w₂.outside.asserted.getLsbD irq = true :=
          (w₂.outside.getLsbD_asserted hlt).mpr ⟨p, hsame.symm ▸ hp, hline⟩
        have hfewer := enabledLines_clear hrange hon
        have hlength : w₂.outside.pending.length = w.outside.pending.length := congrArg List.length hsame
        rw [decide_eq_false hret, hstill, Bool.not_true, Bool.or_false, if_neg Bool.false_ne_true,
          workLeft, workLeft]
        omega
    rw [hsearch]
    refine .served _ (hend.outside.symm ▸ hless) ?_ hend.daemon htrace
    rw [fetched_append, fetched_append, hlast, List.append_nil]
    exact hfetched

/-- The search over a crate ends after at most as many vectors as there is work, with no enabled line
asserted. -/
theorem irqsearchLoop_pending (n : Fin 16) (idx : ℕ) (locals : VmeLocals) (w : World (PendingCrate ε))
    (hidx : idx < w.daemon.v120Info.length) (hcached : w.daemon.irqen idx = locals.irqen) :
    ∃ w' es, (∀ fuel, workLeft w.outside locals.irqen < fuel →
        irqsearchLoop (pendingSystem choices) idx n fuel locals w = .done w') ∧
      w'.trace = w.trace ++ es ∧ (fetched es).length ≤ workLeft w.outside locals.irqen ∧
      ∀ irq, (w'.daemon.irqen idx).getLsbD irq = true → ¬ ∃ p ∈ w'.outside.pending, p.line = irq := by
  induction hwork : workLeft w.outside locals.irqen using Nat.strong_induction_on generalizing locals w with
  | h work ih =>
    have hpass := irqsearch_pending choices n idx locals w hcached
    have hloop (fuel : ℕ) : irqsearchLoop (pendingSystem choices) idx n (fuel + 1) locals w =
        match irqsearch (pendingSystem choices) idx n locals w with
        | .irqsearch locals w => irqsearchLoop (pendingSystem choices) idx n fuel locals w
        | .returned w => .done w
        | .fatal w => .exited w := by
      rw [irqsearchLoop]
      cases irqsearch (pendingSystem choices) idx n locals w <;> rfl
    generalize irqsearch (pendingSystem choices) idx n locals w = next at hpass hloop
    cases hpass with
    | @idle w' status houtside hnone hio =>
      refine ⟨w', _, fun fuel hfuel => ?_, hio.trace, Nat.zero_le _, fun irq hirq => ?_⟩
      · obtain ⟨fuel, rfl⟩ := Nat.exists_eq_succ_of_ne_zero (Nat.ne_zero_of_lt hfuel)
        exact hloop fuel
      · rw [hio.daemon, hcached] at hirq
        rw [houtside]
        exact hnone irq hirq
    | @served locals₁ w₁ es hless hfetched hdaemon htrace =>
      have hidx₁ : idx < w₁.daemon.v120Info.length := by
        rw [hdaemon, length_setIrqen]
        exact hidx
      have hcached₁ : w₁.daemon.irqen idx = locals₁.irqen := by
        rw [hdaemon, Daemon.irqen_setIrqen hidx]
      obtain ⟨w', more, hdone, hmore, hcount, hidle⟩ := ih _ (hwork ▸ hless) locals₁ w₁ hidx₁ hcached₁ rfl
      refine ⟨w', es ++ more, fun fuel hfuel => ?_, ?_, ?_, hidle⟩
      · obtain ⟨fuel, rfl⟩ := Nat.exists_eq_succ_of_ne_zero (Nat.ne_zero_of_lt hfuel)
        rw [hloop]
        exact hdone fuel (by omega)
      · rw [hmore, htrace, List.append_assoc]
      · rw [fetched_append, List.length_append, hfetched]
        omega

/-- **`process_vme` terminates.** On a crate with any collection of pending ROAK and RORA interrupters
and no new ones, whatever interrupter a line grants its acknowledge cycle, whatever the vector table holds
and whatever the clients answer, it returns, after at most as many vector fetches as there are pending
interrupters and enabled lines, and then no enabled line is asserted. -/
theorem processVme_terminates {idx : ℕ} {w : World (PendingCrate ε)} {info : V120Info}
    (hinfo : w.daemon.v120Info[idx]? = some info) :
    ∃ w' es, (∀ fuel, w.outside.pending.length + enabledLines (w.daemon.irqen idx) < fuel →
        processVme (pendingSystem choices) fuel idx w = .done w') ∧
      w'.trace = w.trace ++ es ∧
      (fetched es).length ≤ w.outside.pending.length + enabledLines (w.daemon.irqen idx) ∧
      ∀ irq, (w'.daemon.irqen idx).getLsbD irq = true → ¬ ∃ p ∈ w'.outside.pending, p.line = irq := by
  obtain ⟨received, hio⟩ := vmeEntry_io (pendingSystem choices) idx w
  have hlocals : (vmeEntry (pendingSystem choices) idx w).1.irqen = w.daemon.irqen idx := rfl
  have hidx : idx < (vmeEntry (pendingSystem choices) idx w).2.daemon.v120Info.length := by
    rw [hio.daemon]
    exact (List.getElem?_eq_some_iff.mp hinfo).1
  obtain ⟨w', es, hdone, htrace, hcount, hidle⟩ := irqsearchLoop_pending choices info.cratenumber idx
    (vmeEntry (pendingSystem choices) idx w).1 (vmeEntry (pendingSystem choices) idx w).2 hidx
    (by rw [hio.daemon, hlocals])
  -- the read that resets the endpoint withdraws no more than a client's answer would
  have hfewer : (vmeEntry (pendingSystem choices) idx w).2.outside.pending.length ≤
      w.outside.pending.length := by
    let answer := choices.answer (w.pollfd (pendingSystem choices) idx).fd w.outside.choices
    have hread : (vmeEntry (pendingSystem choices) idx w).2.outside.pending =
        (if answer.1.acks then PendingCrate.withdraw { w.outside with choices := answer.2 }
          else { w.outside with choices := answer.2 }).pending := rfl
    rw [hread]
    split
    · exact PendingCrate.length_withdraw _
    · exact le_rfl
  have hwork : workLeft (vmeEntry (pendingSystem choices) idx w).2.outside
      (vmeEntry (pendingSystem choices) idx w).1.irqen ≤
        w.outside.pending.length + enabledLines (w.daemon.irqen idx) :=
    Nat.add_le_add hfewer le_rfl
  refine ⟨w', [.processVme (w.pollfd (pendingSystem choices) idx).fd,
    .read (w.pollfd (pendingSystem choices) idx).fd received] ++ es, fun fuel hfuel => ?_, ?_, ?_, hidle⟩
  · rw [processVme_eq hinfo]
    exact hdone fuel (hwork.trans_lt hfuel)
  · rw [htrace, hio.trace, List.append_assoc]
  · rw [fetched_append]
    exact hcount.trans hwork

end Crate

/-- A line that grants its first interrupter, and clients that hang up. -/
def silentChoices : Choices Unit :=
  ⟨fun _ s => (0, s), fun _ _ s => (none, s), fun _ s => (.hungUp, s), fun s => (⟨0⟩, s)⟩

/-- Two interrupters share line 1 of a crate, and neither has a client: one vector of each kind is not
more than two interrupters and one enabled line allow. -/
theorem processVme_terminates_shared :
    let pending : List Interrupter := [⟨1, 7, .rora, by decide⟩, ⟨1, 8, .roak, by decide⟩]
    let w : World (PendingCrate Unit) :=
      ⟨⟨PollList.empty, [⟨0, 2⟩], [], false⟩, ⟨pending, none, ()⟩, []⟩
    ∃ w' es, (∀ fuel, 3 < fuel →
        processVme (pendingSystem silentChoices) fuel 0 w = .done w') ∧
      w'.trace = w.trace ++ es ∧ (fetched es).length ≤ 3 ∧
      ∀ irq, (w'.daemon.irqen 0).getLsbD irq = true → ¬ ∃ p ∈ w'.outside.pending, p.line = irq := by
  intro pending w
  have hinfo : w.daemon.v120Info[0]? = some ⟨0, 2⟩ := rfl
  have hwork : w.outside.pending.length + enabledLines (w.daemon.irqen 0) = 3 := by decide
  have hterminates := processVme_terminates silentChoices hinfo
  rw [hwork] at hterminates
  exact hterminates

end V120.Irqd
