import V120.Irqd.Connections
import V120.Irqd.EnableMasks

/-!
# The fatal branches of the daemon

`process_vme` exits when a pending line is none of the lines 1 to 7, and `remove_fd` when its index
is no client's. Neither happens: only legal registrations reach the enable registers, on both ways of
updating them, and the poll list always goes past the crates and the server socket.
-/

namespace V120.Irqd

open V120.Common

/-- The lines 1 to 7 in an enable register. -/
def vmeLines : BitVec 32 := 0xFE

/-- No crate enables anything but the lines 1 to 7. -/
def LegalMasks (d : Daemon) : Prop := ∀ info ∈ d.v120Info, MaskIn info.irqen vmeLines

/-- The lines of an enable register are 1 to 7. -/
theorem vmeLines_bit {i : ℕ} (h : vmeLines.getLsbD i = true) : 1 ≤ i ∧ i ≤ 7 := by
  have hbits : ∀ j : Fin 32, vmeLines.getLsbD j.val = true → 1 ≤ j.val ∧ j.val ≤ 7 := by decide
  exact hbits ⟨i, BitVec.lt_of_getLsbD h⟩ h

/-- Two masks inside a third stay inside together. -/
theorem MaskIn.or {w : ℕ} {first second outer : BitVec w} (h : MaskIn first outer)
    (h' : MaskIn second outer) : MaskIn (first ||| second) outer := by
  intro i hi
  rw [BitVec.getLsbD_or, Bool.or_eq_true] at hi
  exact hi.elim (h i) (h' i)

/-- Inclusion survives a change of width. -/
theorem MaskIn.setWidth {w : ℕ} {inner outer : BitVec w} (h : MaskIn inner outer) (v : ℕ) :
    MaskIn (inner.setWidth v) (outer.setWidth v) := by
  intro i hi
  rw [BitVec.getLsbD_setWidth, Bool.and_eq_true] at hi ⊢
  exact ⟨hi.1, h i hi.2⟩

/-- The lines of legal registrations are legal on every crate. -/
theorem foldl_addEntryMasks_legal (entries : List TableT) (irqs : CrateMasks)
    (hentries : ∀ entry ∈ entries, MaskIn entry.selector.irq anyIrq)
    (hirqs : ∀ crate, MaskIn (irqs crate) (anyIrq.setWidth 8)) (crate : Fin 16) :
    MaskIn (entries.foldl addEntryMasks irqs crate) (anyIrq.setWidth 8) := by
  induction entries generalizing irqs with
  | nil => exact hirqs crate
  | cons entry entries ih =>
    refine ih _ (fun other h => hentries other (List.mem_cons_of_mem _ h)) fun crate => ?_
    rw [addEntryMasks]
    split
    · exact (hirqs crate).or ((hentries entry List.mem_cons_self).setWidth 8)
    · exact hirqs crate

/-- What a registry enables on a crate are lines 1 to 7. -/
theorem Registry.lines_legal (r : Registry) (crate : Fin 16) :
    MaskIn ((r.lines crate).setWidth 32) vmeLines := by
  have hlegal : MaskIn (r.lines crate) (anyIrq.setWidth 8) := by
    refine foldl_addEntryMasks_legal _ _ (fun entry hentry => ?_) (fun _ i hi => ?_) crate
    · obtain ⟨reg, -, rfl⟩ := List.mem_map.mp hentry
      exact reg.legal.lines
    · simp at hi
  exact hlegal.setWidth 32

/-- Recomputed enable registers are legal. -/
theorem legalMasks_disable {d : Daemon} (h : ∃ r : Registry, d.vectorTable = r.layout) :
    LegalMasks (disableUnusedInterrupts d) := by
  obtain ⟨r, htable⟩ := h
  intro info hinfo
  rw [disableUnusedInterrupts, htable, r.listRegisteredInterrupts_layout] at hinfo
  obtain ⟨old, -, rfl⟩ := List.mem_map.mp hinfo
  exact r.lines_legal old.cratenumber

/-- Extending the enable registers by a legal request keeps them legal. -/
theorem LegalMasks.enable {d : Daemon} (h : LegalMasks d) {sel : V120irqdSelector}
    (hsel : MaskIn sel.irq anyIrq) : LegalMasks (enableInterrupts sel d) := by
  intro info hinfo
  obtain ⟨old, hold, rfl⟩ := List.mem_map.mp hinfo
  split
  · exact (h old hold).or (hsel.setWidth 32)
  · exact h old hold

/-- Writing a legal mask to an enable register keeps all of them legal. -/
theorem LegalMasks.setIrqen {d : Daemon} (h : LegalMasks d) (idx : ℕ) {value : BitVec 32}
    (hvalue : MaskIn value vmeLines) : LegalMasks (d.setIrqen idx value) := by
  intro info hinfo
  obtain ⟨j, hj⟩ := List.mem_iff_getElem?.mp hinfo
  rw [Daemon.setIrqen, List.getElem?_modify] at hj
  obtain ⟨old, hold, rfl⟩ := Option.map_eq_some_iff.mp hj
  split
  · exact hvalue
  · exact h old (List.mem_of_getElem? hold)

/-- A register that can be read is legal. -/
theorem LegalMasks.irqen {d : Daemon} (h : LegalMasks d) (idx : ℕ) :
    MaskIn (d.irqen idx) vmeLines := by
  rw [Daemon.irqen]
  cases hinfo : d.v120Info[idx]? with
  | none =>
    intro i hi
    simp at hi
  | some info => exact h info (List.mem_of_getElem? hinfo)

section Daemon

variable {σ : Type*} {sys : System σ}

/-- What keeps the daemon away from its fatal branches. -/
structure Guarded (d : Daemon) : Prop where
  table : ∃ r : Registry, d.vectorTable = r.layout
  masks : LegalMasks d
  server : d.lenCrates < d.pollfds.len

/-- At every loop head of `process_vme` the enable registers are legal. -/
theorem LoopHead.legal {idx : ℕ} {n : Fin 16} {w w₁ : World σ} {locals : VmeLocals}
    (head : LoopHead sys idx n w locals w₁) (hmasks : LegalMasks w.daemon) :
    MaskIn locals.irqen vmeLines ∧ LegalMasks w₁.daemon := by
  have hinv := head.invariant
  have hlegal : MaskIn locals.irqen vmeLines := fun i hi => hmasks.irqen idx i (hinv.lost i hi)
  exact ⟨hlegal, hinv.daemon ▸ hmasks.setIrqen idx hlegal⟩

/-- With a legal mask the line loop always finds a line, so no pass is fatal. -/
theorem irqsearch_not_fatal {idx : ℕ} {n : Fin 16} {locals : VmeLocals}
    (hlegal : MaskIn locals.irqen vmeLines) (w w' : World σ) :
    irqsearch sys idx n locals w ≠ .fatal w' := by
  intro hfatal
  have hpass := irqsearch_pass sys idx n locals w
  rw [hfatal] at hpass
  cases hpass with
  | illegal status hsome hline hio =>
    obtain ⟨i, -, hbit⟩ := exists_bit hsome
    have henabled : locals.irqen.getLsbD i = true := by
      rw [BitVec.getLsbD_and, Bool.and_eq_true] at hbit
      exact hbit.2
    rw [highestLine_eq_none hline (vmeLines_bit (hlegal i henabled))] at hbit
    exact absurd hbit (by decide)

/-- `process_vme` never exits, and leaves the enable registers legal wherever it stops. -/
theorem processVme_legal {idx : ℕ} {w : World σ} {info : V120Info}
    (hinfo : w.daemon.v120Info[idx]? = some info) (hmasks : LegalMasks w.daemon) (fuel : ℕ) :
    (∀ w', processVme sys fuel idx w ≠ .exited w') ∧
      LegalMasks (processVme sys fuel idx w).world.daemon := by
  rw [processVme_eq hinfo]
  have henter : LoopHead sys idx info.cratenumber w _ _ := .enter
  rcases irqsearchLoop_heads fuel henter with
    ⟨locals, w₁, w₂, hend, head, hpass⟩ | ⟨locals, w₁, w₂, hend, head, hpass⟩ | ⟨locals, w₁, hend, head⟩
  · have hreturned := irqsearch_pass sys idx info.cratenumber locals w₁
    rw [hpass] at hreturned
    rw [hend]
    refine ⟨fun w' => by simp, ?_⟩
    cases hreturned with
    | idle status hnone hio =>
      rw [Outcome.world, hio.daemon]
      exact (head.legal hmasks).2
  · exact absurd hpass (irqsearch_not_fatal (head.legal hmasks).1 w₁ w₂)
  · rw [hend]
    exact ⟨fun w' => by simp, (head.legal hmasks).2⟩

/-- A `REQUEST_IRQ` leaves the enable registers legal: they are extended only by a request the table
accepted. -/
theorem clientRequest_legal (sock : ℤ) (sel : V120irqdSelector) {w : World σ} (h : Guarded w.daemon) :
    LegalMasks (clientRequest sys sock sel w).daemon := by
  unfold clientRequest
  generalize sys.reallocTable w.outside = memory
  obtain ⟨realloc, outside⟩ := memory
  cases hregister : registerInterrupt realloc sock sel w.daemon.vectorTable with
  | mk ret table =>
    dsimp only
    rw [hregister]
    dsimp only
    generalize hw₁ : ({ w with outside := outside }.modify (·.setTable table)).log
      (.register sock sel ret) = w₁
    have hmasks : LegalMasks w₁.daemon := by
      rw [← hw₁]
      exact h.masks
    by_cases hret : ret < 0
    · rw [if_pos hret]
      obtain ⟨buf, result, -, hio⟩ := nak_spec sys sock w₁
      rw [hio.daemon]
      exact hmasks
    · rw [if_neg hret]
      obtain ⟨buf, result, -, -, -, hio⟩ := ack_spec sys sock w₁
      have hsent : LegalMasks (v120irqdAck (World.sockets sys) sock w₁).2.daemon := by
        rw [hio.daemon]
        exact hmasks
      have hlines : MaskIn sel.irq anyIrq := by
        obtain ⟨r, htable⟩ := h.table
        by_contra hillegal
        rw [Registry.registerInterrupt_illegal realloc sock sel _ fun hlegal => hillegal hlegal.lines] at hregister
        have hcode : -einval = ret := congrArg Prod.fst hregister
        exact hret (hcode ▸ (by decide : -einval < 0))
      by_cases hlost : (v120irqdAck (World.sockets sys) sock w₁).1 < 0
      · rw [if_pos hlost]
        exact hsent
      · rw [if_neg hlost]
        exact hsent.enable hlines

/-- A `RELEASE_IRQ` leaves the enable registers legal: they are recomputed. -/
theorem clientRelease_legal (sock : ℤ) (sel : V120irqdSelector) {w : World σ} (h : Guarded w.daemon) :
    LegalMasks (clientRelease sys sock sel w).daemon := by
  obtain ⟨r, htable⟩ := h.table
  have hlayout := r.releaseInterrupt_layout sock sel
  rw [← htable] at hlayout
  unfold clientRelease
  rw [hlayout]
  dsimp only
  generalize hw₁ : (w.modify (·.setTable (r.release sock sel).2.layout)).log
    (.release sock sel (r.release sock sel).1) = w₁
  have htable₁ : w₁.daemon.vectorTable = (r.release sock sel).2.layout := by
    rw [← hw₁]
    rfl
  apply legalMasks_disable
  refine ⟨(r.release sock sel).2, ?_⟩
  by_cases hret : (r.release sock sel).1 < 0
  · obtain ⟨buf, result, -, hio⟩ := nak_spec sys sock w₁
    rw [if_pos hret, hio.daemon, htable₁]
  · obtain ⟨buf, result, -, -, -, hio⟩ := ack_spec sys sock w₁
    rw [if_neg hret, hio.daemon, htable₁]

/-- Every message leaves the enable registers legal. -/
theorem clientMessage_legal (sock : ℤ) (buffer : ResponseBuffer) {w : World σ}
    (h : Guarded w.daemon) : LegalMasks (clientMessage sys sock buffer w).daemon := by
  unfold clientMessage
  split
  · exact clientRequest_legal sock buffer.selector h
  · exact clientRelease_legal sock buffer.selector h
  · obtain ⟨es, -, hio⟩ := clientFakeIrq_spec sys sock buffer.selector w
    rw [hio.daemon]
    exact h.masks
  · obtain ⟨result, -, hio⟩ := msgSend_spec sys sock
      (buffer.setStatus (buildStatusReport sys w.daemon)) w
    rw [hio.daemon]
    exact h.masks
  · exact h.masks

/-- A client's index is accepted by `remove_fd`, and the recomputed enable registers are legal. -/
theorem disconnectClient_legal {idx : ℕ} (sock : ℤ) {w : World σ} (h : Guarded w.daemon)
    (hlow : w.daemon.lenCrates < idx) (hhigh : idx < w.daemon.pollfds.len) :
    ∃ w', disconnectClient sys idx sock w = .done w' ∧ LegalMasks w'.daemon := by
  have hindex : ¬ (idx ≤ w.daemon.lenCrates ∨ w.daemon.pollfds.len ≤ idx) := by omega
  obtain ⟨r, htable⟩ := h.table
  have hrelease := r.releaseAllInterrupts_layout sock
  rw [← htable] at hrelease
  unfold disconnectClient
  rw [removeFd, if_neg hindex]
  refine ⟨_, rfl, legalMasks_disable ⟨r.releaseAll sock, ?_⟩⟩
  exact congrArg Prod.snd hrelease

/-- The world in which `process_client` calls `remove_fd`: the read returned 0. -/
def hangUpAt (sys : System σ) (idx : ℕ) (w : World σ) : Option (World σ) :=
  let sock := (w.pollfd sys idx).fd
  let w := w.log (.processClient sock)
  let (uninitialised, w) := (World.sockets sys).stale w
  let (len, _, w) := v120IrqdMsgRecv (World.sockets sys) sock uninitialised w
  if len = 0 then some w else none

/-- `process_client` calls `remove_fd` in that world, and the daemon is still as it was. -/
theorem processClient_hangUpAt {idx : ℕ} {w w₁ : World σ} (h : hangUpAt sys idx w = some w₁) :
    processClient sys idx w = disconnectClient sys idx (w.pollfd sys idx).fd w₁ ∧
      w₁.daemon = w.daemon := by
  let entry := (World.sockets sys).stale (w.log (.processClient (w.pollfd sys idx).fd))
  let message := v120IrqdMsgRecv (World.sockets sys) (w.pollfd sys idx).fd entry.1 entry.2
  have hdef : hangUpAt sys idx w = if message.1 = 0 then some message.2.2 else none := rfl
  have hcall : processClient sys idx w =
      if message.1 < 0 then .done message.2.2
      else if message.1 = 0 then disconnectClient sys idx (w.pollfd sys idx).fd message.2.2
      else .done (clientMessage sys (w.pollfd sys idx).fd message.2.1 message.2.2) := rfl
  rw [hdef] at h
  split at h
  · next hzero =>
    obtain rfl := Option.some.inj h
    have hneg : ¬ message.1 < 0 := hzero ▸ Int.lt_irrefl 0
    exact ⟨by rw [hcall, if_neg hneg, if_pos hzero], rfl⟩
  · exact absurd h (by simp)

variable (sys) in
/-- `process_client` never exits, and leaves the enable registers legal. -/
theorem processClient_legal {idx : ℕ} {w : World σ} (h : Guarded w.daemon)
    (hlow : w.daemon.lenCrates < idx) (hhigh : idx < w.daemon.pollfds.len) :
    ∃ w', processClient sys idx w = .done w' ∧ LegalMasks w'.daemon := by
  obtain ⟨received, stale, w₁, hio, hdef⟩ := processClient_eq sys idx w
  have hguarded : Guarded w₁.daemon := hio.daemon ▸ h
  rw [hdef]
  by_cases hneg : received.len < 0
  · exact ⟨w₁, if_pos hneg, hguarded.masks⟩
  · rw [if_neg hneg]
    by_cases hzero : received.len = 0
    · rw [if_pos hzero]
      exact disconnectClient_legal _ hguarded (hio.daemon ▸ hlow) (hio.daemon ▸ hhigh)
    · exact ⟨_, if_neg hzero, clientMessage_legal _ _ hguarded⟩

variable (sys) in
/-- `process_newclient` never exits, and writes no enable register. -/
theorem processNewclient_legal {w : World σ} (h : Guarded w.daemon) :
    ∃ w', processNewclient sys w = .done w' ∧ LegalMasks w'.daemon := by
  have hserver : ¬ w.daemon.pollfds.len ≤ w.daemon.lenCrates := Nat.not_le_of_lt h.server
  let accepted := sys.accept (w.pollfd sys w.daemon.lenCrates).fd w.outside
  let w₁ : World σ :=
    { w.log (.processNewclient (w.pollfd sys w.daemon.lenCrates).fd) with outside := accepted.2 }
  have hdef : processNewclient sys w =
      if accepted.1 < 0 then .done w₁
      else processAccepted sys accepted.1 (w₁.log (.accept accepted.1)) := rfl
  have hmasks : LegalMasks w₁.daemon := h.masks
  rw [hdef]
  by_cases hrefused : accepted.1 < 0
  · exact ⟨w₁, if_pos hrefused, hmasks⟩
  · rw [if_neg hrefused, processAccepted, configureClientSocket]
    have hlen : ¬ (w₁.log (.accept accepted.1)).daemon.pollfds.len ≤
        (w₁.log (.accept accepted.1)).daemon.lenCrates := hserver
    rw [if_neg hlen]
    generalize sys.reallocPollfds (w₁.log (.accept accepted.1)).outside = memory
    obtain ⟨realloc, outside⟩ := memory
    cases realloc with
    | failed => exact ⟨_, rfl, hmasks⟩
    | moved stale => exact ⟨_, rfl, hmasks⟩

variable (sys) in
/-- No handler exits, and each leaves the enable registers legal. -/
theorem serviceFd_legal {w : World σ} (h : Guarded w.daemon) (fuel : ℕ) {idx : ℕ}
    (hidx : idx < w.daemon.pollfds.len) :
    (∀ w', serviceFd sys fuel idx w ≠ .exited w') ∧
      LegalMasks (serviceFd sys fuel idx w).world.daemon := by
  unfold serviceFd
  by_cases hlow : idx < w.daemon.lenCrates
  · rw [if_pos hlow]
    exact processVme_legal (List.getElem?_eq_getElem hlow) h.masks fuel
  · rw [if_neg hlow]
    by_cases hserver : idx = w.daemon.lenCrates
    · rw [if_pos hserver]
      obtain ⟨w', hdone, hmasks⟩ := processNewclient_legal sys h
      rw [hdone]
      exact ⟨fun w' => by simp, hmasks⟩
    · rw [if_neg hserver]
      obtain ⟨w', hdone, hmasks⟩ := processClient_legal sys h (by omega) hidx
      rw [hdone]
      exact ⟨fun w' => by simp, hmasks⟩

/-- The crates are as many after a step, and the poll list still goes past them. -/
theorem Serviced.server {w w' : World σ} {idx : ℕ} (hserviced : Serviced sys w idx w')
    (hidx : idx < w.daemon.pollfds.len) (h : w.daemon.lenCrates < w.daemon.pollfds.len) :
    w'.daemon.lenCrates < w'.daemon.pollfds.len := by
  have hcrates {l : PollList} {table : VectorTable} {es : List Event}
      (heffect : Effect w w' l table es) : w'.daemon.lenCrates = w.daemon.lenCrates := by
    simpa [Daemon.lenCrates] using congrArg List.length heffect.crates
  cases hserviced with
  | vme info received es irqen hinfo hservices hdaemon htrace =>
    rw [hdaemon, Daemon.lenCrates, length_setIrqen]
    exact h
  | newclient hserver hserved =>
    cases hserved with
    | refused heffect =>
      rw [hcrates heffect, heffect.pollfds]
      exact h
    | added client stale heffect =>
      rw [hcrates heffect, heffect.pollfds]
      exact Nat.lt_succ_of_lt h
    | dropped client s hrealloc heffect =>
      rw [hcrates heffect, heffect.pollfds]
      exact Nat.lt_succ_of_lt h
  | client hlow hserved =>
    cases hserved with
    | unread received hlen heffect =>
      rw [hcrates heffect, heffect.pollfds]
      exact h
    | hungUp received beyond l hlen hremove heffect =>
      rw [hcrates heffect, heffect.pollfds, (removeFd_shift hremove).1]
      omega
    | replied received stale table es hlen hreplied heffect =>
      rw [hcrates heffect, heffect.pollfds]
      exact h

/-- One step keeps the daemon guarded. -/
theorem Guarded.step {w w' : World σ} (h : Guarded w.daemon) (hstep : DaemonStep sys w w') :
    Guarded w'.daemon := by
  cases hstep with
  | outside s => exact h
  | polled revents => exact ⟨h.table, h.masks, h.server⟩
  | serviced fuel idx hidx hrun =>
    have hserviced := serviceFd_spec hrun
    obtain ⟨r, htable⟩ := h.table
    obtain ⟨es, -, htables⟩ := hserviced.table
    rw [htable] at htables
    obtain ⟨r', htable', -⟩ := run_recorded htables
    have hmasks := (serviceFd_legal sys h fuel hidx).2
    have hworld : (serviceFd sys fuel idx w).world = w' := by
      rcases hrun with hdone | hrunning
      · rw [hdone, Outcome.world]
      · rw [hrunning, Outcome.world]
    exact ⟨⟨r', htable'⟩, hworld ▸ hmasks, hserviced.server hidx h.server⟩

/-- Every run keeps the daemon guarded. -/
theorem Guarded.run {w w' : World σ} (h : Guarded w.daemon) (hrun : DaemonRun sys w w') :
    Guarded w'.daemon := by
  induction hrun with
  | refl => exact h
  | tail _ hstep ih => exact ih.step hstep

/-- A started daemon whose crates enable nothing but lines 1 to 7 is guarded. -/
theorem guarded_start {st : Startup} {d : Daemon} (hinit : initializeDaemon st = some d)
    (hmasks : LegalMasks d) : Guarded d := by
  obtain ⟨hallocated, htable, vme, hfds, hcrates⟩ := initializeDaemon_spec hinit
  refine ⟨⟨Registry.empty, htable⟩, hmasks, ?_⟩
  have hlen := congrArg List.length hfds
  rw [PollList.fds, List.length_map, hallocated.length_live, List.length_append, ← hcrates.length] at hlen
  rw [hlen]
  exact Nat.lt_succ_self _

/-- The loop over the ready descriptors never exits. -/
theorem pollPass_not_exited (fuel left idx nevents : ℕ) {w : World σ} (h : Guarded w.daemon)
    (w' : World σ) : pollPass sys fuel left idx nevents w ≠ .exited w' := by
  induction left generalizing idx nevents w with
  | zero => simp [pollPass]
  | succ left ih =>
    rw [pollPass]
    split
    · next hcond =>
      split
      · cases hserved : serviceFd sys fuel idx w with
        | done w₁ => exact ih _ _ (h.step (.serviced fuel idx hcond.1 (Or.inl hserved)))
        | exited w₁ => exact absurd hserved ((serviceFd_legal sys h fuel hcond.1).1 w₁)
        | unfinished w₁ => simp [Outcome.bind]
      · exact ih _ _ h
    · simp

/-- `mainloop` never exits. -/
theorem mainloop_not_exited (fuel : ℕ) {w : World σ} (h : Guarded w.daemon) (w' : World σ) :
    (mainloop sys fuel w).2 ≠ .exited w' := by
  unfold mainloop
  generalize sys.ppoll w.daemon.pollfds.live w.outside = answer
  obtain ⟨polled, outside⟩ := answer
  cases polled with
  | failed errno => simp
  | signal caught => simp
  | ready revents =>
    exact pollPass_not_exited fuel _ _ _ (w := ({ w with outside := outside } : World σ).modify
      (·.setPollfds (w.daemon.pollfds.setRevents revents))) ⟨h.table, h.masks, h.server⟩ w'

/-- The daemon keeps clear of its fatal branches in a state: its enable registers hold lines 1 to 7
only, also at each loop head of the search, no pass of the search is fatal, every call of `remove_fd`
has an index between the server socket and the end of the list, and nothing exits. -/
structure NeverFatal (sys : System σ) (w : World σ) : Prop where
  masks : ∀ info ∈ w.daemon.v120Info, MaskIn info.irqen vmeLines
  search : ∀ idx info, w.daemon.v120Info[idx]? = some info →
    ∀ locals w₁, LoopHead sys idx info.cratenumber w locals w₁ →
      (∀ crate ∈ w₁.daemon.v120Info, MaskIn crate.irqen vmeLines) ∧
        ∀ w₂, irqsearch sys idx info.cratenumber locals w₁ ≠ .fatal w₂
  removal : ∀ idx, w.daemon.lenCrates < idx → idx < w.daemon.pollfds.len →
    ∀ w₁, hangUpAt sys idx w = some w₁ →
      processClient sys idx w = disconnectClient sys idx (w.pollfd sys idx).fd w₁ ∧
        w₁.daemon.lenCrates < idx ∧ idx < w₁.daemon.pollfds.len
  handlers : ∀ fuel idx w', idx < w.daemon.pollfds.len → serviceFd sys fuel idx w ≠ .exited w'
  loop : ∀ fuel w', (mainloop sys fuel w).2 ≠ .exited w'

/-- **The fatal branches are unreachable.** Whatever clients and crates do, from a start at which the
open crates enable nothing but lines 1 to 7, every state a run reaches is clear of them. -/
theorem daemon_never_fatal {st : Startup} {d : Daemon} (hinit : initializeDaemon st = some d)
    (hmasks : ∀ info ∈ d.v120Info, MaskIn info.irqen vmeLines) (s : σ) {w : World σ}
    (hrun : DaemonRun sys ⟨d, s, []⟩ w) : NeverFatal sys w := by
  have hguarded : Guarded w.daemon :=
    Guarded.run (w := ⟨d, s, []⟩) (guarded_start hinit hmasks) hrun
  refine ⟨hguarded.masks, fun idx info hinfo locals w₁ head => ?_, fun idx hlow hhigh w₁ hcall => ?_,
    fun fuel idx w' hidx => (serviceFd_legal sys hguarded fuel hidx).1 w',
    fun fuel w' => mainloop_not_exited fuel hguarded w'⟩
  · obtain ⟨hlegal, hmasks₁⟩ := head.legal hguarded.masks
    exact ⟨hmasks₁, irqsearch_not_fatal hlegal w₁⟩
  · obtain ⟨hcalls, hdaemon⟩ := processClient_hangUpAt hcall
    exact ⟨hcalls, hdaemon ▸ hlow, hdaemon ▸ hhigh⟩

/-- A client connects, requests line 1 of the last crate, acknowledges an interrupt on it, and hangs up: the
server socket, the client, the crate and the client again are reported. -/
def hangsUp : System ℕ :=
  { System.silent with
    ppoll := fun _ s => (.ready fun i => if [1, 2, 0, 0, 2][s]? = some i then 1 else 0, s + 1)
    irqstatus := fun _ s => (if s = 3 then 2 else 0, s)
    iackVector := fun _ _ s => (0x40, s + 1)
    accept := fun _ s => (6, s)
    sockets :=
      ⟨fun _ _ s => (none, s),
        fun _ s =>
          (if s = 2 then
            .message (((⟨0⟩ : ResponseBuffer).setMsg .requestIrq).setSelector ⟨0x8000, 2, anyVector, 0⟩)
          else if s = 4 then .message ((⟨0⟩ : ResponseBuffer).setMsg .ack)
          else .ended, s),
        fun s => (⟨0⟩, s)⟩ }

/-- A daemon with the last crate, which starts with line 1 enabled. -/
def lastCrate : Daemon := ⟨⟨[⟨5, pollin, 0⟩, ⟨4, pollin, 0⟩], 2⟩, [⟨Fin.last 15, 2⟩], [], false⟩

/-- The daemon of the last crate after some passes of `mainloop`. -/
def passed : ℕ → World ℕ
  | 0 => ⟨lastCrate, 0, []⟩
  | passes + 1 => (mainloop hangsUp 2 (passed passes)).2.world

/-- One client of that daemon, from its connection to its hang-up. -/
theorem daemon_never_fatal_session :
    let st : Startup := ⟨fun crate => if crate = Fin.last 15 then some (5, 2) else none, 4,
      fun _ => .moved fun _ => ⟨0, 0, 0⟩, .moved fun _ => ⟨0, 0, 0⟩, false, false⟩
    initializeDaemon st = some lastCrate ∧ (foreachVector (passed 2).daemon.vectorTable).length = 1 ∧
      .iackVector 0 1 0x40 ∈ (passed 3).trace ∧ foreachVector (passed 4).daemon.vectorTable = [] ∧
      NeverFatal hangsUp (passed 4) := by
  intro st
  have hinit : initializeDaemon st = some lastCrate := rfl
  have hmasks : ∀ info ∈ lastCrate.v120Info, MaskIn info.irqen vmeLines := by
    intro info hinfo
    obtain rfl := List.mem_singleton.mp hinfo
    decide
  have hconnected : DaemonRun hangsUp (passed 0) (passed 1) := mainloop_run 2 (Prod.ext rfl rfl)
  have hregistered : DaemonRun hangsUp (passed 1) (passed 2) := mainloop_run 2 (Prod.ext rfl rfl)
  have hnotified : DaemonRun hangsUp (passed 2) (passed 3) := mainloop_run 2 (Prod.ext rfl rfl)
  have hleft : DaemonRun hangsUp (passed 3) (passed 4) := mainloop_run 2 (Prod.ext rfl rfl)
  have hrun := ((hconnected.trans hregistered).trans hnotified).trans hleft
  have hfetched : (passed 3).trace = (passed 2).trace ++ [.processVme 5, .read 5 .ended, .irqstatus 0 2] ++
      .iackVector 0 1 0x40 :: (passed 3).trace.drop ((passed 2).trace.length + 4) := rfl
  refine ⟨hinit, rfl, ?_, rfl, daemon_never_fatal hinit hmasks 0 hrun⟩
  rw [hfetched]
  exact List.mem_append_right _ List.mem_cons_self

end Daemon

end V120.Irqd
