import V120.Irqd.StaleBuffers

/-!
# Messages that are answered with a `NAK`

A client whose message is refused should find the daemon as it was. A refused registration and a refused
fake interrupt leave everything alone. A refused release runs into `disable_unused_interrupts` like an
accepted one, and that undoes whatever made the enable masks differ from the table: the line
`process_vme` had to switch off, above all, is on again.
-/

namespace V120.Irqd

section Client

variable {σ : Type*} {sys : System σ}

/-- What `process_client` finds in its buffer once it has read a message. -/
def clientBuffer (sys : System σ) (idx : ℕ) (w : World σ) : ResponseBuffer :=
  let sock := (w.pollfd sys idx).fd
  (clientRead sys idx w).1.fill ((World.sockets sys).stale (w.log (.processClient sock))).1

/-- The daemon has the same table, the same poll list and the same enable masks as before. -/
structure Unaffected (d d' : Daemon) : Prop where
  table : d'.vectorTable = d.vectorTable
  pollfds : d'.pollfds = d.pollfds
  masks : d'.v120Info.map V120Info.irqen = d.v120Info.map V120Info.irqen

/-- The enable masks are the ones `disable_unused_interrupts` computes from the table. -/
def MasksRecomputed (d : Daemon) : Prop :=
  ∀ info ∈ d.v120Info, info.irqen = (listRegisteredInterrupts d.vectorTable info.cratenumber).setWidth 32

instance (d : Daemon) : Decidable (MasksRecomputed d) := by
  unfold MasksRecomputed
  infer_instance

/-- Recomputing the masks leaves them alone when they are what it computes. -/
theorem masks_disableUnusedInterrupts (d : Daemon) :
    (disableUnusedInterrupts d).v120Info.map V120Info.irqen = d.v120Info.map V120Info.irqen ↔
      MasksRecomputed d := by
  rw [disableUnusedInterrupts, List.map_map, List.map_inj_left]
  exact forall₂_congr fun _ _ => eq_comm

/-- `process_client` reads, and then removes the client or handles the message in its buffer. -/
theorem processClient_read (idx : ℕ) (w : World σ) :
    processClient sys idx w =
      if (clientRead sys idx w).1.len < 0 then .done (clientRead sys idx w).2
      else if (clientRead sys idx w).1.len = 0 then
        disconnectClient sys idx (w.pollfd sys idx).fd (clientRead sys idx w).2
      else .done (clientMessage sys (w.pollfd sys idx).fd (clientBuffer sys idx w)
        (clientRead sys idx w).2) := rfl

/-- Reading a message sends nothing and changes no global. -/
theorem clientRead_io (idx : ℕ) (w : World σ) :
    Io w (clientRead sys idx w).2 [.processClient (w.pollfd sys idx).fd,
      .read (w.pollfd sys idx).fd (clientRead sys idx w).1] := by
  refine ⟨rfl, ?_⟩
  rw [← List.singleton_append, ← List.append_assoc]
  rfl

/-- What is sent for a message is sent by its handler. -/
theorem effects_clientRead (idx : ℕ) (w : World σ) (sock : ℤ) (buffer : ResponseBuffer) :
    effects w (clientMessage sys sock buffer (clientRead sys idx w).2) =
      effects (clientRead sys idx w).2 (clientMessage sys sock buffer (clientRead sys idx w).2) := by
  obtain ⟨table, es, -, heffect⟩ := clientMessage_spec sys sock buffer (clientRead sys idx w).2
  have htrace := heffect.trace
  rw [(clientRead_io idx w).trace, List.append_assoc] at htrace
  rw [effects_eq heffect.trace, effects_eq htrace]
  rfl

/-- A hang-up is not answered. -/
theorem disconnectClient_sent {idx : ℕ} {sock : ℤ} {w w₁ w' : World σ} {es : List Event}
    (hio : Io w w₁ es) (hes : es.filterMap Event.outgoing = [])
    (h : disconnectClient sys idx sock w₁ = .done w') : (effects w w').sent = [] := by
  unfold disconnectClient at h
  split at h
  · exact absurd h (by simp)
  · obtain rfl := Outcome.done.inj h
    have htrace : ∀ w₂ : World σ, w₂.trace = w₁.trace ++ [.releaseAll sock, .close sock] →
        (effects w w₂).sent = [] := by
      intro w₂ hw₂
      rw [hio.trace, List.append_assoc] at hw₂
      rw [effects_eq hw₂, List.filterMap_append, hes]
      rfl
    exact htrace _ (by simp [World.log, World.modify])

/-- A message that is answered with a `NAK` leaves the table and the poll list alone, and the masks too
unless it is a release that finds them different from the table. -/
theorem clientMessage_nak {r : Registry} {w : World σ} (htable : w.daemon.vectorTable = r.layout)
    {sock : ℤ} {buffer : ResponseBuffer}
    (hnak : (sock, .nak, none) ∈ (effects w (clientMessage sys sock buffer w)).sent) :
    Unaffected w.daemon (clientMessage sys sock buffer w).daemon ↔
      (buffer.msg = .releaseIrq → MasksRecomputed w.daemon) := by
  obtain ⟨table, es, -, heffect⟩ := clientMessage_spec sys sock buffer w
  have hiff {P : Prop}
      (h : (effects w (clientMessage sys sock buffer w)).table = w.daemon.vectorTable ∧
        ((effects w (clientMessage sys sock buffer w)).masks = w.daemon.v120Info.map V120Info.irqen ↔ P)) :
      Unaffected w.daemon (clientMessage sys sock buffer w).daemon ↔ P :=
    ⟨fun hsame => h.2.mp hsame.masks, fun hp => ⟨h.1, heffect.pollfds, h.2.mpr hp⟩⟩
  cases hserved : buffer.msg.served with
  | false =>
    rw [clientMessage_unserved sock hserved w, effects_eq (List.append_nil _).symm] at hnak
    exact absurd hnak List.not_mem_nil
  | true =>
    rcases served_cases hserved with hcase | hcase | hcase | hcase
    · have hother : ¬ buffer.msg = .releaseIrq := by simp [hcase]
      apply hiff
      rw [clientMessage_request sys sock hcase] at hnak ⊢
      obtain ⟨hafter, hsent, hmasks⟩ := clientRequest_effects sys sock buffer.selector w
      rw [hsent, List.mem_singleton] at hnak
      have hneg : (registerInterrupt (sys.reallocTable w.outside).1 sock buffer.selector
          w.daemon.vectorTable).1 < 0 := by
        by_contra haccepted
        rw [if_neg haccepted] at hnak
        simp at hnak
      rw [hafter, hmasks hneg]
      rw [htable] at hneg ⊢
      exact ⟨(r.registerInterrupt_after _ _ _).1 hneg, by simp [hother]⟩
    · apply hiff
      rw [clientMessage_release sys sock hcase] at hnak ⊢
      rw [clientRelease_effects sys sock buffer.selector w] at hnak ⊢
      have hneg : (releaseInterrupt sock buffer.selector w.daemon.vectorTable).1 < 0 := by
        by_contra haccepted
        rw [if_neg haccepted] at hnak
        simp at hnak
      have hafter : (releaseInterrupt sock buffer.selector w.daemon.vectorTable).2 =
          w.daemon.vectorTable := by
        rw [htable] at hneg ⊢
        exact (r.releaseInterrupt_after _ _).1 hneg
      refine ⟨hafter, ?_⟩
      rw [hafter]
      exact (masks_disableUnusedInterrupts w.daemon).trans (by simp [hcase])
    · have hother : ¬ buffer.msg = .releaseIrq := by simp [hcase]
      apply hiff
      rw [clientMessage_signal sys sock hcase, clientFakeIrq_effects sys sock buffer.selector w]
      exact ⟨rfl, by simp [hother]⟩
    · have hother : ¬ buffer.msg = .releaseIrq := by simp [hcase]
      apply hiff
      rw [clientStatus_effects sock hcase w]
      exact ⟨rfl, by simp [hother]⟩

/-- **When a `NAK` means that nothing happened.** In every reachable state, a message that is answered
with a `NAK` leaves the vector table, the poll list and every enable mask as they were, exactly when it is
no `RELEASE_IRQ` or the masks are what the table asks for. -/
theorem nak_unaffected_iff {st : Startup} {d : Daemon} (hinit : initializeDaemon st = some d)
    (s : σ) {w w' : World σ} (hrun : DaemonRun sys ⟨d, s, []⟩ w) {idx : ℕ}
    (hserved : processClient sys idx w = .done w')
    (hnak : ((w.pollfd sys idx).fd, .nak, none) ∈ (effects w w').sent) :
    Unaffected w.daemon w'.daemon ↔
      ((clientBuffer sys idx w).msg = .releaseIrq → MasksRecomputed w.daemon) := by
  obtain ⟨r, htable, -⟩ := reachable_registry hinit hrun
  have hio : Io w (clientRead sys idx w).2 [.processClient (w.pollfd sys idx).fd,
      .read (w.pollfd sys idx).fd (clientRead sys idx w).1] := clientRead_io idx w
  rw [processClient_read] at hserved
  by_cases hneg : (clientRead sys idx w).1.len < 0
  · rw [if_pos hneg] at hserved
    obtain rfl := Outcome.done.inj hserved
    rw [hio.effects] at hnak
    exact absurd hnak List.not_mem_nil
  · rw [if_neg hneg] at hserved
    by_cases hzero : (clientRead sys idx w).1.len = 0
    · rw [if_pos hzero] at hserved
      rw [disconnectClient_sent hio rfl hserved] at hnak
      exact absurd hnak List.not_mem_nil
    · rw [if_neg hzero] at hserved
      obtain rfl := Outcome.done.inj hserved
      rw [effects_clientRead] at hnak
      exact clientMessage_nak (w := (clientRead sys idx w).2) htable hnak

end Client

/-- A start-up with crate 0, which has no line enabled. -/
def crateStartup : Startup :=
  ⟨fun crate => if crate = 0 then some (6, 0) else none, 4, fun _ => .moved fun _ => ⟨0, 0, 0⟩,
    .moved fun _ => ⟨0, 0, 0⟩, false, false⟩

/-- The daemon with crate 0. -/
def crateDaemon : Daemon := ⟨⟨[⟨6, pollin, 0⟩, ⟨4, pollin, 0⟩], 2⟩, [⟨0, 0⟩], [], false⟩

/-- An outside in which line 1 of every crate is stuck and each `read` gets the next of some messages. -/
def stuckLine : System (List ResponseBuffer) :=
  { System.silent with
    irqstatus := fun _ s => (2, s)
    sockets :=
      ⟨fun _ _ s => (none, s),
        fun _ s =>
          match s with
          | [] => (.ended, [])
          | message :: rest => (.message message, rest),
        fun s => (⟨0⟩, s)⟩ }

/-- A message of one type with one selector. -/
def messageOf (msg : MessageSelect) (sel : V120irqdSelector) : ResponseBuffer :=
  ((⟨0⟩ : ResponseBuffer).setMsg msg).setSelector sel

/-- A request without a crate is refused, and nothing has happened. -/
theorem nak_unaffected_request :
    let asks := [messageOf .requestIrq ⟨0, 2, anyVector, 0⟩]
    let w := (serviceFd stuckLine 0 1 ⟨crateDaemon, asks, []⟩).world
    Unaffected w.daemon (processClient stuckLine 2 w).world.daemon := by
  intro asks w
  have hinit : initializeDaemon crateStartup = some crateDaemon := rfl
  have hrun : DaemonRun stuckLine ⟨crateDaemon, asks, []⟩ w :=
    .single (.serviced 0 1 (by decide) (Or.inl rfl))
  have hserved : processClient stuckLine 2 w = .done (processClient stuckLine 2 w).world :=
    Outcome.eq_done (by decide)
  exact (nak_unaffected_iff hinit asks hrun hserved (by decide)).mpr fun h => absurd h (by decide)

/-- Client 3 registers for line 1 of crate 0, which is stuck, and `process_vme` switches the line off.
Client 3 then releases what it never had: it gets a `NAK`, and the stuck line is on again. -/
theorem refused_release_affects :
    let messages := [messageOf .requestIrq ⟨1, 2, anyVector, 0⟩, ⟨0⟩, messageOf .nak ⟨0, 0, 0, 0⟩,
      messageOf .releaseIrq ⟨2, 4, anyVector, 0⟩]
    let connected := (serviceFd stuckLine 0 1 ⟨crateDaemon, messages, []⟩).world
    let registered := (serviceFd stuckLine 0 2 connected).world
    let w := (serviceFd stuckLine 2 0 registered).world
    let w' := (processClient stuckLine 2 w).world
    initializeDaemon crateStartup = some crateDaemon ∧
      DaemonRun stuckLine ⟨crateDaemon, messages, []⟩ w ∧ processClient stuckLine 2 w = .done w' ∧
      ((w.pollfd stuckLine 2).fd, .nak, none) ∈ (effects w w').sent ∧
      w.daemon.irqen 0 = 0 ∧ w'.daemon.irqen 0 = 2 ∧ ¬ Unaffected w.daemon w'.daemon := by
  intro messages connected registered w w'
  have hconnected : DaemonStep stuckLine ⟨crateDaemon, messages, []⟩ connected :=
    .serviced 0 1 (by decide) (Or.inl rfl)
  have hregistered : DaemonStep stuckLine connected registered :=
    .serviced 0 2 (by decide) (Or.inl (Outcome.eq_done (by decide)))
  have hswitched : DaemonStep stuckLine registered w :=
    .serviced 2 0 (by decide) (Or.inl (Outcome.eq_done (by decide)))
  refine ⟨rfl, (Relation.ReflTransGen.single hconnected).tail hregistered |>.tail hswitched,
    Outcome.eq_done (by decide), by decide, by decide, by decide, fun h => ?_⟩
  have hmasks := h.masks
  exact absurd hmasks (by decide)

end V120.Irqd
