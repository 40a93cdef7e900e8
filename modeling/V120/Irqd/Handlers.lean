import V120.Irqd.VmeSearch

/-!
# What the handlers do

Each handler of the polling loop is characterised once: how it changes the poll list and the
vector table, and the events it causes. Enable registers may change as well. Everything about
runs of the daemon is derived from these characterisations.
-/

namespace V120.Irqd

variable {σ : Type*} {sys : System σ}

/-- The daemon moved on by these events to this poll list and this vector table. Its open crates
and its options are as before, its enable registers may not be. -/
structure Effect (w w' : World σ) (pollfds : PollList) (table : VectorTable) (es : List Event) :
    Prop where
  pollfds : w'.daemon.pollfds = pollfds
  table : w'.daemon.vectorTable = table
  crates : w'.daemon.v120Info.map V120Info.cratenumber = w.daemon.v120Info.map V120Info.cratenumber
  allowFakeIrq : w'.daemon.allowFakeIrq = w.daemon.allowFakeIrq
  trace : w'.trace = w.trace ++ es

/-- Socket calls change neither list. -/
theorem Io.effect {w w' : World σ} {es : List Event} (h : Io w w' es) :
    Effect w w' w.daemon.pollfds w.daemon.vectorTable es :=
  ⟨by rw [h.daemon], by rw [h.daemon], by rw [h.daemon], by rw [h.daemon], h.trace⟩

/-- Effects happen one after the other. -/
theorem Effect.trans {w₁ w₂ w₃ : World σ} {pollfds pollfds' : PollList}
    {table table' : VectorTable} {es es' : List Event} (h : Effect w₁ w₂ pollfds table es)
    (h' : Effect w₂ w₃ pollfds' table' es') : Effect w₁ w₃ pollfds' table' (es ++ es') :=
  ⟨h'.pollfds, h'.table, h'.crates.trans h.crates, h'.allowFakeIrq.trans h.allowFakeIrq,
    by rw [h'.trace, h.trace, List.append_assoc]⟩

/-- Socket calls after an effect. -/
theorem Effect.io {w₁ w₂ w₃ : World σ} {pollfds : PollList} {table : VectorTable}
    {es es' : List Event} (h : Effect w₁ w₂ pollfds table es) (h' : Io w₂ w₃ es') :
    Effect w₁ w₃ pollfds table (es ++ es') := by
  have hnext := h.trans h'.effect
  rwa [h.pollfds, h.table] at hnext

/-- Recomputing the enable registers. -/
theorem effect_disableUnusedInterrupts (w : World σ) :
    Effect w (w.modify disableUnusedInterrupts) w.daemon.pollfds w.daemon.vectorTable [] := by
  refine ⟨rfl, rfl, ?_, rfl, (List.append_nil _).symm⟩
  simp [World.modify, disableUnusedInterrupts, Function.comp_def]

/-- Extending the enable registers. -/
theorem effect_enableInterrupts (w : World σ) (st : V120irqdSelector) :
    Effect w (w.modify (enableInterrupts st)) w.daemon.pollfds w.daemon.vectorTable [] := by
  refine ⟨rfl, rfl, ?_, rfl, (List.append_nil _).symm⟩
  simp only [World.modify, enableInterrupts, List.map_map]
  apply List.map_congr_left
  intro info _
  dsimp only [Function.comp_apply]
  split <;> rfl

/-- What `process_client` does with a message it read from a client: the table afterwards, and
the events. A registration and a release are answered once, by the result. -/
inductive Replied (sock : ℤ) (sel : V120irqdSelector) (fake : Bool) (table : VectorTable) :
    MessageSelect → VectorTable → List Event → Prop where
  | request {ret : ℤ} {table' : VectorTable} {buf : ResponseBuffer} {result : Option Errno}
      (realloc : Realloc) (hregister : registerInterrupt realloc sock sel table = (ret, table'))
      (hmsg : buf.msg = if ret < 0 then .nak else .ack) :
      Replied sock sel fake table .requestIrq table' [.register sock sel ret, .write sock buf result]
  | release {ret : ℤ} {table' : VectorTable} {buf : ResponseBuffer} {result : Option Errno}
      (hrelease : releaseInterrupt sock sel table = (ret, table'))
      (hmsg : buf.msg = if ret < 0 then .nak else .ack) :
      Replied sock sel fake table .releaseIrq table' [.release sock sel ret, .write sock buf result]
  | fakeNotified {err : ℤ} {buf : ResponseBuffer} {es : List Event} (hfake : fake = true)
      (hmsg : buf.msg = .ack) (hnotify : Notified table sel err es) :
      Replied sock sel fake table .irqSignal table (.write sock buf none :: es)
  | fakeUnanswered {buf : ResponseBuffer} (errno : Errno) (hfake : fake = true)
      (hmsg : buf.msg = .ack) :
      Replied sock sel fake table .irqSignal table [.write sock buf (some errno)]
  | fakeRefused {buf : ResponseBuffer} {result : Option Errno} (hfake : fake = false)
      (hmsg : buf.msg = .nak) :
      Replied sock sel fake table .irqSignal table [.write sock buf result]
  | status {buf : ResponseBuffer} {result : Option Errno} (hmsg : buf.msg = .serverStatus) :
      Replied sock sel fake table .serverStatus table [.write sock buf result]
  | ignored {msg : MessageSelect}
      (hmsg : msg ≠ .requestIrq ∧ msg ≠ .releaseIrq ∧ msg ≠ .irqSignal ∧ msg ≠ .serverStatus) :
      Replied sock sel fake table msg table []

variable (sys) in
/-- The `REQUEST_IRQ` case. -/
theorem clientRequest_spec (sock : ℤ) (sel : V120irqdSelector) (w : World σ) :
    ∃ table es, Replied sock sel w.daemon.allowFakeIrq w.daemon.vectorTable .requestIrq table es ∧
      Effect w (clientRequest sys sock sel w) w.daemon.pollfds table es := by
  unfold clientRequest
  generalize sys.reallocTable w.outside = memory
  obtain ⟨realloc, outside⟩ := memory
  cases hregister : registerInterrupt realloc sock sel w.daemon.vectorTable with
  | mk ret table =>
    dsimp only
    rw [hregister]
    dsimp only
    generalize hw₁ : ({ w with outside := outside }.modify (·.setTable table)).log
      (.register sock sel ret) = w₁
    have heffect : Effect w w₁ w.daemon.pollfds table [.register sock sel ret] := by
      rw [← hw₁]
      exact ⟨rfl, rfl, rfl, rfl, rfl⟩
    by_cases hret : ret < 0
    · rw [if_pos hret]
      obtain ⟨buf, result, hmsg, hio⟩ := nak_spec sys sock w₁
      exact ⟨table, _, .request realloc hregister (by rw [if_pos hret]; exact hmsg), heffect.io hio⟩
    · rw [if_neg hret]
      obtain ⟨buf, result, hmsg, -, -, hio⟩ := ack_spec sys sock w₁
      refine ⟨table, [.register sock sel ret, .write sock buf result],
        .request realloc hregister (by rw [if_neg hret]; exact hmsg), ?_⟩
      have hsent := heffect.io hio
      by_cases hlost : (v120irqdAck (World.sockets sys) sock w₁).1 < 0
      · rw [if_pos hlost]
        exact hsent
      · rw [if_neg hlost]
        have henabled := hsent.trans (effect_enableInterrupts _ sel)
        rwa [hsent.pollfds, hsent.table, List.append_nil] at henabled

variable (sys) in
/-- The `RELEASE_IRQ` case. -/
theorem clientRelease_spec (sock : ℤ) (sel : V120irqdSelector) (w : World σ) :
    ∃ table es, Replied sock sel w.daemon.allowFakeIrq w.daemon.vectorTable .releaseIrq table es ∧
      Effect w (clientRelease sys sock sel w) w.daemon.pollfds table es := by
  unfold clientRelease
  cases hrelease : releaseInterrupt sock sel w.daemon.vectorTable with
  | mk ret table =>
    dsimp only
    generalize hw₁ : (w.modify (·.setTable table)).log (.release sock sel ret) = w₁
    have heffect : Effect w w₁ w.daemon.pollfds table [.release sock sel ret] := by
      rw [← hw₁]
      exact ⟨rfl, rfl, rfl, rfl, rfl⟩
    have hdisable {w₂ : World σ} {es : List Event} (h : Effect w w₂ w.daemon.pollfds table es) :
        Effect w (w₂.modify disableUnusedInterrupts) w.daemon.pollfds table es := by
      have hnext := h.trans (effect_disableUnusedInterrupts w₂)
      rwa [h.pollfds, h.table, List.append_nil] at hnext
    by_cases hret : ret < 0
    · rw [if_pos hret]
      obtain ⟨buf, result, hmsg, hio⟩ := nak_spec sys sock w₁
      exact ⟨table, _, .release hrelease (by rw [if_pos hret]; exact hmsg),
        hdisable (heffect.io hio)⟩
    · rw [if_neg hret]
      obtain ⟨buf, result, hmsg, -, -, hio⟩ := ack_spec sys sock w₁
      exact ⟨table, _, .release hrelease (by rw [if_neg hret]; exact hmsg),
        hdisable (heffect.io hio)⟩

variable (sys) in
/-- The `IRQ_SIGNAL` case. -/
theorem clientFakeIrq_spec (sock : ℤ) (sel : V120irqdSelector) (w : World σ) :
    ∃ es, Replied sock sel w.daemon.allowFakeIrq w.daemon.vectorTable .irqSignal
        w.daemon.vectorTable es ∧ Io w (clientFakeIrq sys sock sel w) es := by
  unfold clientFakeIrq
  by_cases hfake : w.daemon.allowFakeIrq = true
  · rw [if_pos hfake]
    obtain ⟨buf, result, hmsg, -, hzero, hio⟩ := ack_spec sys sock w
    dsimp only
    cases result with
    | none =>
      rw [if_neg (not_not.mpr (hzero.mpr rfl))]
      obtain ⟨es, hnotify, hsent⟩ := notifyIrq_spec sys sel
        (v120irqdAck (World.sockets sys) sock w).2
      rw [hio.daemon] at hnotify
      exact ⟨_, .fakeNotified hfake hmsg hnotify, hio.trans hsent⟩
    | some errno =>
      rw [if_pos (fun h => by simpa using hzero.mp h)]
      exact ⟨_, .fakeUnanswered errno hfake hmsg, hio⟩
  · rw [if_neg hfake]
    obtain ⟨buf, result, hmsg, hio⟩ := nak_spec sys sock w
    exact ⟨_, .fakeRefused (Bool.eq_false_iff.mpr hfake) hmsg, hio⟩

variable (sys) in
/-- The `switch` of `process_client`. -/
theorem clientMessage_spec (sock : ℤ) (buffer : ResponseBuffer) (w : World σ) :
    ∃ table es, Replied sock buffer.selector w.daemon.allowFakeIrq w.daemon.vectorTable buffer.msg
        table es ∧
      Effect w (clientMessage sys sock buffer w) w.daemon.pollfds table es := by
  unfold clientMessage
  cases hmsg : buffer.msg with
  | requestIrq => exact clientRequest_spec sys sock buffer.selector w
  | releaseIrq => exact clientRelease_spec sys sock buffer.selector w
  | irqSignal =>
    obtain ⟨es, hreplied, hio⟩ := clientFakeIrq_spec sys sock buffer.selector w
    exact ⟨_, es, hreplied, hio.effect⟩
  | serverStatus =>
    obtain ⟨result, -, hio⟩ := msgSend_spec sys sock
      (buffer.setStatus (buildStatusReport sys w.daemon)) w
    exact ⟨_, _, .status (by rw [ResponseBuffer.msg_setStatus, hmsg]), hio.effect⟩
  | nak => exact ⟨_, _, .ignored (by simp), (Io.refl w).effect⟩
  | ack => exact ⟨_, _, .ignored (by simp), (Io.refl w).effect⟩
  | other code => exact ⟨_, _, .ignored (by simp), (Io.refl w).effect⟩

/-- What `process_client` does when it returns: the read failed, the peer hung up and was removed
from both lists, or a message was handled. -/
inductive ClientServed (w : World σ) (idx : ℕ) (sock : ℤ) (w' : World σ) : Prop where
  | unread (received : Received) (hlen : received.len < 0)
      (heffect : Effect w w' w.daemon.pollfds w.daemon.vectorTable
        [.processClient sock, .read sock received])
  | hungUp (received : Received) (beyond : ℕ → Pollfd) (l : PollList) (hlen : received.len = 0)
      (hremove : removeFd beyond w.daemon.lenCrates idx w.daemon.pollfds = some l)
      (heffect : Effect w w' l (releaseAllInterrupts sock w.daemon.vectorTable).2
        [.processClient sock, .read sock received, .releaseAll sock, .close sock])
  | replied (received : Received) (stale : ResponseBuffer) (table : VectorTable) (es : List Event)
      (hlen : 0 < received.len)
      (hreplied : Replied sock (received.fill stale).selector w.daemon.allowFakeIrq
        w.daemon.vectorTable (received.fill stale).msg table es)
      (heffect : Effect w w' w.daemon.pollfds table
        ([.processClient sock, .read sock received] ++ es))

variable (sys) in
/-- `process_client` reads once and handles what it read; the end of the stream is a hang-up. -/
theorem processClient_eq (idx : ℕ) (w : World σ) :
    ∃ received stale w₁,
      Io w w₁ [.processClient (w.pollfd sys idx).fd, .read (w.pollfd sys idx).fd received] ∧
      processClient sys idx w =
        if received.len < 0 then .done w₁
        else if received.len = 0 then disconnectClient sys idx (w.pollfd sys idx).fd w₁
        else .done (clientMessage sys (w.pollfd sys idx).fd (received.fill stale) w₁) := by
  let entry := (World.sockets sys).stale (w.log (.processClient (w.pollfd sys idx).fd))
  let message := v120IrqdMsgRecv (World.sockets sys) (w.pollfd sys idx).fd entry.1 entry.2
  have hdef : processClient sys idx w =
      if message.1 < 0 then .done message.2.2
      else if message.1 = 0 then disconnectClient sys idx (w.pollfd sys idx).fd message.2.2
      else .done (clientMessage sys (w.pollfd sys idx).fd message.2.1 message.2.2) := rfl
  have hrecv : ∃ received, message.1 = received.len ∧ message.2.1 = received.fill entry.1 ∧
      Io entry.2 message.2.2 [.read (w.pollfd sys idx).fd received] := msgRecv_spec _ _ _ _
  obtain ⟨received, hlen, hfill, hread⟩ := hrecv
  rw [hlen, hfill] at hdef
  exact ⟨received, entry.1, message.2.2,
    ((io_log w (.processClient (w.pollfd sys idx).fd)).trans (io_stale sys _)).trans hread, hdef⟩

/-- `process_client` when it returns. -/
theorem processClient_spec {idx : ℕ} {w w' : World σ} (h : processClient sys idx w = .done w') :
    ClientServed w idx (w.pollfd sys idx).fd w' := by
  obtain ⟨received, stale, w₂, hio, hdef⟩ := processClient_eq sys idx w
  rw [hdef] at h
  generalize (w.pollfd sys idx).fd = sock at h hio ⊢
  by_cases hneg : received.len < 0
  · rw [if_pos hneg] at h
    obtain rfl := Outcome.done.inj h
    exact .unread received hneg hio.effect
  · rw [if_neg hneg] at h
    by_cases hzero : received.len = 0
    · rw [if_pos hzero] at h
      unfold disconnectClient at h
      cases hremove : removeFd (sys.beyond w₂.outside) w₂.daemon.lenCrates idx w₂.daemon.pollfds with
      | none =>
        rw [hremove] at h
        exact absurd h (by simp)
      | some l =>
        rw [hremove] at h
        obtain rfl := Outcome.done.inj h
        rw [hio.daemon] at hremove
        refine .hungUp received _ l hzero hremove ⟨rfl, ?_, ?_, ?_, ?_⟩
        · simp only [World.modify, World.log, Daemon.setTable, Daemon.setPollfds,
            disableUnusedInterrupts, hio.daemon]
          rfl
        · simp [World.modify, World.log, Daemon.setTable, Daemon.setPollfds,
            disableUnusedInterrupts, hio.daemon, Function.comp_def]
        · simp [World.modify, World.log, Daemon.setTable, Daemon.setPollfds,
            disableUnusedInterrupts, hio.daemon]
        · simp [World.modify, World.log, hio.trace]
    · rw [if_neg hzero] at h
      obtain rfl := Outcome.done.inj h
      obtain ⟨table, es, hreplied, heffect⟩ := clientMessage_spec sys sock
        (received.fill stale) w₂
      rw [hio.daemon] at hreplied
      have hserved := hio.effect.trans heffect
      rw [hio.daemon] at hserved
      exact .replied received stale table es (by omega) hreplied hserved

/-- What `process_newclient` does when it returns: nothing was accepted, a client was added, or
an accepted client was closed again because the list could not grow. -/
inductive NewclientServed (sys : System σ) (w : World σ) (server : ℤ) (w' : World σ) : Prop where
  | refused (heffect : Effect w w' w.daemon.pollfds w.daemon.vectorTable [.processNewclient server])
  | added (client : ℤ) (stale : ℕ → Pollfd)
      (heffect : Effect w w' (appendFd (.moved stale) client pollin w.daemon.pollfds).2
        w.daemon.vectorTable [.processNewclient server, .accept client])
  | dropped (client : ℤ) (s : σ) (hrealloc : (sys.reallocPollfds s).1 = .failed)
      (heffect : Effect w w' (appendFd .failed client pollin w.daemon.pollfds).2
        w.daemon.vectorTable [.processNewclient server, .accept client, .close client])

variable (sys) in
/-- `configureClientSocket` exits, or reports that memory ran out, or appends the client. -/
theorem configureClientSocket_spec (fd : ℤ) (w : World σ) :
    configureClientSocket sys fd w = none ∨
      (∃ s w', (sys.reallocPollfds s).1 = .failed ∧ configureClientSocket sys fd w = some (1, w') ∧
        Effect w w' (appendFd .failed fd pollin w.daemon.pollfds).2 w.daemon.vectorTable []) ∨
      ∃ stale w', configureClientSocket sys fd w = some (0, w') ∧
        Effect w w' (appendFd (.moved stale) fd pollin w.daemon.pollfds).2 w.daemon.vectorTable [] := by
  have heffect (outside : σ) (l : PollList) :
      Effect w ({ w with outside := outside }.modify (·.setPollfds l)) l w.daemon.vectorTable [] :=
    ⟨rfl, rfl, rfl, rfl, (List.append_nil _).symm⟩
  unfold configureClientSocket
  by_cases hlen : w.daemon.pollfds.len ≤ w.daemon.lenCrates
  · exact Or.inl (if_pos hlen)
  · rw [if_neg hlen]
    cases hrealloc : (sys.reallocPollfds w.outside).1 with
    | failed =>
      refine Or.inr (Or.inl ⟨w.outside, _, hrealloc, ?_, heffect (sys.reallocPollfds w.outside).2 _⟩)
      simp only [hrealloc]
      rfl
    | moved stale =>
      refine Or.inr (Or.inr ⟨stale, _, ?_, heffect (sys.reallocPollfds w.outside).2 _⟩)
      simp only [hrealloc]
      rfl

/-- `process_newclient` when it returns. -/
theorem processNewclient_spec {w w' : World σ} (h : processNewclient sys w = .done w') :
    NewclientServed sys w (w.pollfd sys w.daemon.lenCrates).fd w' := by
  let accepted := sys.accept (w.pollfd sys w.daemon.lenCrates).fd w.outside
  let w₁ : World σ :=
    { w.log (.processNewclient (w.pollfd sys w.daemon.lenCrates).fd) with outside := accepted.2 }
  have hdef : processNewclient sys w =
      if accepted.1 < 0 then .done w₁
      else processAccepted sys accepted.1 (w₁.log (.accept accepted.1)) := rfl
  have hio : Io w w₁ [.processNewclient (w.pollfd sys w.daemon.lenCrates).fd] := ⟨rfl, rfl⟩
  rw [hdef] at h
  clear_value w₁ accepted
  clear hdef
  obtain ⟨client, outside⟩ := accepted
  dsimp only at h
  generalize (w.pollfd sys w.daemon.lenCrates).fd = server at hio ⊢
  by_cases hclient : client < 0
  · rw [if_pos hclient] at h
    obtain rfl := Outcome.done.inj h
    exact .refused hio.effect
  · rw [if_neg hclient, processAccepted] at h
    have hadd := configureClientSocket_spec sys client (w₁.log (.accept client))
    have haccept := hio.trans (io_log w₁ (.accept client))
    rcases hadd with hnone | ⟨s, w₂, hrealloc, hsome, heffect⟩ | ⟨stale, w₂, hsome, heffect⟩
    · rw [hnone] at h
      exact absurd h (by simp)
    · rw [hsome] at h
      obtain rfl := Outcome.done.inj h
      have hserved := (haccept.effect.trans heffect).io (io_log w₂ (.close client))
      rw [haccept.daemon] at hserved
      exact .dropped client s hrealloc hserved
    · rw [hsome] at h
      obtain rfl := Outcome.done.inj h
      have hserved := haccept.effect.trans heffect
      rw [haccept.daemon] at hserved
      exact .added client stale hserved

/-- The world a handler ends in, however it ends. -/
def Outcome.world : Outcome σ → World σ
  | .done w => w
  | .exited w => w
  | .unfinished w => w

/-- Whether a handler returns. -/
def Outcome.returns : Outcome σ → Bool
  | .done _ => true
  | _ => false

/-- A handler that returns does so in its last world. -/
theorem Outcome.eq_done {o : Outcome σ} (h : o.returns = true) : o = .done o.world := by
  cases o with
  | done w => rfl
  | exited w => exact absurd h (by simp [Outcome.returns])
  | unfinished w => exact absurd h (by simp [Outcome.returns])

/-- The events of a search: services one after the other, each a status snapshot, a fetched vector
and one notification, and after a failed notification another reading; a last snapshot may show
nothing to serve. -/
inductive Services (table : VectorTable) (idx : ℕ) (n : Fin 16) : List Event → Prop where
  | stopped : Services table idx n []
  | nothing (status : BitVec 32) : Services table idx n [.irqstatus idx status]
  | service {irq : ℕ} {vector payload : BitVec 32} {err : ℤ} {es last rest : List Event}
      (status : BitVec 32) (hline : 1 ≤ irq ∧ irq ≤ 7)
      (hnotify : Notified table (concrete n irq vector payload) err es)
      (hlast : last = [] ∨ ∃ again, last = [.irqstatus idx again])
      (hrest : Services table idx n rest) :
      Services table idx n
        (.irqstatus idx status :: .iackVector idx irq vector :: (es ++ last ++ rest))

variable (sys) in
/-- The search only serves interrupts and writes this crate's enable register. -/
theorem irqsearchLoop_services (idx : ℕ) (n : Fin 16) (fuel : ℕ) (locals : VmeLocals)
    (w : World σ) :
    ∃ es irqen, Services w.daemon.vectorTable idx n es ∧
      (irqsearchLoop sys idx n fuel locals w).world.daemon = w.daemon.setIrqen idx irqen ∧
      (irqsearchLoop sys idx n fuel locals w).world.trace = w.trace ++ es := by
  induction fuel generalizing locals w with
  | zero =>
    exact ⟨[], _, .stopped, (w.daemon.setIrqen_irqen idx).symm, (List.append_nil _).symm⟩
  | succ fuel ih =>
    rw [irqsearchLoop]
    have hpass := irqsearch_pass sys idx n locals w
    generalize irqsearch sys idx n locals w = next at hpass ⊢
    cases hpass with
    | idle status hnone hio =>
      exact ⟨_, _, .nothing status, hio.daemon.trans (w.daemon.setIrqen_irqen idx).symm, hio.trace⟩
    | illegal status hsome hline hio =>
      exact ⟨_, _, .nothing status, hio.daemon.trans (w.daemon.setIrqen_irqen idx).symm, hio.trace⟩
    | @delivered w₁ status vector irq es hline hnotify hio =>
      obtain ⟨rest, irqen, hrest, hdaemon, htrace⟩ :=
        ih ⟨locals.irqen, findInterruptRequest (concrete n irq vector locals.selector.payload)
          w.daemon.vectorTable⟩ w₁
      rw [hio.daemon] at hrest hdaemon
      refine ⟨_, irqen, .service status (highestLine_eq_some hline).1 hnotify (Or.inl rfl) hrest,
        hdaemon, ?_⟩
      rw [htrace, hio.trace]
      simp
    | @cleared w₁ status vector again irq err es hline hnotify herr hagain hio =>
      obtain ⟨rest, irqen, hrest, hdaemon, htrace⟩ :=
        ih ⟨locals.irqen, findInterruptRequest (concrete n irq vector locals.selector.payload)
          w.daemon.vectorTable⟩ w₁
      rw [hio.daemon] at hrest hdaemon
      refine ⟨_, irqen, .service status (highestLine_eq_some hline).1 hnotify
        (Or.inr ⟨again, rfl⟩) hrest, hdaemon, ?_⟩
      rw [htrace, hio.trace]
      simp
    | @stuck w₁ status vector again irq err es hline hnotify herr hagain hio =>
      have hdisabled : (w₁.modify (·.setIrqen idx (locals.irqen &&& ~~~((1 : BitVec 32) <<< irq)))).daemon =
          w.daemon.setIrqen idx (locals.irqen &&& ~~~((1 : BitVec 32) <<< irq)) := by
        rw [World.modify, hio.daemon]
      have hkept : (w₁.modify (·.setIrqen idx (locals.irqen &&& ~~~((1 : BitVec 32) <<< irq)))).trace =
          w.trace ++ _ := hio.trace
      generalize w₁.modify (·.setIrqen idx (locals.irqen &&& ~~~((1 : BitVec 32) <<< irq))) = w₂
        at hdisabled hkept ⊢
      obtain ⟨rest, irqen, hrest, hdaemon, htrace⟩ :=
        ih ⟨locals.irqen &&& ~~~((1 : BitVec 32) <<< irq), findInterruptRequest
          (concrete n irq vector locals.selector.payload) w.daemon.vectorTable⟩ w₂
      rw [hdisabled] at hrest hdaemon
      rw [Daemon.setIrqen_setIrqen] at hdaemon
      refine ⟨_, irqen, .service status (highestLine_eq_some hline).1 hnotify
        (Or.inr ⟨again, rfl⟩) hrest, hdaemon, ?_⟩
      rw [htrace, hkept]
      simp

variable (sys) in
/-- `process_vme`, however it ends: it reads the endpoint and serves interrupts, and changes only
this crate's enable register. -/
theorem processVme_spec {idx : ℕ} {w : World σ} {info : V120Info}
    (hinfo : w.daemon.v120Info[idx]? = some info) (fuel : ℕ) :
    ∃ received es irqen, Services w.daemon.vectorTable idx info.cratenumber es ∧
      (processVme sys fuel idx w).world.daemon = w.daemon.setIrqen idx irqen ∧
      (processVme sys fuel idx w).world.trace = w.trace ++
        ([.processVme (w.pollfd sys idx).fd, .read (w.pollfd sys idx).fd received] ++ es) := by
  obtain ⟨received, hio⟩ := vmeEntry_io sys idx w
  obtain ⟨es, irqen, hservices, hdaemon, htrace⟩ := irqsearchLoop_services sys idx
    info.cratenumber fuel (vmeEntry sys idx w).1 (vmeEntry sys idx w).2
  rw [hio.daemon] at hservices hdaemon
  rw [processVme_eq hinfo]
  exact ⟨received, es, irqen, hservices, hdaemon, by rw [htrace, hio.trace, List.append_assoc]⟩

/-- What handling one index of the poll list does, when it returns or is still serving interrupts. -/
inductive Serviced (sys : System σ) (w : World σ) (idx : ℕ) (w' : World σ) : Prop where
  | vme (info : V120Info) (received : Received) (es : List Event) (irqen : BitVec 32)
      (hinfo : w.daemon.v120Info[idx]? = some info)
      (hservices : Services w.daemon.vectorTable idx info.cratenumber es)
      (hdaemon : w'.daemon = w.daemon.setIrqen idx irqen)
      (htrace : w'.trace = w.trace ++
        ([.processVme (w.pollfd sys idx).fd, .read (w.pollfd sys idx).fd received] ++ es))
  | newclient (hidx : idx = w.daemon.lenCrates)
      (hserved : NewclientServed sys w (w.pollfd sys idx).fd w')
  | client (hidx : w.daemon.lenCrates < idx) (hserved : ClientServed w idx (w.pollfd sys idx).fd w')

/-- `process_newclient` makes no use of fuel. -/
theorem processNewclient_ne_unfinished (w w' : World σ) :
    processNewclient sys w ≠ .unfinished w' := by
  unfold processNewclient processAccepted
  dsimp only
  split
  · simp
  · split
    · simp
    · split <;> simp

/-- `process_client` makes no use of fuel. -/
theorem processClient_ne_unfinished (idx : ℕ) (w w' : World σ) :
    processClient sys idx w ≠ .unfinished w' := by
  unfold processClient disconnectClient
  dsimp only
  split
  · simp
  · split
    · split <;> simp
    · simp

/-- The handler that `mainloop` picks for an index. -/
theorem serviceFd_spec {fuel idx : ℕ} {w w' : World σ}
    (h : serviceFd sys fuel idx w = .done w' ∨ serviceFd sys fuel idx w = .unfinished w') :
    Serviced sys w idx w' := by
  unfold serviceFd at h
  by_cases hlow : idx < w.daemon.lenCrates
  · rw [if_pos hlow] at h
    have hinfo : w.daemon.v120Info[idx]? = some (w.daemon.v120Info.get ⟨idx, hlow⟩) :=
      List.getElem?_eq_getElem hlow
    obtain ⟨received, es, irqen, hservices, hdaemon, htrace⟩ := processVme_spec sys hinfo fuel
    have hworld : (processVme sys fuel idx w).world = w' := by
      rcases h with h | h <;> rw [h] <;> rfl
    rw [hworld] at hdaemon htrace
    exact .vme _ received es irqen hinfo hservices hdaemon htrace
  · rw [if_neg hlow] at h
    by_cases hserver : idx = w.daemon.lenCrates
    · rw [if_pos hserver] at h
      rcases h with h | h
      · exact .newclient hserver (hserver ▸ processNewclient_spec h)
      · exact absurd h (processNewclient_ne_unfinished w w')
    · rw [if_neg hserver] at h
      rcases h with h | h
      · exact .client (by omega) (processClient_spec h)
      · exact absurd h (processClient_ne_unfinished idx w w')

end V120.Irqd
