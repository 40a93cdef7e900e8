import V120.Common.Tally
import V120.Irqd.Connections
import Mathlib.Algebra.BigOperators.Ring.Finset

/-!
# The two numbers of a status report

`build_status_report` derives the number of clients from the length of the poll list and the number
of registrations from the vector table. Along every run they are the accepted connections less the
hang-ups, and what the connected clients registered less what they released.
-/

namespace V120.Irqd

open V120.Common

/-- Whether an event accepts a connection. -/
def Event.isAccept : Event → Bool
  | .accept _ => true
  | _ => false

/-- Whether an event ends a connection. -/
def Event.isClose : Event → Bool
  | .close _ => true
  | _ => false

/-- The connections accepted so far. -/
def accepts (trace : List Event) : ℕ := trace.countP Event.isAccept

/-- The hang-ups processed so far. -/
def hangUps (trace : List Event) : ℕ := trace.countP Event.isClose

/-- What one event does to the balance of the connection under a descriptor: a new connection starts
at 0, an accepted request adds one, a successful release takes one. -/
def outstandingStep (fd : ℤ) (n : ℤ) : Event → ℤ
  | .accept sock => if sock = fd then 0 else n
  | .register sock _ ret => if sock = fd ∧ 0 ≤ ret then n + 1 else n
  | .release sock _ ret => if sock = fd ∧ 0 ≤ ret then n - 1 else n
  | _ => n

/-- The accepted requests less the successful releases of the connection under a descriptor. -/
def outstanding (fd : ℤ) (trace : List Event) : ℤ := trace.foldl (outstandingStep fd) 0

/-- The accepted requests less the successful releases of the connected clients. -/
def totalOutstanding (trace : List Event) : ℤ :=
  ((connected trace).map fun fd => outstanding fd trace).sum

/-- What an event does to the number of clients. -/
def Event.clientsChange : Event → ℤ
  | .accept _ => 1
  | .close _ => -1
  | _ => 0

/-- What an event does to the number of registrations: a hang-up takes what the departing client has
outstanding, and refused calls, notifications and all else change nothing. -/
def Event.requestsChange (trace : List Event) : Event → ℤ
  | .register _ _ ret => if 0 ≤ ret then 1 else 0
  | .release _ _ ret => if 0 ≤ ret then -1 else 0
  | .close fd => -outstanding fd trace
  | _ => 0

/-- An event that may move an entry of a client in or out of the table, or its balance, otherwise than
by a call of the client itself. -/
def Event.foreign (fd : ℤ) : Event → Prop
  | .accept sock => sock = fd
  | .releaseAll sock => sock = fd
  | _ => False

/-- A successful release removes one entry of its owner. -/
theorem split_release {r r' : Registry} {sd : ℤ} {request : V120irqdSelector}
    (hfound : ∃ reg ∈ r.entries, reg.owner = sd ∧ SameKey reg.selector request)
    (hentries : r'.entries = r.entries.filter fun reg =>
      !(decide (reg.owner = sd) && decide (SameKey reg.selector request))) :
    ∃ dropped before after, dropped.owner = sd ∧ r.entries = before ++ dropped :: after ∧
      r'.entries = before ++ after := by
  obtain ⟨reg, hreg, howner, hkey⟩ := hfound
  have hone : r.entries.Pairwise fun a b =>
      ¬ ((decide (a.owner = sd) && decide (SameKey a.selector request)) = true ∧
        (decide (b.owner = sd) && decide (SameKey b.selector request)) = true) := by
    refine (r.pairwise_key request).imp fun hkeys => ?_
    rintro ⟨ha, hb⟩
    rw [Bool.and_eq_true, decide_eq_true_eq, decide_eq_true_eq] at ha hb
    exact hkeys ⟨ha.2, hb.2⟩
  obtain ⟨dropped, before, after, -, hdropped, hsplit, herase⟩ :=
    List.exists_of_eraseP (p := fun reg => decide (reg.owner = sd) && decide (SameKey reg.selector request))
      hreg (by simp [howner, hkey])
  rw [← eraseP_eq_filter hone, herase] at hentries
  exact ⟨dropped, before, after, by simpa using (Bool.and_eq_true_iff.mp hdropped).1, hsplit, hentries⟩

/-- Every event moves the entries a client owns as it moves the client's balance. -/
theorem Recorded.owned {e : Event} {r r' : Registry} (h : Recorded e r r') {fd : ℤ}
    (hforeign : ¬ e.foreign fd) :
    ((r'.owned fd).length : ℤ) = outstandingStep fd ((r.owned fd).length : ℤ) e := by
  cases h with
  | @registered r r' sd request hlegal hfree hentries =>
    have howned : r'.owned fd = r.owned fd ++ if sd = fd then [.ofRequest sd request hlegal] else [] := by
      rw [Registry.owned, Registry.owned, hentries, List.filter_append]
      by_cases hfd : sd = fd <;> simp [hfd]
    rw [howned, outstandingStep]
    by_cases hfd : sd = fd <;> simp [hfd]
  | @refused r sd ret request hret =>
    rw [outstandingStep, if_neg fun h => absurd hret (Int.not_lt.mpr h.2)]
  | @released r r' sd request hfound hentries =>
    obtain ⟨dropped, before, after, rfl, hsplit, hrest⟩ := split_release hfound hentries
    rw [Registry.owned, Registry.owned, hrest, hsplit, List.filter_append, List.filter_append, outstandingStep]
    by_cases hfd : dropped.owner = fd
    · rw [if_pos ⟨hfd, le_rfl⟩, List.filter_cons_of_pos (by simpa using hfd)]
      simp only [List.length_append, List.length_cons]
      omega
    · rw [if_neg fun h => hfd h.1, List.filter_cons_of_neg (by simpa using hfd)]
  | @kept r sd ret request hret =>
    rw [outstandingStep, if_neg fun h => absurd hret (Int.not_lt.mpr h.2)]
  | dropped sd r =>
    have hne : ∀ reg : Registration, (reg.owner != sd && reg.owner == fd) = (reg.owner == fd) := by
      intro reg
      by_cases hreg : reg.owner = fd
      · have hsd : reg.owner ≠ sd := fun h => hforeign (h.symm.trans hreg)
        simp [hreg, hreg ▸ hsd]
      · simp [hreg]
    change ((Registry.owned (r.releaseAll sd) fd).length : ℤ) = ((r.owned fd).length : ℤ)
    rw [Registry.owned, Registry.releaseAll, Registry.entries_filter, List.filter_filter, Registry.owned]
    simp only [Bool.and_comm, hne]
  | other r hother =>
    cases e <;> first | rfl | (simp [Event.changesTable] at hother; done) |
      exact (if_neg hforeign).symm

/-- What a sequence of events does to the entries of one client. -/
theorem run_owned {es : List Event} {r r' : Registry} (hrun : Run Recorded es r r') {fd : ℤ}
    (hforeign : ∀ e ∈ es, ¬ e.foreign fd) :
    ((r'.owned fd).length : ℤ) = es.foldl (outstandingStep fd) ((r.owned fd).length : ℤ) := by
  induction hrun with
  | nil r => rfl
  | @cons e es r r₁ r₂ head _ ih =>
    rw [List.foldl_cons, ← head.owned (hforeign e List.mem_cons_self)]
    exact ih fun other h => hforeign other (List.mem_cons_of_mem _ h)

/-- What a sequence of events does to the entries of one client, on the table itself. -/
theorem run_ownedEntries {es : List Event} {table table' : VectorTable}
    (htable : ∃ r : Registry, table = r.layout) (hrun : Run TableEvent es table table') {fd : ℤ}
    (hforeign : ∀ e ∈ es, ¬ e.foreign fd) :
    ((ownedEntries fd table').length : ℤ) =
      es.foldl (outstandingStep fd) ((ownedEntries fd table).length : ℤ) := by
  obtain ⟨r, rfl⟩ := htable
  obtain ⟨r', rfl, hrecorded⟩ := run_recorded hrun
  rw [ownedEntries_layout, ownedEntries_layout, List.length_map, List.length_map]
  exact run_owned hrecorded hforeign

/-- Events that are no connection events leave both counts alone. -/
theorem accepts_append_other (trace : List Event) {es : List Event}
    (h : ∀ e ∈ es, e.changesClients = false) :
    accepts (trace ++ es) = accepts trace ∧ hangUps (trace ++ es) = hangUps trace := by
  have haccept : es.countP Event.isAccept = 0 := by
    refine List.countP_eq_zero.mpr fun e he => ?_
    cases e with
    | accept fd => exact absurd (h _ he) (by simp [Event.changesClients])
    | _ => simp [Event.isAccept]
  have hclose : es.countP Event.isClose = 0 := by
    refine List.countP_eq_zero.mpr fun e he => ?_
    cases e with
    | close fd => exact absurd (h _ he) (by simp [Event.changesClients])
    | _ => simp [Event.isClose]
  rw [accepts, accepts, hangUps, hangUps, List.countP_append, List.countP_append, haccept, hclose]
  exact ⟨Nat.add_zero _, Nat.add_zero _⟩

/-- More events move a balance step by step. -/
theorem outstanding_append (fd : ℤ) (trace es : List Event) :
    outstanding fd (trace ++ es) = es.foldl (outstandingStep fd) (outstanding fd trace) :=
  List.foldl_append

/-- Quiet events move no balance. -/
theorem outstanding_append_quiet (fd : ℤ) (trace : List Event) {es : List Event} (h : Quiet es) :
    outstanding fd (trace ++ es) = outstanding fd trace := by
  rw [outstanding_append]
  induction es with
  | nil => rfl
  | cons e es ih =>
    obtain ⟨htable, hclients⟩ := h e List.mem_cons_self
    have hstep : outstandingStep fd (outstanding fd trace) e = outstanding fd trace := by
      cases e with
      | accept sock => exact absurd hclients (by simp [Event.changesClients])
      | register sd request ret => exact absurd htable (by simp [Event.changesTable])
      | release sd request ret => exact absurd htable (by simp [Event.changesTable])
      | _ => rfl
    rw [List.foldl_cons, hstep]
    exact ih fun e he => h e (List.mem_cons_of_mem _ he)

section Daemon

variable {σ : Type*} {sys : System σ} {st : Startup} {vme : List ℤ}

/-- The connections and the table agree with the books. -/
structure Balanced (w : World σ) : Prop where
  clients : accepts w.trace = hangUps w.trace + (connected w.trace).length
  requests : ∀ fd ∈ connected w.trace,
    ((ownedEntries fd w.daemon.vectorTable).length : ℤ) = outstanding fd w.trace

/-- `count_clients` is the number of connections. -/
theorem Connections.countClients {w : World σ} (h : Connections st vme w) :
    countClients w.daemon.lenCrates w.daemon.pollfds = (connected w.trace).length := by
  have hlen := congrArg List.length h.fds
  rw [PollList.fds, List.length_map, h.allocated.length_live, List.length_append, List.length_cons,
    ← h.crates.length] at hlen
  rw [V120.Irqd.countClients, hlen]
  omega

/-- `count_registered_interrupts` is what the connected clients have outstanding. -/
theorem Connections.countRegistered {w : World σ} (h : Connections st vme w) (hbalanced : Balanced w) :
    (countRegisteredInterrupts w.daemon.vectorTable : ℤ) = totalOutstanding w.trace := by
  obtain ⟨r, htable, howners⟩ := h.owners
  have hparts := length_eq_sum_filter Registration.owner h.nodup r.entries howners
  have hsame : (connected w.trace).map (fun fd => outstanding fd w.trace) =
      (connected w.trace).map fun fd => (((r.owned fd).length : ℕ) : ℤ) := by
    refine List.map_congr_left fun fd hfd => ?_
    rw [← hbalanced.requests fd hfd, htable, ownedEntries_layout, List.length_map]
  rw [totalOutstanding, hsame, htable, r.countRegisteredInterrupts_layout, hparts, Nat.cast_list_sum,
    List.map_map]
  rfl

/-- Events of the connected clients themselves keep the balance. -/
theorem Balanced.keep {w w' : World σ} {es : List Event} (h : Balanced w)
    (hconnections : Connections st vme w) (htrace : w'.trace = w.trace ++ es)
    (htable : Run TableEvent es w.daemon.vectorTable w'.daemon.vectorTable)
    (hclients : ∀ e ∈ es, e.changesClients = false) (hrelease : ∀ e ∈ es, ∀ sd, e ≠ .releaseAll sd) :
    Balanced w' := by
  obtain ⟨haccepts, hhangUps⟩ := accepts_append_other w.trace hclients
  have hconnected := connected_append_other w.trace hclients
  refine ⟨?_, fun fd hfd => ?_⟩
  · rw [htrace, haccepts, hhangUps, hconnected]
    exact h.clients
  · rw [htrace, hconnected] at hfd
    have hlayout : ∃ r : Registry, w.daemon.vectorTable = r.layout :=
      hconnections.owners.imp fun _ => And.left
    rw [htrace, outstanding_append, ← h.requests fd hfd]
    refine run_ownedEntries hlayout htable fun e he hforeign => ?_
    cases e with
    | accept sock => exact absurd (hclients _ he) (by simp [Event.changesClients])
    | releaseAll sock => exact hrelease _ he sock rfl
    | _ => exact hforeign

/-- A new connection starts with nothing outstanding. -/
theorem Balanced.accept {w w' : World σ} {server client : ℤ} (h : Balanced w)
    (hconnections : Connections st vme w)
    (htrace : w'.trace = w.trace ++ [.processNewclient server, .accept client])
    (htable : w'.daemon.vectorTable = w.daemon.vectorTable) (hfresh : client ∉ connected w.trace) :
    Balanced w' := by
  have hconnected : connected w'.trace = connected w.trace ++ [client] := by
    rw [htrace, connected, List.foldl_append]
    rfl
  refine ⟨?_, fun fd hfd => ?_⟩
  · have hclients := h.clients
    have haccept : accepts w'.trace = accepts w.trace + 1 := by
      rw [htrace, accepts, List.countP_append]
      rfl
    have hclose : hangUps w'.trace = hangUps w.trace := by
      rw [htrace, hangUps, List.countP_append]
      rfl
    rw [hconnected, haccept, hclose, List.length_append, List.length_singleton]
    omega
  · rw [htrace, outstanding_append, htable]
    rw [hconnected, List.mem_append, List.mem_singleton] at hfd
    rcases hfd with hold | rfl
    · have hne : client ≠ fd := fun heq => hfresh (heq ▸ hold)
      rw [h.requests fd hold]
      exact (if_neg hne).symm
    · rw [hconnections.ownedEntries hfresh]
      exact (if_pos rfl).symm

/-- A hang-up takes the departing client and keeps the balance of the others. -/
theorem Balanced.hangUp {w w' : World σ} {sock : ℤ} {received : Received} (h : Balanced w)
    (hconnections : Connections st vme w)
    (htrace : w'.trace = w.trace ++ [.processClient sock, .read sock received, .releaseAll sock, .close sock])
    (htable : w'.daemon.vectorTable = (releaseAllInterrupts sock w.daemon.vectorTable).2)
    (hsock : sock ∈ connected w.trace) : Balanced w' := by
  have hconnected : connected w'.trace = (connected w.trace).erase sock := by
    rw [htrace, connected, List.foldl_append]
    rfl
  refine ⟨?_, fun fd hfd => ?_⟩
  · have hclients := h.clients
    have hpos : 0 < (connected w.trace).length := List.length_pos_of_mem hsock
    have haccept : accepts w'.trace = accepts w.trace := by
      rw [htrace, accepts, List.countP_append]
      rfl
    have hclose : hangUps w'.trace = hangUps w.trace + 1 := by
      rw [htrace, hangUps, List.countP_append]
      rfl
    rw [hconnected, haccept, hclose, List.length_erase_of_mem hsock]
    omega
  · rw [hconnected] at hfd
    have hne : sock ≠ fd := by
      rintro rfl
      exact hconnections.nodup.not_mem_erase hfd
    have hlayout : ∃ r : Registry, w.daemon.vectorTable = r.layout :=
      hconnections.owners.imp fun _ => And.left
    rw [htrace, outstanding_append, ← h.requests fd (List.mem_of_mem_erase hfd), htable]
    refine run_ownedEntries hlayout (.cons (.other _ rfl) (.cons (.other _ rfl)
      (.cons (.releaseAll _ _) (.single (.other _ rfl))))) fun e he => ?_
    simp only [List.mem_cons, List.not_mem_nil, or_false] at he
    rcases he with rfl | rfl | rfl | rfl
    · exact id
    · exact id
    · exact hne
    · exact id

/-- A handled message never releases everything a client has. -/
theorem Replied.keeps_all {sock : ℤ} {sel : V120irqdSelector} {fake : Bool} {table table' : VectorTable}
    {msg : MessageSelect} {es : List Event} (h : Replied sock sel fake table msg table' es) :
    ∀ e ∈ es, ∀ sd, e ≠ .releaseAll sd := by
  rintro _ he sd rfl
  cases h with
  | fakeNotified hfake hmsg hnotify =>
    rcases List.mem_cons.mp he with heq | he
    · exact absurd heq (by simp)
    · exact absurd (hnotify.quiet _ he).1 (by simp [Event.changesTable])
  | _ => simp at he

/-- What one step means for the connections: they are kept, a new client is accepted, or one that was
connected hangs up. -/
inductive ConnectionStep (w w' : World σ) : Prop where
  | keep (es : List Event) (htrace : w'.trace = w.trace ++ es)
      (htable : Run TableEvent es w.daemon.vectorTable w'.daemon.vectorTable)
      (hclients : ∀ e ∈ es, e.changesClients = false) (hrelease : ∀ e ∈ es, ∀ sd, e ≠ .releaseAll sd)
  | accept (server client : ℤ)
      (htrace : w'.trace = w.trace ++ [.processNewclient server, .accept client])
      (htable : w'.daemon.vectorTable = w.daemon.vectorTable) (hnew : client ∉ connected w.trace)
  | hangUp (sock : ℤ) (received : Received)
      (htrace : w'.trace = w.trace ++
        [.processClient sock, .read sock received, .releaseAll sock, .close sock])
      (htable : w'.daemon.vectorTable = (releaseAllInterrupts sock w.daemon.vectorTable).2)
      (hsock : sock ∈ connected w.trace)

/-- Every step is one of these, when memory is granted for the poll list. -/
theorem FreshStep.connectionStep (halloc : ∀ s, (sys.reallocPollfds s).1 ≠ .failed) {w w' : World σ}
    (hconnections : Connections st vme w) (hstep : FreshStep sys w w') : ConnectionStep w w' := by
  obtain ⟨hstep, hfresh⟩ := hstep
  cases hstep with
  | outside s => exact .keep [] (List.append_nil _).symm (.nil _) (by simp) (by simp)
  | polled revents => exact .keep [] (List.append_nil _).symm (.nil _) (by simp) (by simp)
  | serviced fuel idx hidx hrun =>
    cases serviceFd_spec hrun with
    | vme info received es irqen hinfo hservices hdaemon htrace =>
      have hquiet : Quiet ([.processVme (w.pollfd sys idx).fd, .read (w.pollfd sys idx).fd received] ++ es) :=
        .cons rfl rfl (.cons rfl rfl hservices.quiet)
      have htable : w'.daemon.vectorTable = w.daemon.vectorTable := by
        rw [hdaemon]
        rfl
      refine .keep _ htrace (htable ▸ run_other _ _ fun e he => (hquiet e he).1)
        (fun e he => (hquiet e he).2) ?_
      rintro _ he sd rfl
      exact absurd (hquiet _ he).1 (by simp [Event.changesTable])
    | newclient hserver hserved =>
      cases hserved with
      | refused heffect =>
        exact .keep _ heffect.trace (heffect.table ▸ .single (.other _ rfl))
          (by simp [Event.changesClients]) (by simp)
      | added client stale heffect =>
        refine .accept _ client heffect.trace heffect.table fun hmem => ?_
        apply hfresh _ client heffect.trace (by simp)
        rw [hconnections.fds]
        exact List.mem_append_right _ (List.mem_cons_of_mem _ hmem)
      | dropped client s hrealloc heffect => exact absurd hrealloc (halloc s)
    | client hlow hserved =>
      cases hserved with
      | unread received hlen heffect =>
        exact .keep _ heffect.trace (heffect.table ▸ .cons (.other _ rfl) (.single (.other _ rfl)))
          (by simp [Event.changesClients]) (by simp)
      | hungUp received beyond l hlen hremove heffect =>
        exact .hangUp _ received heffect.trace heffect.table
          (List.mem_of_getElem? (hconnections.client sys hlow hidx))
      | replied received stale table es hlen hreplied heffect =>
        refine .keep _ heffect.trace
          (heffect.table ▸ .cons (.other _ rfl) (.cons (.other _ rfl) hreplied.table.1)) ?_ ?_
        · simpa [Event.changesClients] using hreplied.table.2
        · simpa using hreplied.keeps_all

/-- One step keeps the balance, when memory is granted for the poll list. -/
theorem Balanced.step (halloc : ∀ s, (sys.reallocPollfds s).1 ≠ .failed) {w w' : World σ}
    (h : Balanced w) (hconnections : Connections st vme w) (hstep : FreshStep sys w w') : Balanced w' := by
  cases hstep.connectionStep halloc hconnections with
  | keep es htrace htable hclients hrelease => exact h.keep hconnections htrace htable hclients hrelease
  | accept server client htrace htable hnew => exact h.accept hconnections htrace htable hnew
  | hangUp sock received htrace htable hsock => exact h.hangUp hconnections htrace htable hsock

/-- Notifications are no reports. -/
theorem Notified.not_report {table : VectorTable} {sel : V120irqdSelector} {err : ℤ} {es : List Event}
    (h : Notified table sel err es) {sock : ℤ} {buf : ResponseBuffer} {result : Option Errno}
    (hwrite : .write sock buf result ∈ es) : buf.msg ≠ .serverStatus := by
  cases h with
  | unmatched hfind => simp at hwrite
  | unsent errno hfind hmsg =>
    obtain ⟨-, rfl, -⟩ : _ ∧ _ ∧ _ := by simpa using hwrite
    simp [hmsg]
  | answered received hfind hmsg =>
    obtain ⟨-, rfl, -⟩ : _ ∧ _ ∧ _ := by simpa using hwrite
    simp [hmsg]

/-- Serving interrupts sends no reports. -/
theorem Services.not_report {table : VectorTable} {idx : ℕ} {n : Fin 16} {es : List Event}
    (h : Services table idx n es) {sock : ℤ} {buf : ResponseBuffer} {result : Option Errno}
    (hwrite : .write sock buf result ∈ es) : buf.msg ≠ .serverStatus := by
  induction h with
  | stopped => simp at hwrite
  | nothing status => simp at hwrite
  | @service irq vector payload err es last rest status hline hnotify hlast hrest ih =>
    simp only [List.mem_cons, List.mem_append, reduceCtorEq, false_or] at hwrite
    rcases hwrite with (hwrite | hwrite) | hwrite
    · exact hnotify.not_report hwrite
    · rcases hlast with rfl | ⟨again, rfl⟩ <;> simp at hwrite
    · exact ih hwrite

/-- Messages that do not ask for a report get none. -/
theorem Replied.not_report {sock : ℤ} {sel : V120irqdSelector} {fake : Bool} {table table' : VectorTable}
    {msg : MessageSelect} {es : List Event} (h : Replied sock sel fake table msg table' es)
    (hasked : msg ≠ .serverStatus) {sock' : ℤ} {buf : ResponseBuffer} {result : Option Errno}
    (hwrite : .write sock' buf result ∈ es) : buf.msg ≠ .serverStatus := by
  cases h with
  | request realloc hregister hmsg =>
    obtain ⟨-, rfl, -⟩ : _ ∧ _ ∧ _ := by simpa using hwrite
    rw [hmsg]
    split <;> simp
  | release hrelease hmsg =>
    obtain ⟨-, rfl, -⟩ : _ ∧ _ ∧ _ := by simpa using hwrite
    rw [hmsg]
    split <;> simp
  | fakeNotified hfake hmsg hnotify =>
    rcases List.mem_cons.mp hwrite with heq | hwrite
    · obtain ⟨-, rfl, -⟩ := Event.write.inj heq
      simp [hmsg]
    · exact hnotify.not_report hwrite
  | fakeUnanswered errno hfake hmsg =>
    obtain ⟨-, rfl, -⟩ : _ ∧ _ ∧ _ := by simpa using hwrite
    simp [hmsg]
  | fakeRefused hfake hmsg =>
    obtain ⟨-, rfl, -⟩ : _ ∧ _ ∧ _ := by simpa using hwrite
    simp [hmsg]
  | status hmsg => exact absurd rfl hasked
  | ignored hmsg => simp at hwrite

/-- A report sent while a message is handled says what `build_status_report` finds, and is the only
event of that message. -/
theorem clientMessage_report {sock : ℤ} {buffer : ResponseBuffer} {w : World σ} {es before after : List Event}
    {sock' : ℤ} {buf : ResponseBuffer} {result : Option Errno}
    (htrace : (clientMessage sys sock buffer w).trace = w.trace ++ es)
    (hes : es = before ++ .write sock' buf result :: after) (hmsg : buf.msg = .serverStatus) :
    buf.status = buildStatusReport sys w.daemon ∧ before = [] := by
  by_cases hasked : buffer.msg = .serverStatus
  · obtain ⟨sent, -, hio⟩ := msgSend_spec sys sock (buffer.setStatus (buildStatusReport sys w.daemon)) w
    have hmessage : clientMessage sys sock buffer w =
        (v120irqdMsgSend (World.sockets sys) sock (buffer.setStatus (buildStatusReport sys w.daemon)) w).2 := by
      unfold clientMessage
      rw [hasked]
    rw [hmessage, hio.trace, List.append_cancel_left_eq] at htrace
    rw [hes] at htrace
    cases before with
    | nil =>
      obtain ⟨-, rfl, -⟩ := Event.write.inj (List.cons.inj htrace).1
      exact ⟨ResponseBuffer.status_setStatus _ _, rfl⟩
    | cons e before =>
      have hlen := congrArg List.length htrace
      simp at hlen
  · obtain ⟨table, es', hreplied, heffect⟩ := clientMessage_spec sys sock buffer w
    have hsame : es' = es := List.append_cancel_left (heffect.trace.symm.trans htrace)
    have hwrite : .write sock' buf result ∈ es' := by
      rw [hsame, hes]
      exact List.mem_append_right _ List.mem_cons_self
    exact absurd hmsg (hreplied.not_report hasked hwrite)

/-- The events of a hang-up. -/
theorem disconnectClient_trace {idx : ℕ} {sock : ℤ} {w w' : World σ}
    (h : disconnectClient sys idx sock w = .done w') :
    w'.trace = w.trace ++ [.releaseAll sock, .close sock] := by
  unfold disconnectClient at h
  cases hremove : removeFd (sys.beyond w.outside) w.daemon.lenCrates idx w.daemon.pollfds with
  | none =>
    rw [hremove] at h
    exact absurd h (by simp)
  | some l =>
    rw [hremove] at h
    obtain rfl := Outcome.done.inj h
    simp [World.modify, World.log]

/-- A report sent by a handler says what `build_status_report` finds when the handler is called, and
only quiet events stand before it. -/
theorem serviceFd_report {fuel idx : ℕ} {w w' : World σ}
    (hrun : serviceFd sys fuel idx w = .done w' ∨ serviceFd sys fuel idx w = .unfinished w')
    {before after : List Event} {sock : ℤ} {buf : ResponseBuffer} {result : Option Errno}
    (htrace : w'.trace = w.trace ++ (before ++ .write sock buf result :: after))
    (hmsg : buf.msg = .serverStatus) : buf.status = buildStatusReport sys w.daemon ∧ Quiet before := by
  have hmem {es : List Event} (hes : w'.trace = w.trace ++ es) : .write sock buf result ∈ es := by
    rw [← List.append_cancel_left (htrace.symm.trans hes)]
    simp
  cases serviceFd_spec hrun with
  | vme info received es irqen hinfo hservices hdaemon hes =>
    have hwrite := hmem hes
    simp only [List.mem_append, List.mem_cons, reduceCtorEq, List.not_mem_nil, or_self, false_or] at hwrite
    exact absurd hmsg (hservices.not_report hwrite)
  | newclient hserver hserved =>
    cases hserved with
    | refused heffect => exact absurd (hmem heffect.trace) (by simp)
    | added client stale heffect => exact absurd (hmem heffect.trace) (by simp)
    | dropped client s hrealloc heffect => exact absurd (hmem heffect.trace) (by simp)
  | client hlow hserved =>
    have hclient : serviceFd sys fuel idx w = processClient sys idx w := by
      rw [serviceFd, if_neg (by omega), if_neg (by omega)]
    rw [hclient] at hrun
    have hdone : processClient sys idx w = .done w' :=
      hrun.resolve_right (processClient_ne_unfinished idx w w')
    obtain ⟨received, stale, w₁, hio, hdef⟩ := processClient_eq sys idx w
    rw [hdef] at hdone
    by_cases hneg : received.len < 0
    · rw [if_pos hneg] at hdone
      obtain rfl := Outcome.done.inj hdone
      exact absurd (hmem hio.trace) (by simp)
    · rw [if_neg hneg] at hdone
      by_cases hzero : received.len = 0
      · rw [if_pos hzero] at hdone
        have hes := disconnectClient_trace hdone
        rw [hio.trace, List.append_assoc] at hes
        exact absurd (hmem hes) (by simp)
      · rw [if_neg hzero] at hdone
        obtain rfl := Outcome.done.inj hdone
        obtain ⟨table, es, -, heffect⟩ := clientMessage_spec sys (w.pollfd sys idx).fd
          (received.fill stale) w₁
        have hes := heffect.trace
        rw [hio.trace, List.append_assoc, htrace, List.append_cancel_left_eq] at hes
        obtain ⟨before', rfl, hsplit⟩ := split_append_cons (by simp) hes.symm
        obtain ⟨hstatus, rfl⟩ := clientMessage_report heffect.trace hsplit hmsg
        rw [hio.daemon] at hstatus
        exact ⟨hstatus, .cons rfl rfl (.cons rfl rfl fun _ he => absurd he (by simp))⟩

/-- A report says what the books say. -/
structure ReportOf (trace : List Event) (status : ServerStatus) : Prop where
  clients : status.clients = .ofInt 32 (accepts trace - hangUps trace)
  requests : status.irqRequests = .ofInt 32 (totalOutstanding trace)

/-- What `build_status_report` finds between two handlers is what the books say. -/
theorem Connections.report {w : World σ} (h : Connections st vme w) (hbalanced : Balanced w) :
    ReportOf w.trace (buildStatusReport sys w.daemon) := by
  have hclients : (accepts w.trace : ℤ) - hangUps w.trace = ((connected w.trace).length : ℕ) := by
    rw [hbalanced.clients, Nat.cast_add]
    omega
  refine ⟨?_, ?_⟩
  · rw [hclients, buildStatusReport, h.countClients, BitVec.ofInt_natCast]
  · rw [← h.countRegistered hbalanced, buildStatusReport, BitVec.ofInt_natCast]

/-- Quiet events change none of the books. -/
theorem reportOf_append_quiet {trace es : List Event} {status : ServerStatus} (h : Quiet es)
    (hreport : ReportOf trace status) : ReportOf (trace ++ es) status := by
  have hclients : ∀ e ∈ es, e.changesClients = false := fun e he => (h e he).2
  obtain ⟨haccepts, hhangUps⟩ := accepts_append_other trace hclients
  refine ⟨?_, ?_⟩
  · rw [haccepts, hhangUps]
    exact hreport.clients
  · rw [totalOutstanding, connected_append_other trace hclients]
    simp only [outstanding_append_quiet _ trace h]
    exact hreport.requests

/-- A step changes the two numbers by what its events say. -/
structure Conserves (w w' : World σ) (es : List Event) : Prop where
  clients : (countClients w'.daemon.lenCrates w'.daemon.pollfds : ℤ) =
    countClients w.daemon.lenCrates w.daemon.pollfds + (es.map Event.clientsChange).sum
  requests : (countRegisteredInterrupts w'.daemon.vectorTable : ℤ) =
    countRegisteredInterrupts w.daemon.vectorTable + (es.map (Event.requestsChange w.trace)).sum

/-- A step's change of the number of clients is its accepts less its hang-ups. -/
theorem sum_clientsChange (es : List Event) :
    (es.map Event.clientsChange).sum = (accepts es : ℤ) - hangUps es := by
  induction es with
  | nil => rfl
  | cons e es ih =>
    rw [List.map_cons, List.sum_cons, ih, accepts, accepts, hangUps, hangUps, List.countP_cons,
      List.countP_cons]
    cases e <;> simp [Event.clientsChange, Event.isAccept, Event.isClose] <;> omega

/-- Every event but a hang-up changes the number of registrations as it says. -/
theorem Recorded.total {e : Event} {r r' : Registry} (h : Recorded e r r') (trace : List Event)
    (hrelease : ∀ sd, e ≠ .releaseAll sd) (hclose : ∀ fd, e ≠ .close fd) :
    (r'.entries.length : ℤ) = r.entries.length + e.requestsChange trace := by
  cases h with
  | @registered r r' sd request hlegal hfree hentries =>
    rw [hentries, List.length_append, List.length_singleton, Nat.cast_add]
    rfl
  | @refused r sd ret request hret =>
    rw [Event.requestsChange, if_neg (Int.not_le.mpr hret), Int.add_zero]
  | @released r r' sd request hfound hentries =>
    obtain ⟨dropped, before, after, -, hsplit, hrest⟩ := split_release hfound hentries
    rw [hrest, hsplit, Event.requestsChange, if_pos le_rfl, List.length_append, List.length_append,
      List.length_cons]
    omega
  | @kept r sd ret request hret =>
    rw [Event.requestsChange, if_neg (Int.not_le.mpr hret), Int.add_zero]
  | dropped sd r => exact absurd rfl (hrelease sd)
  | other r hother =>
    cases e with
    | close fd => exact absurd rfl (hclose fd)
    | register sd request ret => exact absurd hother (by simp [Event.changesTable])
    | release sd request ret => exact absurd hother (by simp [Event.changesTable])
    | _ => exact (Int.add_zero _).symm

/-- Every sequence of events without a hang-up changes the number of registrations as it says. -/
theorem run_total {es : List Event} {table table' : VectorTable}
    (htable : ∃ r : Registry, table = r.layout) (hrun : Run TableEvent es table table')
    (trace : List Event) (hrelease : ∀ e ∈ es, ∀ sd, e ≠ .releaseAll sd)
    (hclose : ∀ e ∈ es, ∀ fd, e ≠ .close fd) :
    (countRegisteredInterrupts table' : ℤ) =
      countRegisteredInterrupts table + (es.map (Event.requestsChange trace)).sum := by
  obtain ⟨r, rfl⟩ := htable
  obtain ⟨r', rfl, hrecorded⟩ := run_recorded hrun
  rw [r.countRegisteredInterrupts_layout, r'.countRegisteredInterrupts_layout]
  clear hrun
  induction hrecorded with
  | nil r => exact (Int.add_zero _).symm
  | @cons e es r r₁ r₂ head _ ih =>
    rw [ih (fun e he => hrelease e (List.mem_cons_of_mem _ he)) fun e he =>
        hclose e (List.mem_cons_of_mem _ he),
      head.total trace (hrelease e List.mem_cons_self) (hclose e List.mem_cons_self), List.map_cons,
      List.sum_cons, Int.add_assoc]

/-- A hang-up takes what the departing client has outstanding. -/
theorem Balanced.hangUp_total {w : World σ} {sock : ℤ} (h : Balanced w)
    (hconnections : Connections st vme w) (hsock : sock ∈ connected w.trace) :
    (countRegisteredInterrupts (releaseAllInterrupts sock w.daemon.vectorTable).2 : ℤ) =
      countRegisteredInterrupts w.daemon.vectorTable - outstanding sock w.trace := by
  obtain ⟨r, htable, -⟩ := hconnections.owners
  have hsplit := List.length_eq_length_filter_add (l := r.entries) fun reg => reg.owner == sock
  have hkept : (r.releaseAll sock).entries = r.entries.filter fun reg => !(reg.owner == sock) := rfl
  have howned : ((r.owned sock).length : ℤ) = outstanding sock w.trace := by
    rw [← h.requests sock hsock, htable, ownedEntries_layout, List.length_map]
  rw [Registry.owned] at howned
  rw [← howned, htable, r.releaseAllInterrupts_layout, Registry.countRegisteredInterrupts_layout,
    r.countRegisteredInterrupts_layout, hkept, hsplit]
  omega

/-- Every step changes the number of clients by what its events say. -/
theorem Balanced.conserves_clients (halloc : ∀ s, (sys.reallocPollfds s).1 ≠ .failed) {w w' : World σ}
    (h : Balanced w) (hconnections : Connections st vme w) (hstep : FreshStep sys w w') {es : List Event}
    (htrace : w'.trace = w.trace ++ es) :
    (countClients w'.daemon.lenCrates w'.daemon.pollfds : ℤ) =
      countClients w.daemon.lenCrates w.daemon.pollfds + (es.map Event.clientsChange).sum := by
  have hnow := h.clients
  have hnext := (h.step halloc hconnections hstep).clients
  have haccepts : accepts w'.trace = accepts w.trace + accepts es := by
    rw [htrace, accepts, List.countP_append]
    rfl
  have hhangUps : hangUps w'.trace = hangUps w.trace + hangUps es := by
    rw [htrace, hangUps, List.countP_append]
    rfl
  rw [(hconnections.step halloc hstep).countClients, hconnections.countClients, sum_clientsChange es]
  omega

/-- Every step changes the number of registrations by what its events say. -/
theorem Balanced.conserves_requests (halloc : ∀ s, (sys.reallocPollfds s).1 ≠ .failed) {w w' : World σ}
    (h : Balanced w) (hconnections : Connections st vme w) (hstep : FreshStep sys w w') {es : List Event}
    (htrace : w'.trace = w.trace ++ es) :
    (countRegisteredInterrupts w'.daemon.vectorTable : ℤ) =
      countRegisteredInterrupts w.daemon.vectorTable + (es.map (Event.requestsChange w.trace)).sum := by
  cases hstep.connectionStep halloc hconnections with
  | keep es' htrace' htable hclients hrelease =>
    obtain rfl := List.append_cancel_left (htrace'.symm.trans htrace)
    have hlayout : ∃ r : Registry, w.daemon.vectorTable = r.layout :=
      hconnections.owners.imp fun _ => And.left
    refine run_total hlayout htable w.trace hrelease ?_
    rintro _ he fd rfl
    exact absurd (hclients _ he) (by simp [Event.changesClients])
  | accept server client htrace' htable hnew =>
    obtain rfl := List.append_cancel_left (htrace'.symm.trans htrace)
    rw [htable]
    exact (Int.add_zero _).symm
  | hangUp sock received htrace' htable hsock =>
    obtain rfl := List.append_cancel_left (htrace'.symm.trans htrace)
    rw [htable, h.hangUp_total hconnections hsock]
    simp [Event.requestsChange, Int.sub_eq_add_neg]

/-- Every step changes the two numbers by what its events say. -/
theorem Balanced.conserves (halloc : ∀ s, (sys.reallocPollfds s).1 ≠ .failed) {w w' : World σ}
    (h : Balanced w) (hconnections : Connections st vme w) (hstep : FreshStep sys w w') {es : List Event}
    (htrace : w'.trace = w.trace ++ es) : Conserves w w' es :=
  ⟨h.conserves_clients halloc hconnections hstep htrace,
    h.conserves_requests halloc hconnections hstep htrace⟩

/-- Every report of a trace says what the books said when it was sent. -/
def TrueReports (trace : List Event) : Prop :=
  ∀ before after sock buf result, trace = before ++ .write sock buf result :: after →
    buf.msg = .serverStatus → ReportOf before buf.status

/-- One step sends only true reports. -/
theorem TrueReports.step {w w' : World σ} (h : TrueReports w.trace) (hbalanced : Balanced w)
    (hconnections : Connections st vme w) (hstep : DaemonStep sys w w') : TrueReports w'.trace := by
  cases hstep with
  | outside s => exact h
  | polled revents => exact h
  | serviced fuel idx hidx hrun =>
    obtain ⟨es, hes, -⟩ := (serviceFd_spec hrun).table
    intro before after sock buf result hsplit hmsg
    have hsent (before' : List Event) (hbefore : before = w.trace ++ before')
        (hrest : es = before' ++ .write sock buf result :: after) : ReportOf before buf.status := by
      rw [hrest] at hes
      obtain ⟨hstatus, hquiet⟩ := serviceFd_report hrun hes hmsg
      rw [hbefore, hstatus]
      exact reportOf_append_quiet hquiet (hconnections.report hbalanced)
    rw [hes] at hsplit
    rcases List.append_eq_append_iff.mp hsplit with ⟨before', hbefore, hrest⟩ | ⟨middle, hold, hafter⟩
    · exact hsent before' hbefore hrest
    · cases middle with
      | nil => exact hsent [] (by simpa using hold.symm) hafter.symm
      | cons e middle =>
        obtain ⟨rfl, -⟩ := List.cons.inj hafter
        exact h before middle sock buf result hold hmsg

/-- **Status reports conserve registrations.** In every run, each report gives the accepted connections
less the hang-ups, and the accepted requests less the successful releases of the clients connected when
it is sent. In every state the daemon's two numbers are these, and each step changes them by what its
events say: refused calls, faked and dispatched interrupts leave them alone, and a hang-up takes exactly
what the departing client has outstanding. -/
theorem status_reports_conserve (halloc : ∀ s, (sys.reallocPollfds s).1 ≠ .failed) {d : Daemon}
    (hinit : initializeDaemon st = some d) (s : σ) {w : World σ}
    (hrun : Relation.ReflTransGen (FreshStep sys) ⟨d, s, []⟩ w) :
    TrueReports w.trace ∧
      (countClients w.daemon.lenCrates w.daemon.pollfds : ℤ) = accepts w.trace - hangUps w.trace ∧
      (countRegisteredInterrupts w.daemon.vectorTable : ℤ) = totalOutstanding w.trace ∧
      ∀ w' es, FreshStep sys w w' → w'.trace = w.trace ++ es → Conserves w w' es := by
  obtain ⟨vme, hstart⟩ := connections_start hinit s
  have hinv : Connections st vme w ∧ Balanced w ∧ TrueReports w.trace := by
    induction hrun with
    | refl =>
      refine ⟨hstart, ⟨rfl, fun fd hfd => absurd hfd List.not_mem_nil⟩, ?_⟩
      intro before after sock buf result hsplit
      exact absurd hsplit (by simp)
    | tail _ hstep ih =>
      obtain ⟨hconnections, hbalanced, hreports⟩ := ih
      exact ⟨hconnections.step halloc hstep, hbalanced.step halloc hconnections hstep,
        hreports.step hbalanced hconnections hstep.1⟩
  obtain ⟨hconnections, hbalanced, hreports⟩ := hinv
  refine ⟨hreports, ?_, hconnections.countRegistered hbalanced, fun w' es hstep hes =>
    hbalanced.conserves halloc hconnections hstep hes⟩
  rw [hconnections.countClients, hbalanced.clients]
  omega

end Daemon

/-- A daemon without crates accepts client 3, which asks for a report: one client, no registrations. -/
theorem status_reports_conserve_first :
    let st : Startup := ⟨fun _ => none, 4, fun _ => .failed, .moved fun _ => ⟨0, 0, 0⟩, true, false⟩
    let asks := (⟨0⟩ : ResponseBuffer).setMsg .serverStatus
    let sys : System Unit := { System.silent with
      sockets := ⟨fun _ _ s => (none, s), fun _ s => (.message asks, s), fun s => (⟨0⟩, s)⟩ }
    let d : Daemon := ⟨⟨[⟨4, pollin, 0⟩], 1⟩, [], [], true⟩
    let w := (serviceFd sys 0 1 (serviceFd sys 0 0 ⟨d, (), []⟩).world).world
    initializeDaemon st = some d ∧ TrueReports w.trace ∧
      (countClients w.daemon.lenCrates w.daemon.pollfds : ℤ) = accepts w.trace - hangUps w.trace ∧
      accepts w.trace = 1 ∧ hangUps w.trace = 0 := by
  intro st asks sys d w
  have haccepted : DaemonStep sys ⟨d, (), []⟩ (serviceFd sys 0 0 ⟨d, (), []⟩).world :=
    .serviced 0 0 (by decide) (Or.inl rfl)
  have hasked : DaemonStep sys (serviceFd sys 0 0 ⟨d, (), []⟩).world w :=
    .serviced 0 1 (by decide) (Or.inl rfl)
  have hrun : Relation.ReflTransGen (FreshStep sys) ⟨d, (), []⟩ w := by
    refine .tail (.single ⟨haccepted, fun es fd hes hfd => ?_⟩) ⟨hasked, fun es fd hes hfd => ?_⟩
    · obtain rfl : [.processNewclient 4, .accept 3] = es := hes
      obtain rfl : fd = 3 := by simpa using hfd
      decide
    · -- the second step accepts nobody
      have hone : accepts (serviceFd sys 0 0 ⟨d, (), []⟩).world.trace = 1 := by decide
      have hstill : accepts w.trace = 1 := by decide
      rw [hes, accepts, List.countP_append, ← accepts, hone] at hstill
      have hnone : es.countP Event.isAccept = 0 := by omega
      exact absurd rfl (List.countP_eq_zero.mp hnone _ hfd)
  have hinit : initializeDaemon st = some d := rfl
  have hgranted : ∀ s, (sys.reallocPollfds s).1 ≠ .failed := fun s => by simp [sys, System.silent]
  obtain ⟨hreports, hclients, -, -⟩ := status_reports_conserve hgranted hinit () hrun
  exact ⟨hinit, hreports, hclients, by decide, by decide⟩

end V120.Irqd
