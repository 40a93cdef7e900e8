import V120.Irqd.DaemonRuns
import V120.Irqd.TableRuns
import Mathlib.Data.List.InsertIdx
import Mathlib.Data.List.Nodup

/-!
# Connections of the daemon

The poll list holds the endpoints, the server socket and the connected clients in the order they
were accepted, and only connected clients own entries of the vector table. Both hold in every
reachable state although handlers edit the list while the main loop walks it, and although the
kernel hands out the same descriptors again.
-/

namespace V120.Irqd

open V120.Common

/-- The clients after one more event: an accepted one comes last, a closed one leaves. -/
def connect (clients : List ℤ) : Event → List ℤ
  | .accept fd => clients ++ [fd]
  | .close fd => clients.erase fd
  | _ => clients

/-- The clients connected after a trace, in the order they were accepted. -/
def connected (trace : List Event) : List ℤ := trace.foldl connect []

/-- Other events leave the clients alone. -/
theorem connect_other {e : Event} (h : e.changesClients = false) (clients : List ℤ) :
    connect clients e = clients := by
  cases e <;> first | rfl | simp [Event.changesClients] at h

/-- Other events leave the connected clients alone. -/
theorem connected_append_other (trace : List Event) {es : List Event}
    (h : ∀ e ∈ es, e.changesClients = false) : connected (trace ++ es) = connected trace := by
  rw [connected, List.foldl_append]
  induction es with
  | nil => rfl
  | cons e es ih =>
    rw [List.foldl_cons, connect_other (h e List.mem_cons_self)]
    exact ih fun e he => h e (List.mem_cons_of_mem _ he)

section Invariant

variable {σ : Type*} {sys : System σ}

/-- A step whose accepted descriptor, if any, was not open before. -/
def FreshStep (sys : System σ) (w w' : World σ) : Prop :=
  DaemonStep sys w w' ∧
    ∀ es fd, w'.trace = w.trace ++ es → Event.accept fd ∈ es → fd ∉ w.daemon.pollfds.fds

/-- The endpoints of the open crates, in the order of `v120_info`. -/
def IsEndpoints (st : Startup) (d : Daemon) (vme : List ℤ) : Prop :=
  vme.map some = (d.v120Info.map V120Info.cratenumber).map fun crate => (st.endpoint crate).map Prod.fst

/-- The endpoints and the open crates are as many. -/
theorem IsEndpoints.length {st : Startup} {d : Daemon} {vme : List ℤ} (h : IsEndpoints st d vme) :
    d.lenCrates = vme.length := by
  simpa [Daemon.lenCrates] using (congrArg List.length h).symm

/-- The poll list and the table agree with the connections. -/
structure Connections (st : Startup) (vme : List ℤ) (w : World σ) : Prop where
  allocated : w.daemon.pollfds.Allocated
  crates : IsEndpoints st w.daemon vme
  fds : w.daemon.pollfds.fds = vme ++ st.serversocket :: connected w.trace
  nodup : (connected w.trace).Nodup
  owners : ∃ r : Registry, w.daemon.vectorTable = r.layout ∧
    ∀ reg ∈ r.entries, reg.owner ∈ connected w.trace

variable (sys) in
/-- The descriptor under an index in use. -/
theorem pollfd_fd {w : World σ} (h : w.daemon.pollfds.Allocated) {idx : ℕ}
    (hidx : idx < w.daemon.pollfds.len) :
    w.daemon.pollfds.fds[idx]? = some (w.pollfd sys idx).fd := by
  have hblock : idx < w.daemon.pollfds.block.length := Nat.lt_of_lt_of_le hidx h
  rw [PollList.fds, PollList.live, List.getElem?_map, List.getElem?_take_of_lt hidx, World.pollfd,
    List.getElem?_eq_getElem hblock, List.getD_eq_getElem _ _ hblock, Option.map_some]

/-- What `ppoll` writes changes no descriptor. -/
theorem fds_setRevents (l : PollList) (revents : ℕ → BitVec 16) :
    (l.setRevents revents).fds = l.fds := by
  rw [PollList.fds, PollList.fds, PollList.live, PollList.live]
  apply List.ext_getElem?
  intro i
  simp only [PollList.setRevents, List.getElem?_map, List.getElem?_take, List.getElem?_mapIdx]
  split
  · rw [Option.map_map]
    congr 1
  · rfl

/-- What `ppoll` writes changes no allocation. -/
theorem allocated_setRevents {l : PollList} (h : l.Allocated) (revents : ℕ → BitVec 16) :
    (l.setRevents revents).Allocated := by
  rw [PollList.Allocated, PollList.setRevents, List.length_mapIdx]
  exact h

variable (sys) in
/-- An index past the crates and the server socket belongs to a connected client. -/
theorem Connections.client {st : Startup} {vme : List ℤ} {w : World σ} (h : Connections st vme w)
    {idx : ℕ} (hlow : w.daemon.lenCrates < idx) (hidx : idx < w.daemon.pollfds.len) :
    (connected w.trace)[idx - vme.length - 1]? = some (w.pollfd sys idx).fd := by
  have hfd := pollfd_fd sys h.allocated hidx
  rw [h.crates.length] at hlow
  have hsplit : idx - vme.length = idx - vme.length - 1 + 1 := by omega
  rwa [h.fds, List.getElem?_append_right (by omega), hsplit, List.getElem?_cons_succ] at hfd

/-- Quiet steps that keep both lists keep the invariant. -/
theorem Connections.keep {st : Startup} {vme : List ℤ} {w w' : World σ} {table : VectorTable}
    {es : List Event} (h : Connections st vme w)
    (heffect : Effect w w' w.daemon.pollfds table es)
    (hclients : ∀ e ∈ es, e.changesClients = false)
    (howners : ∃ r : Registry, table = r.layout ∧
      ∀ reg ∈ r.entries, reg.owner ∈ connected w.trace) :
    Connections st vme w' := by
  have hconnected : connected w'.trace = connected w.trace := by
    rw [heffect.trace, connected_append_other _ hclients]
  have hcrates : IsEndpoints st w'.daemon vme := by
    rw [IsEndpoints, heffect.crates]
    exact h.crates
  refine ⟨?_, hcrates, ?_, ?_, ?_⟩
  · rw [heffect.pollfds]
    exact h.allocated
  · rw [heffect.pollfds, hconnected]
    exact h.fds
  · rw [hconnected]
    exact h.nodup
  · rw [heffect.table, hconnected]
    exact howners

/-- Handling a message adds entries of its sender only. -/
theorem Replied.owners {sock : ℤ} {sel : V120irqdSelector} {fake : Bool} {r : Registry}
    {table : VectorTable} {msg : MessageSelect} {es : List Event}
    (h : Replied sock sel fake r.layout msg table es) :
    ∃ r' : Registry, table = r'.layout ∧ ∀ reg ∈ r'.entries, reg ∈ r.entries ∨ reg.owner = sock := by
  cases h with
  | request realloc hregister hmsg =>
    obtain ⟨r', htable, hrecorded⟩ := (TableEvent.register realloc hregister).recorded
    refine ⟨r', htable, fun reg hreg => ?_⟩
    cases hrecorded with
    | registered hlegal hfree hentries =>
      rw [hentries, List.mem_append, List.mem_singleton] at hreg
      exact hreg.imp id fun h => by rw [h, Registration.owner_ofRequest]
    | refused hret => exact Or.inl hreg
    | other _ h => exact absurd h (by simp [Event.changesTable])
  | release hrelease hmsg =>
    obtain ⟨r', htable, hrecorded⟩ := (TableEvent.release hrelease).recorded
    refine ⟨r', htable, fun reg hreg => Or.inl ?_⟩
    cases hrecorded with
    | released hfound hentries =>
      rw [hentries] at hreg
      exact List.mem_of_mem_filter hreg
    | kept hret => exact hreg
    | other _ h => exact absurd h (by simp [Event.changesTable])
  | fakeNotified hfake hmsg hnotify => exact ⟨r, rfl, fun reg hreg => Or.inl hreg⟩
  | fakeUnanswered errno hfake hmsg => exact ⟨r, rfl, fun reg hreg => Or.inl hreg⟩
  | fakeRefused hfake hmsg => exact ⟨r, rfl, fun reg hreg => Or.inl hreg⟩
  | status hmsg => exact ⟨r, rfl, fun reg hreg => Or.inl hreg⟩
  | ignored hmsg => exact ⟨r, rfl, fun reg hreg => Or.inl hreg⟩

/-- Accepting a fresh descriptor keeps the invariant. -/
theorem Connections.accept {st : Startup} {vme : List ℤ} {client : ℤ} {w w' : World σ}
    {stale : ℕ → Pollfd} (h : Connections st vme w)
    {server : ℤ} (heffect : Effect w w' (appendFd (.moved stale) client pollin w.daemon.pollfds).2
      w.daemon.vectorTable [.processNewclient server, .accept client])
    (hfresh : client ∉ w.daemon.pollfds.fds) : Connections st vme w' := by
  have hconnected : connected w'.trace = connected w.trace ++ [client] := by
    rw [heffect.trace, connected, List.foldl_append]
    rfl
  have hcrates : IsEndpoints st w'.daemon vme := by
    rw [IsEndpoints, heffect.crates]
    exact h.crates
  have hnew : client ∉ connected w.trace := fun hmem => hfresh (by
    rw [h.fds]
    exact List.mem_append_right _ (List.mem_cons_of_mem _ hmem))
  obtain ⟨revents, hlive⟩ := live_appendFd stale client pollin h.allocated
  refine ⟨?_, hcrates, ?_, ?_, ?_⟩
  · rw [heffect.pollfds]
    exact allocated_appendFd stale client pollin h.allocated
  · have hfds : (appendFd (.moved stale) client pollin w.daemon.pollfds).2.fds =
        w.daemon.pollfds.fds ++ [client] := by
      rw [PollList.fds, hlive, List.map_append]
      rfl
    rw [heffect.pollfds, hfds, hconnected, h.fds, List.append_assoc, List.cons_append]
  · rw [hconnected]
    exact List.nodup_append.mpr ⟨h.nodup, List.nodup_singleton _, by
      rintro a ha b hb rfl
      exact hnew (List.mem_singleton.mp hb ▸ ha)⟩
  · obtain ⟨r, htable, howners⟩ := h.owners
    refine ⟨r, heffect.table.trans htable, fun reg hreg => ?_⟩
    rw [hconnected]
    exact List.mem_append_left _ (howners reg hreg)

/-- Removing a client that hung up keeps the invariant. -/
theorem Connections.hangUp {st : Startup} {vme : List ℤ} {sock : ℤ} {w w' : World σ} {idx : ℕ}
    {received : Received} {beyond : ℕ → Pollfd} {l : PollList} (h : Connections st vme w)
    (hlow : w.daemon.lenCrates < idx) (hidx : idx < w.daemon.pollfds.len)
    (hsock : sock = (w.pollfd sys idx).fd)
    (hremove : removeFd beyond w.daemon.lenCrates idx w.daemon.pollfds = some l)
    (heffect : Effect w w' l (releaseAllInterrupts sock w.daemon.vectorTable).2
      [.processClient sock, .read sock received, .releaseAll sock, .close sock]) :
    Connections st vme w' := by
  have hclient := h.client sys hlow hidx
  rw [← hsock, List.getElem?_eq_some_iff] at hclient
  obtain ⟨hpos, hget⟩ := hclient
  have hconnected : connected w'.trace = (connected w.trace).erase sock := by
    rw [heffect.trace, connected, List.foldl_append]
    rfl
  have herase : (connected w.trace).erase sock =
      (connected w.trace).eraseIdx (idx - vme.length - 1) := by
    rw [← hget]
    exact h.nodup.erase_getElem _ hpos
  have hcrates : IsEndpoints st w'.daemon vme := by
    rw [IsEndpoints, heffect.crates]
    exact h.crates
  obtain ⟨l', hremove', hallocated, hlen, hlive⟩ :=
    removeFd_spec beyond w.daemon.lenCrates idx w.daemon.pollfds h.allocated hlow hidx
  obtain rfl := Option.some.inj (hremove'.symm.trans hremove)
  refine ⟨?_, hcrates, ?_, ?_, ?_⟩
  · rw [heffect.pollfds]
    exact hallocated
  · have hfds : l'.fds = w.daemon.pollfds.fds.eraseIdx idx := by
      rw [PollList.fds, hlive, ← List.eraseIdx_map]
      rfl
    have hsplit : idx - vme.length = idx - vme.length - 1 + 1 := by
      rw [h.crates.length] at hlow
      omega
    rw [heffect.pollfds, hfds, h.fds, hconnected, herase,
      List.eraseIdx_append_of_length_le (by rw [h.crates.length] at hlow; omega), hsplit,
      List.eraseIdx_cons_succ, Nat.add_sub_cancel]
  · rw [hconnected]
    exact h.nodup.erase sock
  · obtain ⟨r, htable, howners⟩ := h.owners
    refine ⟨r.releaseAll sock, ?_, fun reg hreg => ?_⟩
    · rw [heffect.table, htable, r.releaseAllInterrupts_layout]
    · obtain ⟨hreg, hother⟩ := List.mem_filter.mp hreg
      rw [hconnected]
      exact (List.mem_erase_of_ne (bne_iff_ne.mp hother)).mpr (howners reg hreg)

/-- One step keeps the invariant, when memory is granted. -/
theorem Connections.step {st : Startup} {vme : List ℤ} {w w' : World σ}
    (halloc : ∀ s, (sys.reallocPollfds s).1 ≠ .failed) (h : Connections st vme w)
    (hstep : FreshStep sys w w') : Connections st vme w' := by
  obtain ⟨hstep, hfresh⟩ := hstep
  cases hstep with
  | outside s => exact ⟨h.allocated, h.crates, h.fds, h.nodup, h.owners⟩
  | polled revents =>
    exact ⟨allocated_setRevents h.allocated revents, h.crates,
      (fds_setRevents w.daemon.pollfds revents).trans h.fds, h.nodup, h.owners⟩
  | serviced fuel idx hidx hrun =>
    cases serviceFd_spec hrun with
    | vme info received es irqen hinfo hservices hdaemon htrace =>
      refine h.keep ⟨by rw [hdaemon]; rfl, by rw [hdaemon]; rfl, ?_, by rw [hdaemon]; rfl, htrace⟩ ?_
        h.owners
      · rw [hdaemon]
        exact crates_setIrqen w.daemon idx irqen
      · simpa [Event.changesClients] using fun e he => (hservices.quiet e he).2
    | newclient hserver hserved =>
      cases hserved with
      | refused heffect => exact h.keep heffect (by simp [Event.changesClients]) h.owners
      | added client stale heffect =>
        exact h.accept heffect (hfresh _ client heffect.trace (by simp))
      | dropped client s hrealloc heffect => exact absurd hrealloc (halloc s)
    | client hlow hserved =>
      cases hserved with
      | unread received hlen heffect => exact h.keep heffect (by simp [Event.changesClients]) h.owners
      | hungUp received beyond l hlen hremove heffect =>
        exact h.hangUp hlow hidx rfl hremove heffect
      | replied received stale table es hlen hreplied heffect =>
        obtain ⟨r, htable, howners⟩ := h.owners
        have hsock : (w.pollfd sys idx).fd ∈ connected w.trace :=
          List.mem_of_getElem? (h.client sys hlow hidx)
        have hclients := hreplied.table.2
        rw [htable] at hreplied
        obtain ⟨r', htable', hadded⟩ := hreplied.owners
        refine h.keep heffect ?_ ⟨r', htable', fun reg hreg => ?_⟩
        · simpa [Event.changesClients] using hclients
        · rcases hadded reg hreg with hold | hown
          · exact howners reg hold
          · exact hown ▸ hsock

end Invariant

/-- Only the endpoints of the open crates are listed, and nothing is registered. -/
structure Endpoints (st : Startup) (d : Daemon) (vme : List ℤ) : Prop where
  allocated : d.pollfds.Allocated
  fds : d.pollfds.fds = vme
  crates : IsEndpoints st d vme
  table : d.vectorTable = []

/-- A successful append adds one descriptor. -/
theorem fds_appendFd {realloc : PollRealloc} {fd : ℤ} {l l' : PollList} {idx : ℕ}
    (h : l.Allocated) (happend : appendFd realloc fd pollin l = (some idx, l')) :
    l'.Allocated ∧ l'.fds = l.fds ++ [fd] := by
  cases realloc with
  | failed => simp [appendFd] at happend
  | moved stale =>
    obtain rfl := (congrArg Prod.snd happend)
    obtain ⟨revents, hlive⟩ := live_appendFd stale fd pollin h
    refine ⟨allocated_appendFd stale fd pollin h, ?_⟩
    rw [PollList.fds, hlive, List.map_append]
    rfl

/-- Opening one crate keeps the order. -/
theorem configureVmeEndpoint_spec {st : Startup} {d d' : Daemon} {vme : List ℤ} {crate : Fin 16}
    (h : Endpoints st d vme) (hopen : configureVmeEndpoint st d crate = some d') :
    ∃ vme, Endpoints st d' vme := by
  unfold configureVmeEndpoint at hopen
  cases hend : st.endpoint crate with
  | none =>
    rw [hend] at hopen
    obtain rfl := Option.some.inj hopen
    exact ⟨vme, h⟩
  | some endpoint =>
    obtain ⟨fd, irqen⟩ := endpoint
    rw [hend] at hopen
    dsimp only at hopen
    split at hopen
    · exact absurd hopen (by simp)
    · next idx l happend =>
      obtain rfl := Option.some.inj hopen
      obtain ⟨hallocated, hfds⟩ := fds_appendFd h.allocated happend
      refine ⟨vme ++ [fd], hallocated, hfds.trans (by rw [h.fds]), ?_, h.table⟩
      have hcrates := h.crates
      rw [IsEndpoints] at hcrates ⊢
      simp only [List.map_append, hcrates, List.map_cons, List.map_nil, hend,
        Option.map_some]

/-- A started daemon lists the endpoints and the server socket, and has no registrations. -/
theorem initializeDaemon_spec {st : Startup} {d : Daemon} (h : initializeDaemon st = some d) :
    d.pollfds.Allocated ∧ d.vectorTable = [] ∧
      ∃ vme, d.pollfds.fds = vme ++ [st.serversocket] ∧ IsEndpoints st d vme := by
  have hrun (crates : List (Fin 16)) {d d' : Daemon} {vme : List ℤ} (h : Endpoints st d vme)
      (hopen : crates.foldlM (configureVmeEndpoint st) d = some d') :
      ∃ vme, Endpoints st d' vme := by
    induction crates generalizing d vme with
    | nil =>
      obtain rfl := Option.some.inj hopen
      exact ⟨vme, h⟩
    | cons crate crates ih =>
      rw [List.foldlM_cons] at hopen
      obtain ⟨d₁, hfirst, hrest⟩ := Option.bind_eq_some_iff.mp hopen
      obtain ⟨vme₁, h₁⟩ := configureVmeEndpoint_spec h hfirst
      exact ih h₁ hrest
  have hstart : Endpoints st ⟨PollList.empty, [], [], st.fakeok || st.noVme⟩ [] :=
    ⟨Nat.le_refl 0, rfl, rfl, rfl⟩
  unfold initializeDaemon at h
  obtain ⟨d₁, hvme, hserver⟩ := Option.bind_eq_some_iff.mp h
  have hends : ∃ vme, Endpoints st d₁ vme := by
    split at hvme
    · obtain rfl := Option.some.inj hvme
      exact ⟨[], hstart⟩
    · unfold configureVmeEndpoints at hvme
      split at hvme
      · exact absurd hvme (by simp)
      · exact hrun _ hstart hvme
  obtain ⟨vme, hends⟩ := hends
  unfold configureServerSocket at hserver
  split at hserver
  · exact absurd hserver (by simp)
  · split at hserver
    · exact absurd hserver (by simp)
    · split at hserver
      · exact absurd hserver (by simp)
      · next idx l happend =>
        obtain rfl := Option.some.inj hserver
        obtain ⟨hallocated, hfds⟩ := fds_appendFd hends.allocated happend
        exact ⟨hallocated, hends.table, vme, hfds.trans (by rw [hends.fds]), hends.crates⟩

/-- The trace of a reachable daemon says which registry its table is made from. -/
theorem reachable_registry {st : Startup} {d : Daemon} (hinit : initializeDaemon st = some d) {s : σ}
    {w : World σ} (hrun : DaemonRun sys ⟨d, s, []⟩ w) :
    ∃ r : Registry, w.daemon.vectorTable = r.layout ∧ Run Recorded w.trace Registry.empty r := by
  obtain ⟨es, htrace, htable⟩ := hrun.table
  have hstart : d.vectorTable = Registry.empty.layout := (initializeDaemon_spec hinit).2.1
  rw [hstart] at htable
  have hall : w.trace = es := htrace
  exact hall ▸ run_recorded htable

section Reachable

variable {σ : Type*} {sys : System σ}

/-- A started daemon satisfies the invariant. -/
theorem connections_start {st : Startup} {d : Daemon} (h : initializeDaemon st = some d) (s : σ) :
    ∃ vme, Connections st vme (⟨d, s, []⟩ : World σ) := by
  obtain ⟨hallocated, htable, vme, hfds, hcrates⟩ := initializeDaemon_spec h
  exact ⟨vme, hallocated, hcrates, hfds, List.nodup_nil, Registry.empty, htable,
    fun _ hreg => absurd hreg (by simp [Registry.empty])⟩

/-- A descriptor that is not connected owns nothing. -/
theorem Connections.ownedEntries {st : Startup} {vme : List ℤ} {w : World σ}
    (h : Connections st vme w) {fd : ℤ} (hfd : fd ∉ connected w.trace) :
    ownedEntries fd w.daemon.vectorTable = [] := by
  obtain ⟨r, htable, howners⟩ := h.owners
  rw [htable, ownedEntries_layout, List.map_eq_nil_iff, Registry.owned, List.filter_eq_nil_iff]
  intro reg hreg howner
  exact hfd (beq_iff_eq.mp howner ▸ howners reg hreg)

/-- A step that accepts a client leaves the vector table alone. -/
theorem accept_keeps_table {w w' : World σ} {es : List Event} {client : ℤ}
    (hstep : DaemonStep sys w w') (hes : w'.trace = w.trace ++ es) (haccept : .accept client ∈ es) :
    w'.daemon.vectorTable = w.daemon.vectorTable := by
  have hsame {es' : List Event} (h : w'.trace = w.trace ++ es') : .accept client ∈ es' :=
    List.append_cancel_left (hes.symm.trans h) ▸ haccept
  cases hstep with
  | outside s => rfl
  | polled revents => rfl
  | serviced fuel idx hidx hrun =>
    cases serviceFd_spec hrun with
    | vme info received es irqen hinfo hservices hdaemon htrace =>
      rw [hdaemon]
      rfl
    | newclient hserver hserved =>
      cases hserved with
      | refused heffect => exact heffect.table
      | added client stale heffect => exact heffect.table
      | dropped client s hrealloc heffect => exact heffect.table
    | client hlow hserved =>
      cases hserved with
      | unread received hlen heffect => exact heffect.table
      | hungUp received beyond l hlen hremove heffect =>
        exact absurd (hsame heffect.trace) (by simp)
      | replied received stale table es hlen hreplied heffect =>
        have hmem := hsame heffect.trace
        rw [List.mem_append] at hmem
        rcases hmem with hmem | hmem
        · exact absurd hmem (by simp)
        · exact absurd (hreplied.table.2 _ hmem) (by simp [Event.changesClients])

/-- **The poll list and the vector table agree with the connections.** In every reachable state
the poll list holds the endpoints of the open crates, the server socket and each connected client
once, in the order they were accepted; every owner of a table entry is connected; and a client
that is accepted under a descriptor that was used before starts with no registrations. -/
theorem reachable_connections (halloc : ∀ s, (sys.reallocPollfds s).1 ≠ .failed) {st : Startup}
    {d : Daemon} (hinit : initializeDaemon st = some d) (s : σ) {w : World σ}
    (hrun : Relation.ReflTransGen (FreshStep sys) ⟨d, s, []⟩ w) :
    (∃ vme, w.daemon.pollfds.fds = vme ++ st.serversocket :: connected w.trace ∧
        IsEndpoints st w.daemon vme) ∧
      (connected w.trace).Nodup ∧
      (∀ entry ∈ foreachVector w.daemon.vectorTable, entry.data ∈ connected w.trace) ∧
      (∀ fd, fd ∉ connected w.trace → ownedEntries fd w.daemon.vectorTable = []) ∧
      ∀ w' es client, FreshStep sys w w' → w'.trace = w.trace ++ es → .accept client ∈ es →
        ownedEntries client w'.daemon.vectorTable = [] := by
  obtain ⟨vme, hstart⟩ := connections_start hinit s
  have hinv : Connections st vme w := by
    induction hrun with
    | refl => exact hstart
    | tail _ hstep ih => exact ih.step halloc hstep
  refine ⟨⟨vme, hinv.fds, hinv.crates⟩, hinv.nodup, fun entry hentry => ?_,
    fun fd hfd => hinv.ownedEntries hfd, fun w' es client hstep hes haccept => ?_⟩
  · obtain ⟨r, htable, howners⟩ := hinv.owners
    rw [htable, r.foreachVector_layout] at hentry
    obtain ⟨reg, hreg, rfl⟩ := List.mem_map.mp hentry
    exact howners reg hreg
  · rw [accept_keeps_table hstep.1 hes haccept]
    apply hinv.ownedEntries
    intro hclient
    apply hstep.2 es client hes haccept
    rw [hinv.fds]
    exact List.mem_append_right _ (List.mem_cons_of_mem _ hclient)

/-- A daemon without crates accepts its first client under descriptor 3. -/
theorem reachable_connections_first :
    let st : Startup := ⟨fun _ => none, 4, fun _ => .failed, .moved fun _ => ⟨0, 0, 0⟩, true, false⟩
    let w : World Unit := ⟨⟨⟨[⟨4, pollin, 0⟩, ⟨3, pollin, 0⟩], 2⟩, [], [], true⟩, (),
      [.processNewclient 4, .accept 3]⟩
    connected w.trace = [3] ∧
      ∃ vme, w.daemon.pollfds.fds = vme ++ 4 :: connected w.trace ∧ IsEndpoints st w.daemon vme := by
  intro st w
  have hinit : initializeDaemon st = some ⟨⟨[⟨4, pollin, 0⟩], 1⟩, [], [], true⟩ := rfl
  have hstep : DaemonStep System.silent ⟨⟨⟨[⟨4, pollin, 0⟩], 1⟩, [], [], true⟩, (), []⟩ w :=
    .serviced 0 0 (by decide) (Or.inl rfl)
  refine ⟨rfl, (reachable_connections (fun _ => by simp [System.silent]) hinit ()
    (.single ⟨hstep, fun es fd hes hfd => ?_⟩)).1⟩
  obtain rfl : [.processNewclient 4, .accept 3] = es := hes
  obtain rfl : fd = 3 := by simpa using hfd
  decide

end Reachable

end V120.Irqd
