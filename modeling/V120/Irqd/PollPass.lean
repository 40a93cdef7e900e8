import V120.Irqd.BlockingReads
import V120.Irqd.Connections

/-!
# One pass of `mainloop`

The loop indexes the poll list while its own handlers shorten and lengthen it. A pass is first
reduced to a sweep over the poll list alone. A sweep serves exactly the reported descriptors as
long as no client that hangs up stands directly before another reported entry; the entry after
a removed one is skipped, and the event left over may then be spent on a cell nobody reported.
Apart from the descriptors it serves, a pass reads from the clients it notifies, reported or not.
-/

namespace V120.Irqd

open V120.Common

/-- What one handler call on an index does to the poll list, with its events. The list fails to
grow only where memory may be denied. -/
inductive Turn (denied : Prop) (n idx : ℕ) (fd : ℤ) (l : PollList) : PollList → List Event → Prop where
  | endpoint (es : List Event) (hidx : idx < n) (hes : handled es = [fd])
      (hclients : ∀ e ∈ es, e.changesClients = false) (hreads : ∀ c, .processClient c ∉ es) :
      Turn denied n idx fd l l es
  | refused (hidx : idx = n) : Turn denied n idx fd l l [.processNewclient fd]
  | accepted (hidx : idx = n) (client : ℤ) (stale : ℕ → Pollfd) :
      Turn denied n idx fd l (appendFd (.moved stale) client pollin l).2
        [.processNewclient fd, .accept client]
  | dropped (hdenied : denied) (hidx : idx = n) (client : ℤ) :
      Turn denied n idx fd l (appendFd .failed client pollin l).2
        [.processNewclient fd, .accept client, .close client]
  | served (hidx : n < idx) (received : Received) (es : List Event) (hlen : received.len ≠ 0)
      (hes : handled es = []) (hclients : ∀ e ∈ es, e.changesClients = false) :
      Turn denied n idx fd l l (.processClient fd :: .read fd received :: es)
  | hungUp (hidx : n < idx) (received : Received) (beyond : ℕ → Pollfd) (l' : PollList)
      (hlen : received.len = 0) (hremove : removeFd beyond n idx l = some l') :
      Turn denied n idx fd l l' [.processClient fd, .read fd received, .releaseAll fd, .close fd]

/-- The cell read at an index is the one in the block, if the block is that long. -/
def PollList.ReadsAs (l : PollList) (idx : ℕ) (cell : Pollfd) : Prop :=
  ∀ c, l.block[idx]? = some c → c = cell

/-- The loop of `mainloop` on the poll list: from an index, with a number of events to go. -/
inductive Sweep (denied : Prop) (n : ℕ) : ℕ → ℕ → PollList → List Event → Prop where
  | stop {idx nevents : ℕ} {l : PollList} (h : ¬ (idx < l.len ∧ nevents ≠ 0)) :
      Sweep denied n idx nevents l []
  | pass {idx nevents : ℕ} {l : PollList} {cell : Pollfd} {es : List Event}
      (h : idx < l.len ∧ nevents ≠ 0) (hcell : l.ReadsAs idx cell) (hready : cell.revents = 0)
      (rest : Sweep denied n (idx + 1) nevents l es) : Sweep denied n idx nevents l es
  | turn {idx nevents : ℕ} {l l' : PollList} {cell : Pollfd} {es es' : List Event}
      (h : idx < l.len ∧ nevents ≠ 0) (hcell : l.ReadsAs idx cell) (hready : cell.revents ≠ 0)
      (head : Turn denied n idx cell.fd l l' es) (rest : Sweep denied n (idx + 1) (nevents - 1) l' es') :
      Sweep denied n idx nevents l (es ++ es')

section Refinement

variable {σ : Type*} {sys : System σ}

/-- A notification hands no descriptor to a handler. -/
theorem Notified.handled {table : VectorTable} {sel : V120irqdSelector} {err : ℤ} {es : List Event}
    (h : Notified table sel err es) : handled es = [] := by
  cases h <;> rfl

/-- Serving interrupts hands no descriptor to a handler. -/
theorem Services.handled {table : VectorTable} {idx : ℕ} {n : Fin 16} {es : List Event}
    (h : Services table idx n es) : handled es = [] := by
  induction h with
  | stopped => rfl
  | nothing status => rfl
  | @service irq vector payload err es last rest status hline hnotify hlast hrest ih =>
    have hreading : V120.Irqd.handled last = [] := by
      rcases hlast with rfl | ⟨again, rfl⟩ <;> rfl
    change V120.Irqd.handled (es ++ last ++ rest) = []
    rw [handled_append, handled_append, hnotify.handled, hreading, ih]
    rfl

/-- Answering a message hands no descriptor to a handler. -/
theorem Replied.handled {sock : ℤ} {sel : V120irqdSelector} {fake : Bool}
    {table table' : VectorTable} {msg : MessageSelect} {es : List Event}
    (h : Replied sock sel fake table msg table' es) : handled es = [] := by
  cases h with
  | fakeNotified hfake hmsg hnotify => exact hnotify.handled
  | request realloc hregister hmsg => rfl
  | release hrelease hmsg => rfl
  | fakeUnanswered errno hfake hmsg => rfl
  | fakeRefused hfake hmsg => rfl
  | status hmsg => rfl
  | ignored hmsg => rfl

/-- A handler call is a turn on the poll list, and keeps the number of crates. -/
theorem Serviced.turn {w w' : World σ} {idx : ℕ} (h : Serviced sys w idx w') :
    w'.daemon.lenCrates = w.daemon.lenCrates ∧ ∃ es, w'.trace = w.trace ++ es ∧
      Turn (∃ s, (sys.reallocPollfds s).1 = .failed) w.daemon.lenCrates idx (w.pollfd sys idx).fd
        w.daemon.pollfds w'.daemon.pollfds es := by
  have hcount {pollfds : PollList} {table : VectorTable} {es : List Event}
      (heffect : Effect w w' pollfds table es) : w'.daemon.lenCrates = w.daemon.lenCrates := by
    simpa [Daemon.lenCrates] using congrArg List.length heffect.crates
  cases h with
  | vme info received es irqen hinfo hservices hdaemon htrace =>
    refine ⟨by rw [hdaemon]; exact length_setIrqen _ _ _, _, htrace, ?_⟩
    rw [hdaemon]
    refine .endpoint _ (List.getElem?_eq_some_iff.mp hinfo).1 ?_ ?_ ?_
    · rw [handled_append, hservices.handled]
      rfl
    · simpa [Event.changesClients] using fun e he => (hservices.quiet e he).2
    · intro c hc
      have hmem : c ∈ V120.Irqd.handled es :=
        List.mem_filterMap.mpr ⟨.processClient c, by simpa using hc, rfl⟩
      rw [hservices.handled] at hmem
      exact absurd hmem (by simp)
  | newclient hidx hserved =>
    cases hserved with
    | refused heffect => exact ⟨hcount heffect, _, heffect.trace, heffect.pollfds ▸ .refused hidx⟩
    | added client stale heffect =>
      exact ⟨hcount heffect, _, heffect.trace, heffect.pollfds ▸ .accepted hidx client stale⟩
    | dropped client s hrealloc heffect =>
      exact ⟨hcount heffect, _, heffect.trace, heffect.pollfds ▸ .dropped ⟨s, hrealloc⟩ hidx client⟩
  | client hidx hserved =>
    cases hserved with
    | unread received hlen heffect =>
      exact ⟨hcount heffect, _, heffect.trace,
        heffect.pollfds ▸ .served hidx received [] (by omega) rfl (by simp)⟩
    | hungUp received beyond l hlen hremove heffect =>
      exact ⟨hcount heffect, _, heffect.trace,
        heffect.pollfds ▸ .hungUp hidx received beyond l hlen hremove⟩
    | replied received stale table es hlen hreplied heffect =>
      exact ⟨hcount heffect, _, heffect.trace,
        heffect.pollfds ▸ .served hidx received es (by omega) hreplied.handled hreplied.table.2⟩

/-- The cell under an index in use. -/
theorem readsAs_pollfd (w : World σ) (idx : ℕ) : w.daemon.pollfds.ReadsAs idx (w.pollfd sys idx) := by
  intro c hc
  rw [World.pollfd, List.getD_eq_getElem?_getD, hc]
  rfl

/-- A pass over the ready descriptors is a sweep over the poll list. -/
theorem pollPass_sweep (fuel left idx nevents : ℕ) {w w' : World σ}
    (h : pollPass sys fuel left idx nevents w = .done w') :
    ∃ es, w'.trace = w.trace ++ es ∧
      Sweep (∃ s, (sys.reallocPollfds s).1 = .failed) w.daemon.lenCrates idx nevents
        w.daemon.pollfds es := by
  induction left generalizing idx nevents w with
  | zero => exact absurd h (by simp [pollPass])
  | succ left ih =>
    rw [pollPass] at h
    by_cases hmore : idx < w.daemon.pollfds.len ∧ nevents ≠ 0
    · rw [if_pos hmore] at h
      by_cases hready : (w.pollfd sys idx).revents ≠ 0
      · rw [if_pos hready] at h
        cases hserved : serviceFd sys fuel idx w with
        | exited w₁ => simp [hserved, Outcome.bind] at h
        | unfinished w₁ => simp [hserved, Outcome.bind] at h
        | done w₁ =>
          rw [hserved] at h
          obtain ⟨hcrates, es, htrace, hturn⟩ := (serviceFd_spec (Or.inl hserved)).turn
          obtain ⟨es', htrace', hsweep⟩ := ih (idx + 1) (nevents - 1) h
          rw [hcrates] at hsweep
          exact ⟨es ++ es', by rw [htrace', htrace, List.append_assoc],
            .turn hmore (readsAs_pollfd w idx) hready hturn hsweep⟩
      · rw [if_neg hready] at h
        obtain ⟨es, htrace, hsweep⟩ := ih (idx + 1) nevents h
        exact ⟨es, htrace, .pass hmore (readsAs_pollfd w idx) (not_not.mp hready) hsweep⟩
    · rw [if_neg hmore] at h
      obtain rfl := Outcome.done.inj h
      exact ⟨[], (List.append_nil _).symm, .stop hmore⟩

end Refinement

/-- Whether `ppoll` reported a cell. -/
def Pollfd.ready (c : Pollfd) : Bool := c.revents != 0

/-- The clients whose messages end where `process_client` reads them. -/
def HangUps (hup : ℤ → Prop) (es : List Event) : Prop :=
  ∀ before fd received after, es = before ++ .processClient fd :: .read fd received :: after →
    (received.len = 0 ↔ hup fd)

/-- The reads of a later part of a pass. -/
theorem HangUps.right {hup : ℤ → Prop} {es es' : List Event} (h : HangUps hup (es ++ es')) :
    HangUps hup es' := by
  intro before fd received after hsplit
  exact h (es ++ before) fd received after (by rw [hsplit, List.append_assoc])

/-- The first read of a pass. -/
theorem HangUps.head {hup : ℤ → Prop} {fd : ℤ} {received : Received} {es : List Event}
    (h : HangUps hup (.processClient fd :: .read fd received :: es)) : received.len = 0 ↔ hup fd :=
  h [] fd received es rfl

/-- Among cells that start at an index, no reported client that hangs up stands directly before
another reported cell. -/
def NoHangupBeforeReady (hup : ℤ → Prop) (n start : ℕ) (cells : List Pollfd) : Prop :=
  ∀ p c c', cells[p]? = some c → cells[p + 1]? = some c' → n < start + p → c.ready = true →
    hup c.fd → c'.ready = false

/-- The condition on the cells after the first. -/
theorem NoHangupBeforeReady.tail {hup : ℤ → Prop} {n start : ℕ} {c : Pollfd} {cells : List Pollfd}
    (h : NoHangupBeforeReady hup n start (c :: cells)) :
    NoHangupBeforeReady hup n (start + 1) cells :=
  fun p a b ha hb hlow => h (p + 1) a b ha hb (by omega)

/-- The condition on the cells after a removed one and the one skipped. -/
theorem NoHangupBeforeReady.tail_tail {hup : ℤ → Prop} {n start : ℕ} {c c' : Pollfd}
    {cells : List Pollfd} (h : NoHangupBeforeReady hup n start (c :: c' :: cells)) :
    NoHangupBeforeReady hup n (start + 1) cells :=
  fun p a b ha hb _ => h (p + 2) a b ha hb (by omega)

/-- The cells from an index on, all of them in use. -/
structure Shows (l : PollList) (idx : ℕ) (cells : List Pollfd) : Prop where
  block : ∀ p c, cells[p]? = some c → l.block[idx + p]? = some c
  inUse : ∀ p, p < cells.length → idx + p < l.len

/-- The cells after the first. -/
theorem Shows.tail {l : PollList} {idx : ℕ} {c : Pollfd} {cells : List Pollfd}
    (h : Shows l idx (c :: cells)) : Shows l (idx + 1) cells := by
  refine ⟨fun p a ha => ?_, fun p hp => ?_⟩
  · have hnext := h.block (p + 1) a ha
    rwa [← Nat.add_assoc, Nat.add_right_comm] at hnext
  · have hnext := h.inUse (p + 1) (by simpa using hp)
    omega

/-- Appending a client leaves the cells in use. -/
theorem Shows.append {l : PollList} {idx : ℕ} {cells : List Pollfd} (h : Shows l idx cells)
    (hallocated : l.Allocated) (stale : ℕ → Pollfd) (client : ℤ) :
    Shows (appendFd (.moved stale) client pollin l).2 idx cells := by
  obtain ⟨revents, -, hlen, hblock⟩ := appendFd_moved stale client pollin l hallocated
  refine ⟨fun p c hc => ?_, fun p hp => ?_⟩
  · obtain ⟨hp, -⟩ := List.getElem?_eq_some_iff.mp hc
    have hin := h.inUse p hp
    rw [hblock, List.getElem?_append_left (by rw [hallocated.length_live]; exact hin), PollList.live,
      List.getElem?_take_of_lt hin]
    exact h.block p c hc
  · rw [hlen]
    exact Nat.lt_succ_of_lt (h.inUse p hp)

/-- A removal moves the cells after the removed one up, past the loop index if there is one. -/
theorem Shows.remove {l l' : PollList} {n idx : ℕ} {beyond : ℕ → Pollfd} {c c' : Pollfd}
    {cells : List Pollfd} (h : Shows l idx (c :: c' :: cells))
    (hremove : removeFd beyond n idx l = some l') : Shows l' (idx + 1) cells := by
  obtain ⟨hlen, hshift⟩ := removeFd_shift hremove
  refine ⟨fun p a ha => ?_, fun p hp => ?_⟩
  · obtain ⟨hp, -⟩ := List.getElem?_eq_some_iff.mp ha
    have hin := h.inUse (p + 2) (by simpa using hp)
    have hnext := h.block (p + 2) a ha
    exact hshift (idx + 1 + p) a (by omega) (by omega)
      ((congrArg (l.block[·]?) (by omega : idx + 1 + p + 1 = idx + (p + 2))).trans hnext)
  · have hin := h.inUse (p + 2) (by simpa using hp)
    omega

/-- A sweep serves exactly the reported cells, in order, when no reported client that hangs up
stands directly before another reported cell. -/
theorem Sweep.serves {denied : Prop} {n idx nevents : ℕ} {l : PollList} {es : List Event}
    {hup : ℤ → Prop} (h : Sweep denied n idx nevents l es) (hhup : HangUps hup es)
    {cells : List Pollfd} (hshows : Shows l idx cells) (hcount : nevents = cells.countP Pollfd.ready)
    (hspared : NoHangupBeforeReady hup n idx cells) (hallocated : idx ≤ n → l.Allocated) :
    handled es = (cells.filter Pollfd.ready).map Pollfd.fd := by
  induction h generalizing cells with
  | @stop idx nevents l hstop =>
    have hnone : cells.filter Pollfd.ready = [] := by
      cases cells with
      | nil => rfl
      | cons c cells =>
        have hin := hshows.inUse 0 (by simp)
        have hzero : (c :: cells).countP Pollfd.ready = 0 := by
          by_contra hne
          exact hstop ⟨hin, hcount ▸ hne⟩
        rwa [List.countP_eq_length_filter, List.length_eq_zero_iff] at hzero
    rw [hnone]
    rfl
  | @pass idx nevents l cell es hmore hcell hready rest ih =>
    cases cells with
    | nil => exact absurd hcount hmore.2
    | cons c cells =>
      obtain rfl := hcell c (hshows.block 0 c rfl)
      have hnot : ¬ c.ready = true := by simp [Pollfd.ready, hready]
      rw [List.countP_cons_of_neg hnot] at hcount
      rw [List.filter_cons_of_neg hnot]
      exact ih hhup hshows.tail hcount hspared.tail fun hlow => hallocated (by omega)
  | @turn idx nevents l l' cell es es' hmore hcell hready head rest ih =>
    cases cells with
    | nil => exact absurd hcount hmore.2
    | cons c cells =>
      obtain rfl := hcell c (hshows.block 0 c rfl)
      have hc : c.ready = true := by simpa [Pollfd.ready] using hready
      rw [List.countP_cons_of_pos hc] at hcount
      have hrest : nevents - 1 = cells.countP Pollfd.ready := by omega
      rw [List.filter_cons_of_pos hc, List.map_cons, handled_append]
      have hnext (hshows' : Shows l' (idx + 1) cells) (hallocated' : idx + 1 ≤ n → l'.Allocated) :
          handled es' = (cells.filter Pollfd.ready).map Pollfd.fd :=
        ih hhup.right hshows' hrest hspared.tail hallocated'
      cases head with
      | endpoint _ hidx hes hclients hreads =>
        rw [hes, hnext hshows.tail fun hlow => hallocated (by omega)]
        rfl
      | refused hidx =>
        rw [hnext hshows.tail fun hlow => hallocated (by omega)]
        rfl
      | accepted hidx client stale =>
        rw [hnext (hshows.tail.append (hallocated (by omega)) stale client) fun hlow => absurd hlow (by omega)]
        rfl
      | dropped hdenied hidx client =>
        have hshows' : Shows (appendFd .failed client pollin l).2 (idx + 1) cells :=
          ⟨hshows.tail.block, fun p hp => Nat.lt_succ_of_lt (hshows.tail.inUse p hp)⟩
        rw [hnext hshows' fun hlow => absurd hlow (by omega)]
        rfl
      | served hidx received es hlen hes hclients =>
        rw [hnext hshows.tail fun hlow => hallocated (by omega)]
        change (c.fd :: handled es) ++ _ = _
        rw [hes]
        rfl
      | hungUp hidx received beyond l' hlen hremove =>
        have hc' : hup c.fd := hhup.head.mp hlen
        cases cells with
        | nil =>
          have hshows' : Shows l' (idx + 1) [] := ⟨by simp, by simp⟩
          rw [hnext hshows' fun hlow => absurd hlow (by omega)]
          rfl
        | cons c₁ cells =>
          have hnot : ¬ c₁.ready = true := by
            rw [hspared 0 c c₁ rfl rfl (by omega) hc hc']
            decide
          rw [List.countP_cons_of_neg hnot] at hrest
          rw [List.filter_cons_of_neg hnot, ih hhup.right (hshows.remove hremove) hrest
            hspared.tail_tail fun hlow => absurd hlow (by omega)]
          rfl

/-- The cell read at an index in use of an allocated list. -/
theorem live_of_readsAs {l : PollList} {idx : ℕ} {cell : Pollfd} (hallocated : l.Allocated)
    (hidx : idx < l.len) (hcell : l.ReadsAs idx cell) :
    l.live.drop idx = cell :: l.live.drop (idx + 1) := by
  have hlive : idx < l.live.length := by rwa [hallocated.length_live]
  have hblock : l.block[idx]? = some l.live[idx] := by
    rw [← List.getElem?_take_of_lt hidx]
    exact List.getElem?_eq_getElem hlive
  rw [← hcell _ hblock]
  exact List.drop_eq_getElem_cons hlive

/-- What a permitted removal leaves after the loop index. -/
theorem removeFd_drop {beyond : ℕ → Pollfd} {n idx : ℕ} {l l' : PollList} (hallocated : l.Allocated)
    (hlow : n < idx) (hidx : idx < l.len) (hremove : removeFd beyond n idx l = some l') :
    l'.Allocated ∧ l'.live = l.live.eraseIdx idx ∧
      l'.live.drop (idx + 1) = l.live.drop (idx + 2) := by
  obtain ⟨l₁, hremove₁, hallocated₁, -, hlive⟩ := removeFd_spec beyond n idx l hallocated hlow hidx
  obtain rfl := Option.some.inj (hremove₁.symm.trans hremove)
  have hlen : (l.live.take idx).length = idx := by
    rw [List.length_take, hallocated.length_live]
    omega
  refine ⟨hallocated₁, hlive, ?_⟩
  rw [hlive, List.eraseIdx_eq_take_drop_succ, List.drop_append, hlen, List.drop_drop,
    List.drop_of_length_le (by rw [hlen]; omega), List.nil_append]
  congr 1
  omega

/-- Past the server socket a sweep serves only descriptors listed from its index on. -/
theorem Sweep.handled_subset {denied : Prop} {n idx nevents : ℕ} {l : PollList} {es : List Event}
    (h : Sweep denied n idx nevents l es) (hidx : n < idx) (hallocated : l.Allocated) :
    ∀ fd ∈ handled es, fd ∈ (l.live.drop idx).map Pollfd.fd := by
  induction h with
  | stop h => exact fun fd hfd => absurd hfd (by simp [handled])
  | pass hmore hcell hready rest ih =>
    intro fd hfd
    rw [live_of_readsAs hallocated hmore.1 hcell]
    exact List.mem_cons_of_mem _ (ih (by omega) hallocated fd hfd)
  | @turn idx nevents l l' cell es es' hmore hcell hready head rest ih =>
    intro fd hfd
    rw [live_of_readsAs hallocated hmore.1 hcell]
    cases head with
    | endpoint _ hlow hes hclients hreads => omega
    | refused hserver => omega
    | accepted hserver client stale => omega
    | dropped hdenied hserver client => omega
    | served hlow received es hlen hes hclients =>
      change fd ∈ cell.fd :: handled (es ++ es') at hfd
      rw [handled_append, hes, List.nil_append] at hfd
      rcases List.mem_cons.mp hfd with rfl | hfd
      · exact List.mem_cons_self
      · exact List.mem_cons_of_mem _ (ih (by omega) hallocated fd hfd)
    | hungUp hlow received beyond l' hlen hremove =>
      obtain ⟨hallocated', -, hdrop⟩ := removeFd_drop hallocated hlow hmore.1 hremove
      change fd ∈ cell.fd :: handled es' at hfd
      rcases List.mem_cons.mp hfd with rfl | hfd
      · exact List.mem_cons_self
      · have hrest := ih (by omega) hallocated' fd hfd
        have hsplit : l.live.drop (idx + 2) = (l.live.drop (idx + 1)).drop 1 := by
          rw [List.drop_drop]
        rw [hdrop, hsplit, List.map_drop] at hrest
        exact List.mem_cons_of_mem _ (List.mem_of_mem_drop hrest)

/-- Two neighbours that break the condition. -/
theorem not_noHangupBeforeReady_cons {hup : ℤ → Prop} {n start : ℕ} {c : Pollfd}
    {cells : List Pollfd} (h : ¬ NoHangupBeforeReady hup n start (c :: cells)) :
    (∃ c' rest, cells = c' :: rest ∧ n < start ∧ c.ready = true ∧ hup c.fd ∧ c'.ready = true) ∨
      ¬ NoHangupBeforeReady hup n (start + 1) cells := by
  by_contra hnone
  rw [not_or, not_not] at hnone
  refine h fun p a b ha hb hlow hready hhup => ?_
  cases p with
  | zero =>
    obtain rfl := Option.some.inj ha
    cases cells with
    | nil => simp at hb
    | cons c' rest =>
      obtain rfl := Option.some.inj hb
      by_contra hb'
      exact hnone.1 ⟨c', rest, rfl, hlow, hready, hhup, by simpa using hb'⟩
  | succ p => exact hnone.2 p a b ha hb (by omega) hready hhup

/-- A cell that is not a reported client that hangs up does not break the condition. -/
theorem not_noHangupBeforeReady_tail {hup : ℤ → Prop} {n start : ℕ} {c : Pollfd} {cells : List Pollfd}
    (h : ¬ NoHangupBeforeReady hup n start (c :: cells)) (hc : n < start → c.ready = true → ¬ hup c.fd) :
    ¬ NoHangupBeforeReady hup n (start + 1) cells := by
  refine (not_noHangupBeforeReady_cons h).resolve_left ?_
  rintro ⟨_, _, _, hlow, hready, hhup, _⟩
  exact hc hlow hready hhup

/-- Behind a client and a cell that is not reported, the condition is broken further on, also when a
removal has moved the cells up by one. -/
theorem not_noHangupBeforeReady_skip {hup : ℤ → Prop} {n start : ℕ} {c c₁ : Pollfd} {cells : List Pollfd}
    (h : ¬ NoHangupBeforeReady hup n start (c :: c₁ :: cells)) (hlow : n < start)
    (hc₁ : ¬ c₁.ready = true) : ¬ NoHangupBeforeReady hup n (start + 1) cells := by
  have htail : ¬ NoHangupBeforeReady hup n (start + 1) (c₁ :: cells) := by
    refine (not_noHangupBeforeReady_cons h).resolve_left ?_
    rintro ⟨_, _, heq, _, _, _, hnext⟩
    exact hc₁ ((List.cons.inj heq).1 ▸ hnext)
  have hbehind := not_noHangupBeforeReady_tail htail fun _ hready => absurd hready hc₁
  exact fun hkept => hbehind fun p a b ha hb _ => hkept p a b ha hb (by omega)

/-- Where a sweep stops no reported cell is left, so that the condition holds. -/
theorem noHangupBeforeReady_of_stop {hup : ℤ → Prop} {n idx nevents : ℕ} {l : PollList}
    {cells extra : List Pollfd} (hallocated : l.Allocated) (hstop : ¬ (idx < l.len ∧ nevents ≠ 0))
    (hcells : l.live.drop idx = cells ++ extra) (hcount : cells.countP Pollfd.ready ≤ nevents) :
    NoHangupBeforeReady hup n idx cells := by
  intro p c c' hc hc' hlow hready hhup
  have hidx : idx < l.len := by
    rw [← hallocated.length_live]
    by_contra hpast
    rw [List.drop_of_length_le (by omega)] at hcells
    rw [(List.append_eq_nil_iff.mp hcells.symm).1] at hc
    simp at hc
  have hpos : 0 < cells.countP Pollfd.ready :=
    List.countP_pos_iff.mpr ⟨c, List.mem_of_getElem? hc, hready⟩
  exact absurd ⟨hidx, by omega⟩ hstop

/-- Behind a cell that was served, one that is missed in the rest is missed altogether: its descriptor is
another one. -/
theorem missed_behind {c : Pollfd} {cells extra : List Pollfd} {served es : List Event}
    (hdistinct : c.fd ∉ (cells ++ extra).map Pollfd.fd) (hserved : handled served = [c.fd])
    (h : ∃ a ∈ cells, a.ready = true ∧ a.fd ∉ handled es) :
    ∃ a ∈ c :: cells, a.ready = true ∧ a.fd ∉ handled (served ++ es) := by
  obtain ⟨a, ha, hready, hmissed⟩ := h
  refine ⟨a, List.mem_cons_of_mem _ ha, hready, ?_⟩
  rw [handled_append, hserved, List.singleton_append, List.mem_cons, not_or]
  refine ⟨fun hsame => hdistinct ?_, hmissed⟩
  rw [← hsame]
  exact List.mem_map_of_mem (List.mem_append_left _ ha)

/-- The descriptors from an index on are distinct. -/
theorem nodup_drop_fds {l : PollList} (hnodup : l.fds.Nodup) {idx : ℕ} {c : Pollfd} {cells : List Pollfd}
    (hcells : l.live.drop idx = c :: cells) : c.fd ∉ cells.map Pollfd.fd ∧ (cells.map Pollfd.fd).Nodup := by
  have hall : ((l.live.drop idx).map Pollfd.fd).Nodup := by
    rw [List.map_drop]
    exact hnodup.sublist (List.drop_sublist _ _)
  rw [hcells] at hall
  exact List.nodup_cons.mp hall

/-- A new descriptor goes behind the others, which stay distinct. -/
theorem appendFd_drop (stale : ℕ → Pollfd) {client : ℤ} {l : PollList} (hallocated : l.Allocated)
    (hnodup : l.fds.Nodup) (hclient : client ∉ l.fds) {idx : ℕ} (hidx : idx ≤ l.len) :
    (appendFd (.moved stale) client pollin l).2.fds.Nodup ∧ ∃ revents,
      (appendFd (.moved stale) client pollin l).2.live.drop idx =
        l.live.drop idx ++ [⟨client, pollin, revents⟩] := by
  obtain ⟨revents, hlive⟩ := live_appendFd stale client pollin hallocated
  have hfds : (appendFd (.moved stale) client pollin l).2.fds = l.fds ++ [client] := by
    rw [PollList.fds, hlive, List.map_append]
    rfl
  refine ⟨?_, revents, ?_⟩
  · rw [hfds]
    exact hnodup.append (List.nodup_singleton _) (List.disjoint_singleton.mpr hclient)
  · rw [hlive, List.drop_append_of_le_length (by rw [hallocated.length_live]; exact hidx)]

/-- A sweep misses a reported cell when a reported client that hangs up stands directly before
another reported cell, descriptors are distinct, and memory is granted. -/
theorem Sweep.misses {denied : Prop} {n idx nevents : ℕ} {l : PollList} {es : List Event}
    {hup : ℤ → Prop} (h : Sweep denied n idx nevents l es) (hgranted : ¬ denied)
    (hhup : HangUps hup es) (hallocated : l.Allocated) (hnodup : l.fds.Nodup)
    (hfresh : idx ≤ n → ∀ client, .accept client ∈ es → client ∉ l.fds) {cells extra : List Pollfd}
    (hcells : l.live.drop idx = cells ++ extra) (hcount : cells.countP Pollfd.ready ≤ nevents)
    (hbroken : ¬ NoHangupBeforeReady hup n idx cells) :
    ∃ c ∈ cells, c.ready = true ∧ c.fd ∉ handled es := by
  induction h generalizing cells extra with
  | @stop idx nevents l hstop =>
    exact absurd (noHangupBeforeReady_of_stop hallocated hstop hcells hcount) hbroken
  | @pass idx nevents l cell es hmore hcell hready rest ih =>
    cases cells with
    | nil => exact absurd (fun p c c' hc => by simp at hc) hbroken
    | cons c cells =>
      have hdrop := live_of_readsAs hallocated hmore.1 hcell
      rw [hcells, List.cons_append, List.cons.injEq] at hdrop
      obtain ⟨rfl, hrest⟩ := hdrop
      have hnot : ¬ c.ready = true := by simp [Pollfd.ready, hready]
      rw [List.countP_cons_of_neg hnot] at hcount
      obtain ⟨a, ha, hmissed⟩ := ih hhup hallocated hnodup (fun hlow => hfresh (by omega)) hrest.symm hcount
        (not_noHangupBeforeReady_tail hbroken fun _ hc => absurd hc hnot)
      exact ⟨a, List.mem_cons_of_mem _ ha, hmissed⟩
  | @turn idx nevents l l' cell es es' hmore hcell hready head rest ih =>
    cases cells with
    | nil => exact absurd (fun p c c' hc => by simp at hc) hbroken
    | cons c cells =>
      have hdrop := live_of_readsAs hallocated hmore.1 hcell
      rw [hcells, List.cons_append, List.cons.injEq] at hdrop
      obtain ⟨rfl, hrest⟩ := hdrop
      obtain ⟨hother, hothers⟩ := nodup_drop_fds hnodup hcells
      have hc : c.ready = true := by simpa [Pollfd.ready] using hready
      rw [List.countP_cons_of_pos hc] at hcount
      have hlist : l.live.drop (idx + 1) = cells ++ extra := hrest.symm
      cases head with
      | endpoint _ hidx hes hclients hreads =>
        refine missed_behind hother hes (ih hhup.right hallocated hnodup (fun hlow client haccept =>
          hfresh (by omega) client (List.mem_append_right _ haccept)) hlist (by omega) ?_)
        exact not_noHangupBeforeReady_tail hbroken fun hlow => absurd hlow (by omega)
      | refused hidx =>
        refine missed_behind hother rfl (ih hhup.right hallocated hnodup (fun hlow => absurd hlow (by omega))
          hlist (by omega) ?_)
        exact not_noHangupBeforeReady_tail hbroken fun hlow => absurd hlow (by omega)
      | accepted hidx client stale =>
        have hclient := hfresh (by omega) client (by simp)
        obtain ⟨hnodup', revents, hdrop'⟩ := appendFd_drop stale hallocated hnodup hclient hmore.1
        rw [hlist, List.append_assoc] at hdrop'
        refine missed_behind hother rfl (ih hhup.right (allocated_appendFd stale client pollin hallocated)
          hnodup' (fun hlow => absurd hlow (by omega)) hdrop' (by omega) ?_)
        exact not_noHangupBeforeReady_tail hbroken fun hlow => absurd hlow (by omega)
      | dropped hdenied hidx client => exact absurd hdenied hgranted
      | served hidx received es hlen hes hclients =>
        refine missed_behind hother (congrArg (c.fd :: ·) hes) (ih hhup.right hallocated hnodup
          (fun hlow => absurd hlow (by omega)) hlist (by omega) ?_)
        exact not_noHangupBeforeReady_tail hbroken fun _ _ hhup' => hlen (hhup.head.mpr hhup')
      | hungUp hidx received beyond l' hlen hremove =>
        obtain ⟨hallocated', hlive', hdrop'⟩ := removeFd_drop hallocated hidx hmore.1 hremove
        have hnodup' : l'.fds.Nodup := by
          rw [PollList.fds, hlive']
          exact hnodup.sublist ((List.eraseIdx_sublist _ _).map _)
        have hskip : l'.live.drop (idx + 1) = (cells ++ extra).drop 1 := by
          rw [hdrop', ← hlist, List.drop_drop]
        cases cells with
        | nil => exact absurd (fun p a b ha hb => by simp at hb) hbroken
        | cons c₁ cells =>
          rw [List.cons_append, List.drop_one, List.tail_cons] at hskip
          by_cases hc₁ : c₁.ready = true
          · -- The skipped cell is reported; what is served later is listed behind it.
            refine missed_behind hother rfl ⟨c₁, List.mem_cons_self, hc₁, fun hserved => ?_⟩
            have hbehind := rest.handled_subset (by omega) hallocated' c₁.fd hserved
            rw [hskip] at hbehind
            exact (List.nodup_cons.mp hothers).1 hbehind
          · rw [List.countP_cons_of_neg hc₁] at hcount
            obtain ⟨a, ha, hready, hmissed⟩ := ih hhup.right hallocated' hnodup'
              (fun hlow => absurd hlow (by omega)) hskip (by omega)
              (not_noHangupBeforeReady_skip hbroken hidx hc₁)
            exact missed_behind hother rfl ⟨a, List.mem_cons_of_mem _ ha, hready, hmissed⟩

section Mainloop

variable {σ : Type*} {sys : System σ}

/-- The descriptors `ppoll` reported, in order. -/
def readyFds (l : PollList) : List ℤ := (l.live.filter Pollfd.ready).map Pollfd.fd

/-- A pass that gives the handlers exactly the reported descriptors, each once, and reads from no
descriptor that was not reported, neither as a handler begins nor for the answer to a notification. -/
structure ServesReady (l : PollList) (es : List Event) : Prop where
  served : (handled es).Perm (readyFds l)
  reads : ∀ fd received, .read fd received ∈ es → fd ∈ readyFds l

/-- A pass of `mainloop` on reported entries is a sweep over the poll list. -/
theorem mainloop_sweep (fuel : ℕ) {w w' : World σ} {revents : ℕ → BitVec 16}
    (hpoll : (sys.ppoll w.daemon.pollfds.live w.outside).1 = .ready revents)
    (hdone : (mainloop sys fuel w).2 = .done w') :
    ∃ es, w'.trace = w.trace ++ es ∧
      Sweep (∃ s, (sys.reallocPollfds s).1 = .failed) w.daemon.lenCrates 0
        (w.daemon.pollfds.setRevents revents).nevents (w.daemon.pollfds.setRevents revents) es := by
  unfold mainloop at hdone
  generalize sys.ppoll w.daemon.pollfds.live w.outside = answer at hpoll hdone
  obtain ⟨polled, outside⟩ := answer
  dsimp only at hpoll hdone
  subst hpoll
  exact pollPass_sweep fuel _ 0 _ hdone

/-- The events of a pass lead the daemon from ready to ready. -/
theorem mainloop_serverRun (fuel : ℕ) {w w' : World σ} (hdone : (mainloop sys fuel w).2 = .done w')
    {es : List Event} (htrace : w'.trace = w.trace ++ es) :
    Run (ServerStep w.daemon.allowFakeIrq) es (.ready, w.daemon.vectorTable)
      (.ready, w'.daemon.vectorTable) := by
  have hpass : mainloop sys fuel w = ((mainloop sys fuel w).1, .done w') := Prod.ext rfl hdone
  obtain ⟨-, es₁, htrace₁, hrun⟩ := (mainloop_run fuel hpass).serverRun
  obtain rfl := List.append_cancel_left (htrace₁.symm.trans htrace)
  exact hrun

/-- **When a pass serves exactly what was reported.** It is enough that no reported client that
hangs up stands directly before another reported entry, and that the interrupts that come up in the
pass belong to reported clients, if they belong to any whose socket takes a message. When the listed
descriptors are distinct, accepted ones are new and memory is granted, it is necessary as well. -/
theorem mainloop_serves_ready_iff (fuel : ℕ) {w w' : World σ} {revents : ℕ → BitVec 16}
    (hallocated : w.daemon.pollfds.Allocated)
    (hpoll : (sys.ppoll w.daemon.pollfds.live w.outside).1 = .ready revents)
    (hdone : (mainloop sys fuel w).2 = .done w') {es : List Event}
    (htrace : w'.trace = w.trace ++ es) {hup : ℤ → Prop} (hhup : HangUps hup es) :
    (NoHangupBeforeReady hup w.daemon.lenCrates 0 (w.daemon.pollfds.setRevents revents).live ∧
          NoticesReported (readyFds (w.daemon.pollfds.setRevents revents)) w.daemon.vectorTable es →
        ServesReady (w.daemon.pollfds.setRevents revents) es) ∧
      (w.daemon.pollfds.fds.Nodup → (∀ client, .accept client ∈ es → client ∉ w.daemon.pollfds.fds) →
        (∀ s, (sys.reallocPollfds s).1 ≠ .failed) →
        (ServesReady (w.daemon.pollfds.setRevents revents) es ↔
          NoHangupBeforeReady hup w.daemon.lenCrates 0 (w.daemon.pollfds.setRevents revents).live ∧
            NoticesReported (readyFds (w.daemon.pollfds.setRevents revents))
              w.daemon.vectorTable es)) := by
  have hrun := mainloop_serverRun fuel hdone htrace
  obtain ⟨es₁, htrace₁, hsweep⟩ := mainloop_sweep fuel hpoll hdone
  obtain rfl := List.append_cancel_left (htrace₁.symm.trans htrace)
  have hallocated₁ := allocated_setRevents hallocated revents
  have hfds := fds_setRevents w.daemon.pollfds revents
  generalize w.daemon.pollfds.setRevents revents = l at hsweep hallocated₁ hfds ⊢
  have hshows : Shows l 0 l.live := by
    refine ⟨fun p c hc => ?_, fun p hp => ?_⟩
    · obtain ⟨hp, -⟩ := List.getElem?_eq_some_iff.mp hc
      rw [hallocated₁.length_live] at hp
      rw [Nat.zero_add, ← hc]
      exact (List.getElem?_take_of_lt hp).symm
    · rw [hallocated₁.length_live] at hp
      omega
  have henough (h : NoHangupBeforeReady hup w.daemon.lenCrates 0 l.live ∧
      NoticesReported (readyFds l) w.daemon.vectorTable es₁) : ServesReady l es₁ := by
    obtain ⟨hspared, hnotices⟩ := h
    have hserved : handled es₁ = readyFds l :=
      hsweep.serves hhup hshows rfl hspared fun _ => hallocated₁
    exact ⟨.of_eq hserved, fun fd received hread =>
      hnotices.reads hrun (fun fd hfd => hserved ▸ hfd) hread⟩
  refine ⟨henough, fun hnodup hfresh hgranted => ⟨fun hserves => ⟨?_, ?_⟩, henough⟩⟩
  · by_contra hbroken
    have hcells : l.live.drop 0 = l.live ++ [] := by rw [List.drop_zero, List.append_nil]
    obtain ⟨c, hc, hready, hmissed⟩ := hsweep.misses (fun ⟨s, hs⟩ => hgranted s hs) hhup hallocated₁
      (hfds ▸ hnodup) (fun _ client haccept => hfds ▸ hfresh client haccept) hcells (Nat.le_refl _) hbroken
    exact hmissed (hserves.served.mem_iff.mpr
      (List.mem_map_of_mem (List.mem_filter.mpr ⟨hc, hready⟩)))
  · exact noticesReported_of_reads hrun hserves.reads

end Mainloop

/-- An `ACK`. -/
def ackBuffer : ResponseBuffer := (⟨0⟩ : ResponseBuffer).setMsg .ack

/-- A crate with an interrupt pending or not, and clients that answer everything with an `ACK`. The
endpoint and the second entry behind it are reported. -/
def notifying : System Bool :=
  { System.silent with
    ppoll := fun _ s => (.ready fun i => if i = 1 then 0 else 1, s)
    irqstatus := fun _ s => (if s then 8 else 0, s)
    iackVector := fun _ _ _ => (0x10, false)
    sockets := ⟨fun _ _ s => (none, s), fun _ s => (.message ackBuffer, s), fun s => (⟨0⟩, s)⟩ }

/-- The crate is the last one, and the interrupt that is pending belongs to client 5. -/
def notified : World Bool :=
  ⟨⟨⟨[⟨3, pollin, 0⟩, ⟨4, pollin, 0⟩, ⟨5, pollin, 0⟩], 3⟩, [⟨Fin.last 15, 8⟩],
    [⟨⟨0x8000, 8, 0x10, 0⟩, 5⟩], false⟩, true, []⟩

/-- Client 5 is reported, acknowledges the interrupt, and then has its own message read. -/
theorem mainloop_serves_ready_interrupt :
    ServesReady ⟨[⟨3, pollin, 1⟩, ⟨4, pollin, 0⟩, ⟨5, pollin, 1⟩], 3⟩
      (mainloop notifying 2 notified).2.world.trace := by
  have hdone : (mainloop notifying 2 notified).2 = .done (mainloop notifying 2 notified).2.world := rfl
  let signal : ResponseBuffer := ((⟨0⟩ : ResponseBuffer).setMsg .irqSignal).setSelector ⟨0x8000, 8, 0x10, 0⟩
  let es : List Event := [.processVme 3, .read 3 (.message ackBuffer), .irqstatus 0 8,
    .iackVector 0 3 0x10, .lookup ⟨0x8000, 8, 0x10, 0⟩, .write 5 signal none, .read 5 (.message ackBuffer),
    .irqstatus 0 0, .processClient 5, .read 5 (.message ackBuffer)]
  have htrace : (mainloop notifying 2 notified).2.world.trace = [] ++ es := rfl
  have hallocated : notified.daemon.pollfds.Allocated := Nat.le_refl 3
  have hhup : HangUps (fun _ => False) es := by
    intro before fd received after hsplit
    have hmem : .read fd received ∈ es := by rw [hsplit]; simp
    obtain rfl : received = .message ackBuffer := by
      simp only [es, List.mem_cons, List.not_mem_nil, or_false, false_or, reduceCtorEq, Event.read.injEq]
        at hmem
      rcases hmem with ⟨-, h⟩ | ⟨-, h⟩ | ⟨-, h⟩ <;> exact h
    rw [Received.len_message]
    exact iff_of_false (by decide) id
  have hnotices : NoticesReported [3, 5] notified.daemon.vectorTable es := by
    intro before request after table' sock found hsplit htable hfind
    have hmem : .lookup request ∈ es := by rw [hsplit]; simp
    obtain rfl : request = ⟨0x8000, 8, 0x10, 0⟩ := by simpa [es] using hmem
    have hkept : ∀ e ∈ es, e.changesTable = false := by decide
    obtain rfl : table' = notified.daemon.vectorTable := by
      apply Run.unique _ htable (run_other _ before fun e he => hkept e ?_)
      · exact fun _ _ _ _ h h' => h.unique h'
      · rw [hsplit]
        exact List.mem_append_left _ he
    cases hfind
    exact Or.inl (by decide)
  have hiff := (mainloop_serves_ready_iff 2 hallocated rfl hdone htrace hhup).2 (by decide) (by simp [es])
    (fun s => by simp [notifying, System.silent])
  exact hiff.mpr ⟨fun _ _ _ _ _ _ _ h => h.elim, hnotices⟩

/-- The server socket and clients 5 and 6 are reported, and client 5 hung up. The new client 7 is
accepted into a cell whose `revents` held garbage; client 6 moves up and is skipped; and client 7
is read from although nobody reported it. -/
theorem mainloop_reads_unreported :
    let sys : System Unit := { System.silent with
      ppoll := fun _ s => (.ready fun _ => 1, s)
      sockets := ⟨fun _ _ s => (none, s), fun sock s => (.data (if sock = 5 then 0 else 20) 0, s),
        fun s => (⟨0⟩, s)⟩
      accept := fun _ s => (7, s)
      reallocPollfds := fun s => (.moved fun _ => ⟨0, 0, 1⟩, s) }
    let w : World Unit :=
      ⟨⟨⟨[⟨4, pollin, 0⟩, ⟨5, pollin, 0⟩, ⟨6, pollin, 0⟩], 3⟩, [], [], false⟩, (), []⟩
    let l := w.daemon.pollfds.setRevents fun _ => 1
    readyFds l = [4, 5, 6] ∧ handled (mainloop sys 0 w).2.world.trace = [4, 5, 7] ∧
      ¬ ServesReady l (mainloop sys 0 w).2.world.trace := by
  intro sys w l
  have hready : readyFds l = [4, 5, 6] := by decide
  have hserved : handled (mainloop sys 0 w).2.world.trace = [4, 5, 7] := by decide +kernel
  refine ⟨hready, hserved, fun hserves => ?_⟩
  have hperm := hserves.served
  rw [hready, hserved] at hperm
  exact absurd hperm (by decide)

end V120.Irqd
