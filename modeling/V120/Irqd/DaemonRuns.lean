import V120.Common.Runs
import V120.Irqd.Handlers
import V120.Irqd.TableRefinement
import Mathlib.Logic.Relation

/-!
# Runs of the daemon

A run interleaves handler calls on entries of the poll list with anything the outside does.
Every pass of `mainloop` is such a run. The trace says what a run did to the vector table, so
the table of a reachable daemon is the one its own calls lead to.
-/

namespace V120.Irqd

open V120.Common

variable {σ : Type*} {sys : System σ}

/-- One call of a handler on an entry of the poll list, finished or still serving interrupts, or
anything the outside does meanwhile, including what `ppoll` writes into the list. -/
inductive DaemonStep (sys : System σ) : World σ → World σ → Prop where
  | outside (w : World σ) (s : σ) : DaemonStep sys w { w with outside := s }
  | polled (w : World σ) (revents : ℕ → BitVec 16) :
      DaemonStep sys w (w.modify fun d => d.setPollfds (d.pollfds.setRevents revents))
  | serviced {w w' : World σ} (fuel idx : ℕ) (hidx : idx < w.daemon.pollfds.len)
      (hrun : serviceFd sys fuel idx w = .done w' ∨ serviceFd sys fuel idx w = .unfinished w') :
      DaemonStep sys w w'

/-- The worlds a daemon that starts in `w` can reach. -/
abbrev DaemonRun (sys : System σ) : World σ → World σ → Prop :=
  Relation.ReflTransGen (DaemonStep sys)

/-- The loop over the ready descriptors is a run. -/
theorem pollPass_run (fuel left idx nevents : ℕ) {w w' : World σ}
    (h : pollPass sys fuel left idx nevents w = .done w') : DaemonRun sys w w' := by
  induction left generalizing idx nevents w with
  | zero => exact absurd h (by simp [pollPass])
  | succ left ih =>
    rw [pollPass] at h
    split at h
    · next hcond =>
      split at h
      · cases hserved : serviceFd sys fuel idx w with
        | done w₁ =>
          rw [hserved] at h
          exact Relation.ReflTransGen.head (.serviced fuel idx hcond.1 (Or.inl hserved)) (ih _ _ h)
        | exited w₁ => simp [hserved, Outcome.bind] at h
        | unfinished w₁ => simp [hserved, Outcome.bind] at h
      · exact ih _ _ h
    · obtain rfl := Outcome.done.inj h
      exact .refl

/-- Every pass of `mainloop` is a run. -/
theorem mainloop_run (fuel : ℕ) {w w' : World σ} {ret : ℤ}
    (h : mainloop sys fuel w = (ret, .done w')) : DaemonRun sys w w' := by
  unfold mainloop at h
  generalize sys.ppoll w.daemon.pollfds.live w.outside = answer at h
  obtain ⟨polled, outside⟩ := answer
  have houtside : DaemonStep sys w { w with outside := outside } := .outside w outside
  cases polled with
  | failed errno =>
    obtain rfl := Outcome.done.inj (Prod.mk.inj h).2
    exact .single houtside
  | signal caught =>
    obtain rfl := Outcome.done.inj (Prod.mk.inj h).2
    exact .single houtside
  | ready revents =>
    exact (Relation.ReflTransGen.single houtside).tail (.polled _ revents) |>.trans
      (pollPass_run fuel _ 0 _ (Prod.mk.inj h).2)

/-- Whether an event is a call that may change the vector table. -/
def Event.changesTable : Event → Bool
  | .register .. => true
  | .release .. => true
  | .releaseAll .. => true
  | _ => false

/-- What one event does to the vector table. -/
inductive TableEvent : Event → VectorTable → VectorTable → Prop where
  | register {sd ret : ℤ} {request : V120irqdSelector} {table table' : VectorTable}
      (realloc : Realloc) (h : registerInterrupt realloc sd request table = (ret, table')) :
      TableEvent (.register sd request ret) table table'
  | release {sd ret : ℤ} {request : V120irqdSelector} {table table' : VectorTable}
      (h : releaseInterrupt sd request table = (ret, table')) :
      TableEvent (.release sd request ret) table table'
  | releaseAll (sd : ℤ) (table : VectorTable) :
      TableEvent (.releaseAll sd) table (releaseAllInterrupts sd table).2
  | other {e : Event} (table : VectorTable) (h : e.changesTable = false) : TableEvent e table table

/-- Events that are no table calls leave the table alone. -/
theorem run_other (table : VectorTable) (es : List Event)
    (h : ∀ e ∈ es, e.changesTable = false) : Run TableEvent es table table := by
  induction es with
  | nil => exact .nil table
  | cons e es ih =>
    exact .cons (.other table (h e List.mem_cons_self)) (ih fun e he => h e (List.mem_cons_of_mem _ he))

/-- Whether an event opens or closes a client connection. -/
def Event.changesClients : Event → Bool
  | .accept _ => true
  | .close _ => true
  | _ => false

/-- Events that touch neither the vector table nor the connections. -/
def Quiet (es : List Event) : Prop :=
  ∀ e ∈ es, e.changesTable = false ∧ e.changesClients = false

/-- One more quiet event. -/
theorem Quiet.cons {e : Event} {es : List Event} (htable : e.changesTable = false)
    (hclients : e.changesClients = false) (h : Quiet es) : Quiet (e :: es) :=
  List.forall_mem_cons.mpr ⟨⟨htable, hclients⟩, h⟩

/-- Quiet events one after the other. -/
theorem Quiet.append {es es' : List Event} (h : Quiet es) (h' : Quiet es') : Quiet (es ++ es') :=
  List.forall_mem_append.mpr ⟨h, h'⟩

/-- Notifications are quiet. -/
theorem Notified.quiet {table : VectorTable} {sel : V120irqdSelector} {err : ℤ} {es : List Event}
    (h : Notified table sel err es) : Quiet es := by
  cases h <;> simp [Quiet, Event.changesTable, Event.changesClients]

/-- Serving interrupts is quiet. -/
theorem Services.quiet {table : VectorTable} {idx : ℕ} {n : Fin 16} {es : List Event}
    (h : Services table idx n es) : Quiet es := by
  induction h with
  | stopped => simp [Quiet]
  | nothing status => simp [Quiet, Event.changesTable, Event.changesClients]
  | @service irq vector payload err es last rest status hline hnotify hlast hrest ih =>
    have hreading : Quiet last := by
      rcases hlast with rfl | ⟨again, rfl⟩
      · exact fun _ h => absurd h (by simp)
      · exact .cons rfl rfl fun _ h => absurd h (by simp)
    exact .cons rfl rfl (.cons rfl rfl ((hnotify.quiet.append hreading).append ih))

/-- A handled message acts on the table as its events say, and on no connection. -/
theorem Replied.table {sock : ℤ} {sel : V120irqdSelector} {fake : Bool} {table table' : VectorTable}
    {msg : MessageSelect} {es : List Event} (h : Replied sock sel fake table msg table' es) :
    Run TableEvent es table table' ∧ ∀ e ∈ es, e.changesClients = false := by
  cases h with
  | request realloc hregister hmsg =>
    exact ⟨.cons (.register realloc hregister) (.single (.other _ rfl)),
      by simp [Event.changesClients]⟩
  | release hrelease hmsg =>
    exact ⟨.cons (.release hrelease) (.single (.other _ rfl)), by simp [Event.changesClients]⟩
  | fakeNotified hfake hmsg hnotify =>
    refine ⟨.cons (.other _ rfl) (run_other _ _ fun e he => (hnotify.quiet e he).1), ?_⟩
    rintro e he
    rcases List.mem_cons.mp he with rfl | he
    · rfl
    · exact (hnotify.quiet e he).2
  | fakeUnanswered errno hfake hmsg =>
    exact ⟨.single (.other _ rfl), by simp [Event.changesClients]⟩
  | fakeRefused hfake hmsg => exact ⟨.single (.other _ rfl), by simp [Event.changesClients]⟩
  | status hmsg => exact ⟨.single (.other _ rfl), by simp [Event.changesClients]⟩
  | ignored hmsg => exact ⟨.nil _, by simp⟩

/-- The events of a handler say what it does to the vector table. -/
theorem Serviced.table {w w' : World σ} {idx : ℕ} (h : Serviced sys w idx w') :
    ∃ es, w'.trace = w.trace ++ es ∧
      Run TableEvent es w.daemon.vectorTable w'.daemon.vectorTable := by
  cases h with
  | vme info received es irqen hinfo hservices hdaemon htrace =>
    refine ⟨_, htrace, ?_⟩
    rw [hdaemon]
    exact .cons (.other _ rfl) (.cons (.other _ rfl)
      (run_other _ es fun e he => (hservices.quiet e he).1))
  | newclient hidx hserved =>
    cases hserved with
    | refused heffect => exact ⟨_, heffect.trace, heffect.table ▸ .single (.other _ rfl)⟩
    | added client stale heffect =>
      exact ⟨_, heffect.trace, heffect.table ▸ .cons (.other _ rfl) (.single (.other _ rfl))⟩
    | dropped client s hrealloc heffect =>
      exact ⟨_, heffect.trace, heffect.table ▸
        .cons (.other _ rfl) (.cons (.other _ rfl) (.single (.other _ rfl)))⟩
  | client hidx hserved =>
    cases hserved with
    | unread received hlen heffect =>
      exact ⟨_, heffect.trace, heffect.table ▸ .cons (.other _ rfl) (.single (.other _ rfl))⟩
    | hungUp received beyond l hlen hremove heffect =>
      exact ⟨_, heffect.trace, heffect.table ▸ .cons (.other _ rfl) (.cons (.other _ rfl)
        (.cons (.releaseAll _ _) (.single (.other _ rfl))))⟩
    | replied received stale table es hlen hreplied heffect =>
      exact ⟨_, heffect.trace, heffect.table ▸
        .cons (.other _ rfl) (.cons (.other _ rfl) hreplied.table.1)⟩

/-- The trace of a run says what it did to the vector table. -/
theorem DaemonRun.table {w w' : World σ} (h : DaemonRun sys w w') :
    ∃ es, w'.trace = w.trace ++ es ∧
      Run TableEvent es w.daemon.vectorTable w'.daemon.vectorTable := by
  induction h with
  | refl => exact ⟨[], (List.append_nil _).symm, .nil _⟩
  | tail _ hstep ih =>
    obtain ⟨es, htrace, htable⟩ := ih
    cases hstep with
    | outside s => exact ⟨es, htrace, htable⟩
    | polled revents => exact ⟨es, htrace, htable⟩
    | serviced fuel idx hidx hrun =>
      obtain ⟨more, hmore, hnext⟩ := (serviceFd_spec hrun).table
      exact ⟨es ++ more, by rw [hmore, htrace, List.append_assoc], htable.append hnext⟩

/-- What one event does to the list of registrations. -/
inductive Recorded : Event → Registry → Registry → Prop where
  | registered {r r' : Registry} {sd : ℤ} {request : V120irqdSelector} (hlegal : Legal sd request)
      (hfree : r.lookup request = none)
      (hentries : r'.entries = r.entries ++ [.ofRequest sd request hlegal]) :
      Recorded (.register sd request 0) r r'
  | refused {r : Registry} {sd ret : ℤ} {request : V120irqdSelector} (hret : ret < 0) :
      Recorded (.register sd request ret) r r
  | released {r r' : Registry} {sd : ℤ} {request : V120irqdSelector}
      (hfound : ∃ reg ∈ r.entries, reg.owner = sd ∧ SameKey reg.selector request)
      (hentries : r'.entries = r.entries.filter fun reg =>
        !(decide (reg.owner = sd) && decide (SameKey reg.selector request))) :
      Recorded (.release sd request 0) r r'
  | kept {r : Registry} {sd ret : ℤ} {request : V120irqdSelector} (hret : ret < 0) :
      Recorded (.release sd request ret) r r
  | dropped (sd : ℤ) (r : Registry) : Recorded (.releaseAll sd) r (r.releaseAll sd)
  | other {e : Event} (r : Registry) (h : e.changesTable = false) : Recorded e r r

/-- What an event does to a stored registry. -/
theorem TableEvent.recorded {e : Event} {r : Registry} {table : VectorTable}
    (h : TableEvent e r.layout table) : ∃ r', table = r'.layout ∧ Recorded e r r' := by
  cases h with
  | @register sd ret request table table' realloc h =>
    rw [r.registerInterrupt_layout, Prod.mk.injEq] at h
    obtain ⟨rfl, rfl⟩ := h
    refine ⟨_, rfl, ?_⟩
    rcases Registry.register_cases realloc sd request r with ⟨hret, hsame⟩ | ⟨hlegal, hret, hfree, hentries⟩
    · rw [hsame]
      exact .refused hret
    · rw [hret]
      exact .registered hlegal hfree hentries
  | @release sd ret request table table' h =>
    rw [r.releaseInterrupt_layout, Prod.mk.injEq] at h
    obtain ⟨rfl, rfl⟩ := h
    refine ⟨_, rfl, ?_⟩
    rcases Registry.release_cases sd request r with ⟨hret, hsame⟩ | ⟨hret, hfound, hentries⟩
    · rw [hsame]
      exact .kept hret
    · rw [hret]
      exact .released hfound hentries
  | releaseAll sd table => exact ⟨r.releaseAll sd, by rw [r.releaseAllInterrupts_layout], .dropped sd r⟩
  | other table h => exact ⟨r, rfl, .other r h⟩

/-- What a sequence of events does to a stored registry. -/
theorem run_recorded {es : List Event} {r : Registry} {table : VectorTable}
    (h : Run TableEvent es r.layout table) : ∃ r', table = r'.layout ∧ Run Recorded es r r' := by
  generalize hstart : r.layout = start at h
  induction h generalizing r with
  | nil => exact ⟨r, hstart.symm, .nil r⟩
  | cons head _ ih =>
    subst hstart
    obtain ⟨r₁, htable, hrecorded⟩ := head.recorded
    obtain ⟨r₂, hlast, hrun⟩ := ih htable.symm
    exact ⟨r₂, hlast, .cons hrecorded hrun⟩

end V120.Irqd
