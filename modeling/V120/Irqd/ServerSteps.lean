import V120.Irqd.DaemonRuns

/-!
# The daemon as a server

Between two events the daemon is at one of a few points, and the point says what it can do next
with which client. The trace of every run of the daemon leads from point to point in this way,
so whatever holds of all such sequences of events holds of the code.
-/

namespace V120.Irqd

open V120.Common

/-- Where the daemon is between two events: ready to serve an endpoint or a client, or about to
make one particular call. -/
inductive ServerPoint where
  | ready
  | entering (fd : ℤ)
  | receiving (sock : ℤ)
  | dropping (sock : ℤ)
  | requesting (sock : ℤ) (sel : V120irqdSelector)
  | releasing (sock : ℤ) (sel : V120irqdSelector)
  | answering (sock : ℤ) (msg : MessageSelect)
  | signalling (sock : ℤ) (sel : V120irqdSelector)
  | awaiting (sock : ℤ)

/-- Where the `switch` of `process_client` leads. -/
def ServerPoint.ofMessage (fake : Bool) (sock : ℤ) (msg : MessageSelect) (sel : V120irqdSelector) :
    ServerPoint :=
  match msg with
  | .requestIrq => .requesting sock sel
  | .releaseIrq => .releasing sock sel
  | .irqSignal => .answering sock (if fake then .ack else .nak)
  | .serverStatus => .answering sock .serverStatus
  | _ => .ready

/-- Events between services that neither read from a client nor write to one. -/
def Event.isInternal : Event → Bool
  | .irqstatus .. => true
  | .iackVector .. => true
  | .processNewclient .. => true
  | .accept .. => true
  | .close .. => true
  | _ => false

/-- One event of the daemon, at its point and with its vector table. -/
inductive ServerStep (fake : Bool) :
    Event → ServerPoint × VectorTable → ServerPoint × VectorTable → Prop where
  | internal {e : Event} {table : VectorTable} (h : e.isInternal = true) :
      ServerStep fake e (.ready, table) (.ready, table)
  | processVme (fd : ℤ) (table : VectorTable) :
      ServerStep fake (.processVme fd) (.ready, table) (.entering fd, table)
  | entered (fd : ℤ) (received : Received) (table : VectorTable) :
      ServerStep fake (.read fd received) (.entering fd, table) (.ready, table)
  | processClient (sock : ℤ) (table : VectorTable) :
      ServerStep fake (.processClient sock) (.ready, table) (.receiving sock, table)
  | unread {sock : ℤ} {received : Received} {table : VectorTable} (hlen : received.len < 0) :
      ServerStep fake (.read sock received) (.receiving sock, table) (.ready, table)
  | hungUp {sock : ℤ} {received : Received} {table : VectorTable} (hlen : received.len = 0) :
      ServerStep fake (.read sock received) (.receiving sock, table) (.dropping sock, table)
  | message {sock : ℤ} {received : Received} {table : VectorTable} (stale : ResponseBuffer)
      (hlen : 0 < received.len) :
      ServerStep fake (.read sock received) (.receiving sock, table)
        (.ofMessage fake sock (received.fill stale).msg (received.fill stale).selector, table)
  | dropped (sock : ℤ) (table : VectorTable) :
      ServerStep fake (.releaseAll sock) (.dropping sock, table)
        (.ready, (releaseAllInterrupts sock table).2)
  | registered {sock ret : ℤ} {sel : V120irqdSelector} {table table' : VectorTable}
      (realloc : Realloc) (h : registerInterrupt realloc sock sel table = (ret, table')) :
      ServerStep fake (.register sock sel ret) (.requesting sock sel, table)
        (.answering sock (if ret < 0 then .nak else .ack), table')
  | released {sock ret : ℤ} {sel : V120irqdSelector} {table table' : VectorTable}
      (h : releaseInterrupt sock sel table = (ret, table')) :
      ServerStep fake (.release sock sel ret) (.releasing sock sel, table)
        (.answering sock (if ret < 0 then .nak else .ack), table')
  | answered {sock : ℤ} {msg : MessageSelect} {buf : ResponseBuffer} {table : VectorTable}
      (result : Option Errno) (hmsg : buf.msg = msg) :
      ServerStep fake (.write sock buf result) (.answering sock msg, table) (.ready, table)
  | unmatched {sel : V120irqdSelector} {table : VectorTable}
      (hfind : findInterrupt sel table = .error einval) :
      ServerStep fake (.lookup sel) (.ready, table) (.ready, table)
  | matched {sock : ℤ} {sel found : V120irqdSelector} {table : VectorTable}
      (hfind : findInterrupt sel table = .ok (sock, found)) :
      ServerStep fake (.lookup sel) (.ready, table) (.signalling sock found, table)
  | unsent {sock : ℤ} {sel : V120irqdSelector} {buf : ResponseBuffer} {table : VectorTable}
      (errno : Errno) (hmsg : buf.msg = .irqSignal) (hsel : buf.selector = sel) :
      ServerStep fake (.write sock buf (some errno)) (.signalling sock sel, table) (.ready, table)
  | signalled {sock : ℤ} {sel : V120irqdSelector} {buf : ResponseBuffer} {table : VectorTable}
      (hmsg : buf.msg = .irqSignal) (hsel : buf.selector = sel) :
      ServerStep fake (.write sock buf none) (.signalling sock sel, table) (.awaiting sock, table)
  | settled (sock : ℤ) (received : Received) (table : VectorTable) :
      ServerStep fake (.read sock received) (.awaiting sock, table) (.ready, table)

/-- A notification. -/
theorem Notified.serverRun (fake : Bool) {table : VectorTable} {sel : V120irqdSelector} {err : ℤ}
    {es : List Event} (h : Notified table sel err es) :
    Run (ServerStep fake) es (.ready, table) (.ready, table) := by
  cases h with
  | unmatched hfind => exact .single (.unmatched hfind)
  | unsent errno hfind hmsg => exact .cons (.matched hfind) (.single (.unsent errno hmsg rfl))
  | answered received hfind hmsg =>
    exact .cons (.matched hfind) (.cons (.signalled hmsg rfl) (.single (.settled _ received _)))

/-- A search of `process_vme`. -/
theorem Services.serverRun (fake : Bool) {table : VectorTable} {idx : ℕ} {n : Fin 16}
    {es : List Event} (h : Services table idx n es) :
    Run (ServerStep fake) es (.ready, table) (.ready, table) := by
  induction h with
  | stopped => exact .nil _
  | nothing status => exact .single (.internal rfl)
  | @service irq vector payload err es last rest status hline hnotify hlast hrest ih =>
    have hreading : Run (ServerStep fake) last (.ready, table) (.ready, table) := by
      rcases hlast with rfl | ⟨again, rfl⟩
      · exact .nil _
      · exact .single (.internal rfl)
    exact .cons (.internal rfl)
      (.cons (.internal rfl) (((hnotify.serverRun fake).append hreading).append ih))

/-- What `process_client` does with a message. -/
theorem Replied.serverRun {sock : ℤ} {sel : V120irqdSelector} {fake : Bool}
    {table table' : VectorTable} {msg : MessageSelect} {es : List Event}
    (h : Replied sock sel fake table msg table' es) :
    Run (ServerStep fake) es (.ofMessage fake sock msg sel, table) (.ready, table') := by
  cases h with
  | request realloc hregister hmsg =>
    exact .cons (.registered realloc hregister) (.single (.answered _ hmsg))
  | release hrelease hmsg => exact .cons (.released hrelease) (.single (.answered _ hmsg))
  | fakeNotified hfake hmsg hnotify =>
    exact .cons (.answered none (by rw [hfake, hmsg]; rfl)) (hnotify.serverRun fake)
  | fakeUnanswered errno hfake hmsg => exact .single (.answered _ (by rw [hfake, hmsg]; rfl))
  | fakeRefused hfake hmsg => exact .single (.answered _ (by rw [hfake, hmsg]; rfl))
  | status hmsg => exact .single (.answered _ hmsg)
  | ignored hmsg =>
    obtain ⟨hrequest, hrelease, hsignal, hstatus⟩ := hmsg
    cases msg with
    | requestIrq => exact absurd rfl hrequest
    | releaseIrq => exact absurd rfl hrelease
    | irqSignal => exact absurd rfl hsignal
    | serverStatus => exact absurd rfl hstatus
    | nak => exact .nil _
    | ack => exact .nil _
    | other code => exact .nil _

/-- What a handler does. -/
theorem Serviced.serverRun {σ : Type*} {sys : System σ} {w w' : World σ} {idx : ℕ}
    (h : Serviced sys w idx w') :
    w'.daemon.allowFakeIrq = w.daemon.allowFakeIrq ∧
      ∃ es, w'.trace = w.trace ++ es ∧ Run (ServerStep w.daemon.allowFakeIrq) es
        (.ready, w.daemon.vectorTable) (.ready, w'.daemon.vectorTable) := by
  cases h with
  | vme info received es irqen hinfo hservices hdaemon htrace =>
    rw [hdaemon]
    exact ⟨rfl, _, htrace, .cons (.processVme _ _) (.cons (.entered _ received _)
      (hservices.serverRun _))⟩
  | newclient hidx hserved =>
    cases hserved with
    | refused heffect =>
      exact ⟨heffect.allowFakeIrq, _, heffect.trace, heffect.table ▸ .single (.internal rfl)⟩
    | added client stale heffect =>
      exact ⟨heffect.allowFakeIrq, _, heffect.trace,
        heffect.table ▸ .cons (.internal rfl) (.single (.internal rfl))⟩
    | dropped client s hrealloc heffect =>
      exact ⟨heffect.allowFakeIrq, _, heffect.trace, heffect.table ▸
        .cons (.internal rfl) (.cons (.internal rfl) (.single (.internal rfl)))⟩
  | client hidx hserved =>
    cases hserved with
    | unread received hlen heffect =>
      exact ⟨heffect.allowFakeIrq, _, heffect.trace,
        heffect.table ▸ .cons (.processClient _ _) (.single (.unread hlen))⟩
    | hungUp received beyond l hlen hremove heffect =>
      exact ⟨heffect.allowFakeIrq, _, heffect.trace, heffect.table ▸ .cons (.processClient _ _)
        (.cons (.hungUp hlen) (.cons (.dropped _ _) (.single (.internal rfl))))⟩
    | replied received stale table es hlen hreplied heffect =>
      exact ⟨heffect.allowFakeIrq, _, heffect.trace, heffect.table ▸
        .cons (.processClient _ _) (.cons (.message stale hlen) hreplied.serverRun)⟩

/-- The trace of a run of the daemon leads from point to point. -/
theorem DaemonRun.serverRun {σ : Type*} {sys : System σ} {w w' : World σ} (h : DaemonRun sys w w') :
    w'.daemon.allowFakeIrq = w.daemon.allowFakeIrq ∧
      ∃ es, w'.trace = w.trace ++ es ∧ Run (ServerStep w.daemon.allowFakeIrq) es
        (.ready, w.daemon.vectorTable) (.ready, w'.daemon.vectorTable) := by
  induction h with
  | refl => exact ⟨rfl, [], (List.append_nil _).symm, .nil _⟩
  | tail _ hstep ih =>
    obtain ⟨hfake, es, htrace, hrun⟩ := ih
    cases hstep with
    | outside s => exact ⟨hfake, es, htrace, hrun⟩
    | polled revents => exact ⟨hfake, es, htrace, hrun⟩
    | serviced fuel idx hidx hserved =>
      obtain ⟨hfake', more, hmore, hnext⟩ := (serviceFd_spec hserved).serverRun
      rw [hfake] at hnext
      exact ⟨hfake'.trans hfake, es ++ more, by rw [hmore, htrace, List.append_assoc],
        hrun.append hnext⟩

end V120.Irqd
