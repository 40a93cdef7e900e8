import V120.Irqd.ClientCalls
import V120.Irqd.ServerSteps
import Mathlib.Logic.Function.Basic

/-!
# The daemon and its clients

Any number of clients and one daemon, with two queues between the daemon and each client that lose
and reorder nothing. The daemon makes the steps its code makes, clients call the library one call
at a time, and a client answers every interrupt it fetched once before its next call. Each message
carries the number of the call or of the signal it belongs to; the numbers and the histories are
bookkeeping, and no step depends on them.
-/

namespace V120.Irqd

open V120.Common

/-- A message on its way, and the number of the call or of the signal it belongs to. -/
structure Message where
  buf : ResponseBuffer
  number : ℕ

/-- What a client is doing: nothing, owing the answer to a signal it fetched, or waiting for a
message in a call. -/
inductive Phase where
  | idle
  | owing (signal : ℕ)
  | busy (call : Call) (stale : ResponseBuffer)

/-- A table call the daemon made for a client: for which call of the client, and the table before
and after. -/
structure TableCall where
  number : ℕ
  before : VectorTable
  after : VectorTable

/-- A client and its two queues. The number of its calls so far, the table calls made for it, and
which of its `REQUEST_IRQ` and `RELEASE_IRQ` messages were sent and which were answered are kept
for the record. -/
structure Client where
  phase : Phase
  toServer : List Message
  toClient : List Message
  calls : ℕ
  served : List TableCall
  asked : List ℕ
  answered : List ℕ

/-- The daemon, its clients by their descriptors, and for the record the message `process_client`
read last and the number of signals sent so far. -/
structure Net where
  point : ServerPoint
  table : VectorTable
  client : ℤ → Client
  reading : Message
  signals : ℕ

/-- A client that has not called yet. -/
def Client.start : Client := ⟨.idle, [], [], 0, [], [], []⟩

/-- A daemon that is ready, with clients that have not called yet. -/
def Net.start (table : VectorTable) : Net := ⟨.ready, table, fun _ => .start, ⟨⟨0⟩, 0⟩, 0⟩

/-- The clients after a change of one. -/
def Net.update (n : Net) (c : ℤ) (f : Client → Client) : ℤ → Client :=
  Function.update n.client c (f (n.client c))

/-- Whether a message asks for a change of the vector table. -/
def ResponseBuffer.asks (buf : ResponseBuffer) : Bool :=
  buf.msg == .requestIrq || buf.msg == .releaseIrq

/-- A call starts: it sends its message and waits. -/
def Client.call (call : Call) (stale : ResponseBuffer) (k : Client) : Client :=
  { k with
    phase := .busy call stale
    calls := k.calls + 1
    toServer := k.toServer ++ (call.sends stale).map fun buf => ⟨buf, k.calls + 1⟩
    asked := k.asked ++ ((call.sends stale).filter ResponseBuffer.asks).map fun _ => k.calls + 1 }

/-- A call returns: an interrupt that was fetched has to be answered next. -/
def Client.finish (call : Call) (code : ℤ) (m : Message) (rest : List Message) (k : Client) : Client :=
  { k with
    toClient := rest
    phase := if call = .getinterrupt ∧ code = 0 then .owing m.number else .idle }

/-- The answer to a signal is sent. -/
def Client.answer (answer : Answer) (stale : ResponseBuffer) (signal : ℕ) (k : Client) : Client :=
  { k with
    phase := .idle
    toServer := k.toServer ++ (answer.sends stale).map fun buf => ⟨buf, signal⟩ }

/-- What happens in the network: an event of the daemon, or a client starts a call, returns from
it with a code, or answers an interrupt. -/
inductive NetLabel where
  | server (e : Event)
  | call (c : ℤ) (call : Call)
  | finish (c : ℤ) (call : Call) (code : ℤ)
  | answer (c : ℤ)

/-- One step. The daemon waits where it reads from a client that has sent nothing, and so does a
client in a call. -/
inductive NetStep (fake : Bool) : NetLabel → Net → Net → Prop where
  | inside {n : Net} {e : Event} {point : ServerPoint} {table : VectorTable}
      (hpoint : n.point = .ready ∨ ∃ fd, n.point = .entering fd)
      (hstep : ServerStep fake e (n.point, n.table) (point, table)) :
      NetStep fake (.server e) n { n with point := point, table := table }
  | tabled {n : Net} {e : Event} {c : ℤ} {sel : V120irqdSelector} {point : ServerPoint}
      {table : VectorTable} (hpoint : n.point = .requesting c sel ∨ n.point = .releasing c sel)
      (hstep : ServerStep fake e (n.point, n.table) (point, table)) :
      NetStep fake (.server e) n
        { n with
          point := point
          table := table
          client := n.update c fun k =>
            { k with served := k.served ++ [⟨n.reading.number, n.table, table⟩] } }
  | received {n : Net} {c : ℤ} {m : Message} {rest : List Message} {point : ServerPoint}
      (hpoint : n.point = .receiving c) (hqueue : (n.client c).toServer = m :: rest)
      (hstep : ServerStep fake (.read c (.message m.buf)) (n.point, n.table) (point, n.table)) :
      NetStep fake (.server (.read c (.message m.buf))) n
        { n with
          point := point
          client := n.update c fun k => { k with toServer := rest }
          reading := m }
  | answered {n : Net} {c : ℤ} {msg : MessageSelect} {buf : ResponseBuffer} {point : ServerPoint}
      (hpoint : n.point = .answering c msg)
      (hstep : ServerStep fake (.write c buf none) (n.point, n.table) (point, n.table)) :
      NetStep fake (.server (.write c buf none)) n
        { n with
          point := point
          client := n.update c fun k =>
            { k with
              toClient := k.toClient ++ [⟨buf, n.reading.number⟩]
              answered := k.answered ++ if n.reading.buf.asks then [n.reading.number] else [] } }
  | signalled {n : Net} {c : ℤ} {sel : V120irqdSelector} {buf : ResponseBuffer} {point : ServerPoint}
      (hpoint : n.point = .signalling c sel)
      (hstep : ServerStep fake (.write c buf none) (n.point, n.table) (point, n.table)) :
      NetStep fake (.server (.write c buf none)) n
        { n with
          point := point
          client := n.update c fun k => { k with toClient := k.toClient ++ [⟨buf, n.signals + 1⟩] }
          signals := n.signals + 1 }
  | settled {n : Net} {c : ℤ} {m : Message} {rest : List Message} {point : ServerPoint}
      (hpoint : n.point = .awaiting c) (hqueue : (n.client c).toServer = m :: rest)
      (hstep : ServerStep fake (.read c (.message m.buf)) (n.point, n.table) (point, n.table)) :
      NetStep fake (.server (.read c (.message m.buf))) n
        { n with
          point := point
          client := n.update c fun k => { k with toServer := rest } }
  | call {n : Net} {c : ℤ} (call : Call) (stale : ResponseBuffer)
      (hphase : (n.client c).phase = .idle) :
      NetStep fake (.call c call) n { n with client := n.update c (Client.call call stale) }
  | finish {n : Net} {c : ℤ} {call : Call} {stale : ResponseBuffer} {m : Message}
      {rest : List Message} (hphase : (n.client c).phase = .busy call stale)
      (hqueue : (n.client c).toClient = m :: rest) :
      NetStep fake (.finish c call (call.returns stale m.buf)) n
        { n with client := n.update c (Client.finish call (call.returns stale m.buf) m rest) }
  | answer {n : Net} {c : ℤ} {signal : ℕ} (answer : Answer) (stale : ResponseBuffer)
      (hphase : (n.client c).phase = .owing signal) :
      NetStep fake (.answer c) n { n with client := n.update c (Client.answer answer stale signal) }

/-- Whether a call asks for a change of the vector table. -/
def Call.asks : Call → Bool
  | .request _ => true
  | .release _ => true
  | _ => false

/-- No signal crosses a request or release of a client: none is sent while the client has an unread
one, and the client makes none while it has an unread signal. -/
def Net.Uncrossed (n : Net) (c : ℤ) : NetLabel → Prop
  | .server (.write d buf none) =>
    d = c → buf.msg = .irqSignal → ∀ m ∈ (n.client c).toServer, m.buf.asks = false
  | .call d call => d = c → call.asks = true → ∀ m ∈ (n.client c).toClient, m.buf.msg ≠ .irqSignal
  | _ => True

/-- A step in which nothing crosses a request or release of a client. -/
def UncrossedStep (fake : Bool) (c : ℤ) (l : NetLabel) (n n' : Net) : Prop :=
  NetStep fake l n n' ∧ n.Uncrossed c l

/-- What the daemon is doing for one client: nothing, serving a message of the client, or waiting for
the answer to the signal of a number. -/
inductive Stage where
  | away
  | serving (m : Message)
  | awaiting (signal : ℕ)

/-- What the daemon is doing for a client. -/
def Net.stage (n : Net) (c : ℤ) : Stage :=
  match n.point with
  | .requesting sock _ => if sock = c then .serving n.reading else .away
  | .releasing sock _ => if sock = c then .serving n.reading else .away
  | .answering sock _ => if sock = c then .serving n.reading else .away
  | .awaiting sock => if sock = c then .awaiting n.signals else .away
  | _ => .away

/-- The part of the network that concerns one client. -/
structure View where
  stage : Stage
  phase : Phase
  calls : ℕ
  toServer : List Message
  toClient : List Message

/-- A client's view of the network. -/
def Net.view (n : Net) (c : ℤ) : View :=
  ⟨n.stage c, (n.client c).phase, (n.client c).calls, (n.client c).toServer, (n.client c).toClient⟩

/-- Whether `process_client` serves messages of a type. -/
def MessageSelect.isServed : MessageSelect → Bool
  | .requestIrq => true
  | .releaseIrq => true
  | .irqSignal => true
  | .serverStatus => true
  | _ => false

/-- What can happen to one client. -/
inductive ClientStep : View → View → Prop where
  | call {stage : Stage} {calls : ℕ} {toServer toClient : List Message} (call : Call)
      (stale : ResponseBuffer) :
      ClientStep ⟨stage, .idle, calls, toServer, toClient⟩
        ⟨stage, .busy call stale, calls + 1,
          toServer ++ (call.sends stale).map fun buf => ⟨buf, calls + 1⟩, toClient⟩
  | finish {stage : Stage} {calls : ℕ} {toServer toClient : List Message} {call : Call}
      {stale : ResponseBuffer} (m : Message) :
      ClientStep ⟨stage, .busy call stale, calls, toServer, m :: toClient⟩
        ⟨stage, if call = .getinterrupt ∧ call.returns stale m.buf = 0 then .owing m.number else .idle,
          calls, toServer, toClient⟩
  | answer {stage : Stage} {signal calls : ℕ} {toServer toClient : List Message} (answer : Answer)
      (stale : ResponseBuffer) :
      ClientStep ⟨stage, .owing signal, calls, toServer, toClient⟩
        ⟨stage, .idle, calls, toServer ++ (answer.sends stale).map fun buf => ⟨buf, signal⟩, toClient⟩
  | taken {phase : Phase} {calls : ℕ} {toServer toClient : List Message} (m : Message) :
      ClientStep ⟨.away, phase, calls, m :: toServer, toClient⟩
        ⟨if m.buf.msg.isServed then .serving m else .away, phase, calls, toServer, toClient⟩
  | given {m : Message} {phase : Phase} {calls : ℕ} {toServer toClient : List Message}
      (buf : ResponseBuffer) :
      ClientStep ⟨.serving m, phase, calls, toServer, toClient⟩
        ⟨.away, phase, calls, toServer, toClient ++ [⟨buf, m.number⟩]⟩
  | signalled {phase : Phase} {signal calls : ℕ} {toServer toClient : List Message}
      {buf : ResponseBuffer} (hmsg : buf.msg = .irqSignal) :
      ClientStep ⟨.away, phase, calls, toServer, toClient⟩
        ⟨.awaiting signal, phase, calls, toServer, toClient ++ [⟨buf, signal⟩]⟩
  | settled {signal calls : ℕ} {phase : Phase} {toServer toClient : List Message} (m : Message) :
      ClientStep ⟨.awaiting signal, phase, calls, m :: toServer, toClient⟩
        ⟨.away, phase, calls, toServer, toClient⟩

/-- The client that is changed. -/
@[simp] theorem Net.update_self (n : Net) (c : ℤ) (f : Client → Client) :
    n.update c f c = f (n.client c) :=
  Function.update_self _ _ _

/-- Every other client is left alone. -/
theorem Net.update_of_ne (n : Net) {c d : ℤ} (h : d ≠ c) (f : Client → Client) :
    n.update c f d = n.client d :=
  Function.update_of_ne h _ _

/-- While the daemon is ready it is busy with no client, and leaves the table alone. -/
theorem ServerStep.inside {fake : Bool} {e : Event} {point point' : ServerPoint}
    {table table' : VectorTable} (h : ServerStep fake e (point, table) (point', table'))
    (hpoint : point = .ready ∨ ∃ fd, point = .entering fd) :
    table' = table ∧ (point' = .ready ∨ (∃ fd, point' = .entering fd) ∨
      (∃ sock, point' = .receiving sock) ∨ ∃ sock sel, point' = .signalling sock sel) := by
  rcases hpoint with rfl | ⟨fd, rfl⟩ <;> cases h <;> simp

/-- The daemon reads a complete message. -/
theorem ServerStep.receive (fake : Bool) (c : ℤ) (buf : ResponseBuffer) (table : VectorTable) :
    ServerStep fake (.read c (.message buf)) (.receiving c, table)
      (.ofMessage fake c buf.msg buf.selector, table) := by
  have hlen : 0 < (Received.message buf).len := by
    rw [Received.len_message]
    decide
  have hfill : (Received.message buf).fill buf = buf := Received.fill_message buf buf
  have hstep : ServerStep fake (.read c (.message buf)) (.receiving c, table)
      (.ofMessage fake c ((Received.message buf).fill buf).msg
        ((Received.message buf).fill buf).selector, table) := .message buf hlen
  rwa [hfill] at hstep

/-- A complete message is served by its type. -/
theorem ServerStep.received {fake : Bool} {c : ℤ} {buf : ResponseBuffer} {point : ServerPoint}
    {table table' : VectorTable}
    (h : ServerStep fake (.read c (.message buf)) (.receiving c, table) (point, table')) :
    point = .ofMessage fake c buf.msg buf.selector := by
  have hcount : (Received.message buf).len = 20 := rfl
  cases h with
  | unread hlen => omega
  | hungUp hlen => omega
  | message stale hlen =>
    rw [Received.fill_message]

/-- An answer that is sent. -/
theorem ServerStep.answered_inv {fake : Bool} {c : ℤ} {msg : MessageSelect} {buf : ResponseBuffer}
    {point : ServerPoint} {table table' : VectorTable}
    (h : ServerStep fake (.write c buf none) (.answering c msg, table) (point, table')) :
    point = .ready ∧ buf.msg = msg := by
  cases h with
  | answered result hmsg => exact ⟨rfl, hmsg⟩

/-- A signal that is sent. -/
theorem ServerStep.signalled_inv {fake : Bool} {c : ℤ} {sel : V120irqdSelector} {buf : ResponseBuffer}
    {point : ServerPoint} {table table' : VectorTable}
    (h : ServerStep fake (.write c buf none) (.signalling c sel, table) (point, table')) :
    point = .awaiting c ∧ buf.msg = .irqSignal := by
  cases h with
  | signalled hmsg hsel => exact ⟨rfl, hmsg⟩

/-- An answer to a signal that is read. -/
theorem ServerStep.settled_inv {fake : Bool} {c : ℤ} {received : Received} {point : ServerPoint}
    {table table' : VectorTable}
    (h : ServerStep fake (.read c received) (.awaiting c, table) (point, table')) : point = .ready := by
  cases h with
  | settled => rfl

/-- A table call for a client. -/
theorem ServerStep.tabled {fake : Bool} {e : Event} {c : ℤ} {sel : V120irqdSelector}
    {point point' : ServerPoint} {table table' : VectorTable}
    (h : ServerStep fake e (point, table) (point', table'))
    (hpoint : point = .requesting c sel ∨ point = .releasing c sel) :
    TableEvent e table table' ∧ ∃ ret, point' = .answering c (if ret < 0 then .nak else .ack) ∧
      ((point = .requesting c sel ∧ e = .register c sel ret) ∨
        (point = .releasing c sel ∧ e = .release c sel ret)) := by
  rcases hpoint with rfl | rfl
  · cases h with
    | registered realloc hregister =>
      exact ⟨.register realloc hregister, _, rfl, Or.inl ⟨rfl, rfl⟩⟩
  · cases h with
    | released hrelease => exact ⟨.release hrelease, _, rfl, Or.inr ⟨rfl, rfl⟩⟩

/-- The queues carry an event of the daemon: a client stays connected, what the daemon reads from it is
its next message, and what the daemon writes to it arrives. -/
def Net.Carries (n : Net) : Event → Prop
  | .read sock received => (∃ fd, n.point = .entering fd) ∨
      ∃ m rest, (n.client sock).toServer = m :: rest ∧ received = .message m.buf
  | .write _ _ result => result = none
  | _ => True

/-- Whatever the daemon does next, as long as the queues carry it, is a step of the network. -/
theorem ServerStep.carried {fake : Bool} {e : Event} {n : Net} {point : ServerPoint}
    {table : VectorTable} (h : ServerStep fake e (n.point, n.table) (point, table))
    (hconnected : ∀ sock, n.point ≠ .dropping sock) (hcarries : n.Carries e)
    (hnext : ∀ sock, point ≠ .dropping sock) :
    ∃ n', NetStep fake (.server e) n n' ∧ n'.point = point ∧ n'.table = table := by
  have hinside (hpoint : n.point = .ready ∨ ∃ fd, n.point = .entering fd) :
      ∃ n', NetStep fake (.server e) n n' ∧ n'.point = point ∧ n'.table = table :=
    ⟨_, .inside hpoint h, rfl, rfl⟩
  have hread {sock : ℤ} {received : Received} (hcarried : n.Carries (.read sock received))
      (hpoint : ∀ fd, n.point ≠ .entering fd) :
      ∃ m rest, (n.client sock).toServer = m :: rest ∧ received = .message m.buf := by
    rcases hcarried with ⟨fd, hentering⟩ | hnext
    · exact absurd hentering (hpoint fd)
    · exact hnext
  cases hpoint : n.point with
  | ready => exact hinside (Or.inl hpoint)
  | entering fd => exact hinside (Or.inr ⟨fd, hpoint⟩)
  | dropping sock => exact absurd hpoint (hconnected sock)
  | receiving sock =>
    rw [hpoint] at h
    cases h with
    | unread hlen =>
      obtain ⟨m, rest, -, rfl⟩ := hread hcarries (by simp [hpoint])
      exact absurd hlen (by simp)
    | hungUp hlen => exact absurd rfl (hnext sock)
    | message stale hlen =>
      obtain ⟨m, rest, hqueue, rfl⟩ := hread hcarries (by simp [hpoint])
      have hstep := ServerStep.receive fake sock m.buf n.table
      rw [← hpoint] at hstep
      refine ⟨_, .received hpoint hqueue hstep, ?_, rfl⟩
      rw [Received.fill_message]
  | requesting sock sel => exact ⟨_, .tabled (Or.inl hpoint) h, rfl, rfl⟩
  | releasing sock sel => exact ⟨_, .tabled (Or.inr hpoint) h, rfl, rfl⟩
  | answering sock msg =>
    have h' := h
    rw [hpoint] at h'
    cases h' with
    | answered result hmsg =>
      obtain rfl : result = none := hcarries
      exact ⟨_, .answered hpoint h, rfl, rfl⟩
  | signalling sock sel =>
    have h' := h
    rw [hpoint] at h'
    cases h' with
    | unsent errno hmsg hsel => exact absurd hcarries (by simp [Net.Carries])
    | signalled hmsg hsel => exact ⟨_, .signalled hpoint h, rfl, rfl⟩
  | awaiting sock =>
    have h' := h
    rw [hpoint] at h'
    cases h' with
    | settled =>
      obtain ⟨m, rest, hqueue, rfl⟩ := hread hcarries (by simp [hpoint])
      exact ⟨_, .settled hpoint hqueue h, rfl, rfl⟩

/-- The daemon serves a client's message, or nothing comes of it. -/
theorem stage_ofMessage {n : Net} {fake : Bool} {c : ℤ} {msg : MessageSelect} {sel : V120irqdSelector}
    (hpoint : n.point = .ofMessage fake c msg sel) :
    n.stage c = (if msg.isServed then .serving n.reading else .away) ∧
      ∀ d, d ≠ c → n.stage d = .away := by
  simp only [Net.stage, hpoint]
  cases msg <;> simp +contextual [ServerPoint.ofMessage, MessageSelect.isServed, Ne.symm, eq_comm]

/-- A step of a client or of the daemon for it, with the daemon's part worked out. -/
inductive OwnStep (fake : Bool) (c : ℤ) (n : Net) : NetLabel → Net → Prop where
  | tabled {e : Event} {sel : V120irqdSelector} {ret : ℤ} {table : VectorTable}
      (hevent : TableEvent e n.table table)
      (hcall : (n.point = .requesting c sel ∧ e = .register c sel ret) ∨
        (n.point = .releasing c sel ∧ e = .release c sel ret)) :
      OwnStep fake c n (.server e)
        { n with
          point := .answering c (if ret < 0 then .nak else .ack)
          table := table
          client := n.update c fun k =>
            { k with served := k.served ++ [⟨n.reading.number, n.table, table⟩] } }
  | received {m : Message} {rest : List Message} (hpoint : n.point = .receiving c)
      (hqueue : (n.client c).toServer = m :: rest) :
      OwnStep fake c n (.server (.read c (.message m.buf)))
        { n with
          point := .ofMessage fake c m.buf.msg m.buf.selector
          client := n.update c fun k => { k with toServer := rest }
          reading := m }
  | answered {msg : MessageSelect} {buf : ResponseBuffer} (hpoint : n.point = .answering c msg)
      (hmsg : buf.msg = msg) :
      OwnStep fake c n (.server (.write c buf none))
        { n with
          point := .ready
          client := n.update c fun k =>
            { k with
              toClient := k.toClient ++ [⟨buf, n.reading.number⟩]
              answered := k.answered ++ if n.reading.buf.asks then [n.reading.number] else [] } }
  | signalled {sel : V120irqdSelector} {buf : ResponseBuffer} (hpoint : n.point = .signalling c sel)
      (hmsg : buf.msg = .irqSignal) :
      OwnStep fake c n (.server (.write c buf none))
        { n with
          point := .awaiting c
          client := n.update c fun k => { k with toClient := k.toClient ++ [⟨buf, n.signals + 1⟩] }
          signals := n.signals + 1 }
  | settled {m : Message} {rest : List Message} (hpoint : n.point = .awaiting c)
      (hqueue : (n.client c).toServer = m :: rest) :
      OwnStep fake c n (.server (.read c (.message m.buf)))
        { n with point := .ready, client := n.update c fun k => { k with toServer := rest } }
  | call (call : Call) (stale : ResponseBuffer) (hphase : (n.client c).phase = .idle) :
      OwnStep fake c n (.call c call) { n with client := n.update c (Client.call call stale) }
  | finish {call : Call} {stale : ResponseBuffer} {m : Message} {rest : List Message}
      (hphase : (n.client c).phase = .busy call stale) (hqueue : (n.client c).toClient = m :: rest) :
      OwnStep fake c n (.finish c call (call.returns stale m.buf))
        { n with client := n.update c (Client.finish call (call.returns stale m.buf) m rest) }
  | answer {signal : ℕ} (answer : Answer) (stale : ResponseBuffer)
      (hphase : (n.client c).phase = .owing signal) :
      OwnStep fake c n (.answer c) { n with client := n.update c (Client.answer answer stale signal) }

/-- A step that leaves a client alone: another client's, during which the daemon stands still, or
the daemon's while it is busy with others. -/
inductive Elsewhere (c : ℤ) (n n' : Net) : Prop where
  | still (hclient : n'.client c = n.client c) (hpoint : n'.point = n.point)
      (htable : n'.table = n.table) (hreading : n'.reading = n.reading)
      (hsignals : n'.signals = n.signals)
  | away (hclient : n'.client c = n.client c) (hbefore : n.stage c = .away)
      (hafter : n'.stage c = .away) (htable : n'.table = n.table ∨ ∃ e d sel ret, d ≠ c ∧
        TableEvent e n.table n'.table ∧ (e = .register d sel ret ∨ e = .release d sel ret))

/-- Whatever happens, it leaves the client alone. -/
theorem Elsewhere.client {c : ℤ} {n n' : Net} (h : Elsewhere c n n') : n'.client c = n.client c := by
  cases h with
  | still hclient => exact hclient
  | away hclient => exact hclient

/-- A step that changes no client and is none of the daemon's for one. -/
theorem Elsewhere.of_inside {fake : Bool} {e : Event} {n : Net} {point : ServerPoint}
    {table : VectorTable} (hpoint : n.point = .ready ∨ ∃ fd, n.point = .entering fd)
    (hstep : ServerStep fake e (n.point, n.table) (point, table)) (c : ℤ) :
    Elsewhere c n { n with point := point, table := table } := by
  obtain ⟨htable, hnext⟩ := hstep.inside hpoint
  refine .away rfl ?_ ?_ (Or.inl htable)
  · rcases hpoint with h | ⟨fd, h⟩ <;> simp [Net.stage, h]
  · rcases hnext with rfl | ⟨fd, rfl⟩ | ⟨sock, rfl⟩ | ⟨sock, sel, rfl⟩ <;> rfl

/-- Every step is a client's own or leaves it alone. -/
theorem NetStep.own_or_elsewhere {fake : Bool} {l : NetLabel} {n n' : Net}
    (h : NetStep fake l n n') (c : ℤ) : OwnStep fake c n l n' ∨ Elsewhere c n n' := by
  cases h with
  | inside hpoint hstep => exact Or.inr (.of_inside hpoint hstep c)
  | @tabled _ _ d sel point table hpoint hstep =>
    obtain ⟨hevent, ret, rfl, hcall⟩ := hstep.tabled hpoint
    by_cases hd : c = d
    · subst hd
      exact Or.inl (.tabled hevent hcall)
    · have hcalled := hcall.imp And.right And.right
      refine Or.inr (.away (by simp only [n.update_of_ne hd]) ?_ ?_
        (Or.inr ⟨_, d, sel, ret, Ne.symm hd, hevent, hcalled⟩))
      · rcases hpoint with h | h <;> simp [Net.stage, h, Ne.symm hd]
      · simp [Net.stage, Ne.symm hd]
  | @received _ d m rest point hpoint hqueue hstep =>
    rw [hpoint] at hstep
    obtain rfl := hstep.received
    by_cases hd : c = d
    · subst hd
      exact Or.inl (.received hpoint hqueue)
    · refine Or.inr (.away (by simp only [n.update_of_ne hd]) ?_ ((stage_ofMessage rfl).2 c hd)
        (Or.inl rfl))
      simp [Net.stage, hpoint]
  | @answered _ d msg buf point hpoint hstep =>
    rw [hpoint] at hstep
    obtain ⟨rfl, hmsg⟩ := hstep.answered_inv
    by_cases hd : c = d
    · subst hd
      exact Or.inl (.answered hpoint hmsg)
    · refine Or.inr (.away (by simp only [n.update_of_ne hd]) ?_ rfl (Or.inl rfl))
      simp [Net.stage, hpoint, Ne.symm hd]
  | @signalled _ d sel buf point hpoint hstep =>
    rw [hpoint] at hstep
    obtain ⟨rfl, hmsg⟩ := hstep.signalled_inv
    by_cases hd : c = d
    · subst hd
      exact Or.inl (.signalled hpoint hmsg)
    · refine Or.inr (.away (by simp only [n.update_of_ne hd]) ?_ ?_ (Or.inl rfl))
      · simp [Net.stage, hpoint]
      · simp [Net.stage, Ne.symm hd]
  | @settled _ d m rest point hpoint hqueue hstep =>
    rw [hpoint] at hstep
    obtain rfl := hstep.settled_inv
    by_cases hd : c = d
    · subst hd
      exact Or.inl (.settled hpoint hqueue)
    · refine Or.inr (.away (by simp only [n.update_of_ne hd]) ?_ rfl (Or.inl rfl))
      simp [Net.stage, hpoint, Ne.symm hd]
  | @call _ d call stale hphase =>
    by_cases hd : c = d
    · subst hd
      exact Or.inl (.call call stale hphase)
    · exact Or.inr (.still (by simp only [n.update_of_ne hd]) rfl rfl rfl rfl)
  | @finish _ d call stale m rest hphase hqueue =>
    by_cases hd : c = d
    · subst hd
      exact Or.inl (.finish hphase hqueue)
    · exact Or.inr (.still (by simp only [n.update_of_ne hd]) rfl rfl rfl rfl)
  | @answer _ d signal answer stale hphase =>
    by_cases hd : c = d
    · subst hd
      exact Or.inl (.answer answer stale hphase)
    · exact Or.inr (.still (by simp only [n.update_of_ne hd]) rfl rfl rfl rfl)

/-- A step elsewhere does not show in a client's view. -/
theorem Elsewhere.view {c : ℤ} {n n' : Net} (h : Elsewhere c n n') : n'.view c = n.view c := by
  have hstage : n'.stage c = n.stage c := by
    cases h with
    | still hclient hpoint htable hreading hsignals =>
      rw [Net.stage, Net.stage, hpoint, hreading, hsignals]
    | away hclient hbefore hafter => rw [hbefore, hafter]
  rw [Net.view, Net.view, h.client, hstage]

/-- A client's own steps show in its view, all but the table call made for it. -/
theorem OwnStep.view {fake : Bool} {c : ℤ} {l : NetLabel} {n n' : Net}
    (h : OwnStep fake c n l n') : n'.view c = n.view c ∨ ClientStep (n.view c) (n'.view c) := by
  cases h with
  | tabled hevent hcall =>
    refine Or.inl ?_
    rcases hcall with ⟨h, -⟩ | ⟨h, -⟩ <;> simp [Net.view, Net.stage, h]
  | @received m rest hpoint hqueue =>
    have hbefore : n.stage c = .away := by simp [Net.stage, hpoint]
    refine Or.inr ?_
    rw [Net.view, Net.view, hbefore, (stage_ofMessage rfl).1, hqueue]
    simp only [Net.update_self]
    exact .taken m
  | @answered msg buf hpoint hmsg =>
    have hbefore : n.stage c = .serving n.reading := by simp [Net.stage, hpoint]
    refine Or.inr ?_
    rw [Net.view, Net.view, hbefore]
    simp only [Net.update_self]
    exact .given buf
  | signalled hpoint hmsg =>
    have hbefore : n.stage c = .away := by simp [Net.stage, hpoint]
    refine Or.inr ?_
    rw [Net.view, Net.view, hbefore]
    simp only [Net.update_self, Net.stage, if_true]
    exact .signalled hmsg
  | @settled m rest hpoint hqueue =>
    have hbefore : n.stage c = .awaiting n.signals := by simp [Net.stage, hpoint]
    refine Or.inr ?_
    rw [Net.view, Net.view, hbefore, hqueue]
    simp only [Net.update_self]
    exact .settled m
  | call call stale hphase =>
    refine Or.inr ?_
    rw [Net.view, Net.view, hphase]
    simp only [Net.update_self, Client.call]
    exact .call call stale
  | @finish call stale m rest hphase hqueue =>
    refine Or.inr ?_
    rw [Net.view, Net.view, hphase, hqueue]
    simp only [Net.update_self, Client.finish]
    exact .finish m
  | answer answer stale hphase =>
    refine Or.inr ?_
    rw [Net.view, Net.view, hphase]
    simp only [Net.update_self, Client.answer]
    exact .answer answer stale

/-- A step concerns one client at most. -/
theorem NetStep.view {fake : Bool} {l : NetLabel} {n n' : Net} (h : NetStep fake l n n') (d : ℤ) :
    n'.view d = n.view d ∨ ClientStep (n.view d) (n'.view d) := by
  rcases h.own_or_elsewhere d with hown | helsewhere
  · exact hown.view
  · exact Or.inl helsewhere.view

end V120.Irqd
