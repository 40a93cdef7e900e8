import V120.Irqd.Network

/-!
# What can be in a client's queues

Messages say neither which call they belong to nor which signal they answer. That an answer is
still never read by a later call rests on what can be in the queues of a client at all: there are a
few shapes, by what the client and the daemon are doing, and every step leads from one to another.
-/

namespace V120.Irqd

open V120.Common

/-- The client expects no answer: it is idle, or waits for an interrupt. -/
def Phase.IsResting : Phase → Prop
  | .idle => True
  | .busy .getinterrupt _ => True
  | _ => False

/-- A message is the one of a call of some number. -/
structure Message.Calls (m : Message) (call : Call) (number : ℕ) : Prop where
  sent : call.Sends m.buf
  number : m.number = number

/-- A message is a signal of some number. -/
structure Message.Signals (m : Message) (number : ℕ) : Prop where
  msg : m.buf.msg = .irqSignal
  number : m.number = number

/-- A message is an answer. -/
def Message.IsAnswer (m : Message) : Prop := m.buf.msg = .ack ∨ m.buf.msg = .nak

/-- A message that the daemon may read as the answer to a signal: if it is one, it is the answer to
this signal. -/
def Message.Settles (m : Message) (signal : ℕ) : Prop := m.IsAnswer → m.number = signal

/-- The shapes. A call number and a signal number are always the last ones given. -/
inductive Paired : View → Prop where
  | resting {phase : Phase} {calls : ℕ} (hphase : phase.IsResting) :
      Paired ⟨.away, phase, calls, [], []⟩
  | unread {call : Call} {stale : ResponseBuffer} {calls : ℕ} {m : Message} (hm : m.Calls call calls) :
      Paired ⟨.away, .busy call stale, calls, [m], []⟩
  | served {call : Call} {stale : ResponseBuffer} {calls : ℕ} {m : Message} (hm : m.Calls call calls) :
      Paired ⟨.serving m, .busy call stale, calls, [], []⟩
  | replied {call : Call} {stale : ResponseBuffer} {calls : ℕ} {reply : Message}
      (hcall : call ≠ .getinterrupt) (hreply : reply.number = calls) :
      Paired ⟨.away, .busy call stale, calls, [], [reply]⟩
  | missed {call : Call} {stale : ResponseBuffer} {calls signal : ℕ} {s : Message}
      (hcall : call ≠ .getinterrupt) (hs : s.Signals signal) :
      Paired ⟨.away, .busy call stale, calls, [], [s]⟩
  | signalled {phase : Phase} {calls signal : ℕ} {s : Message} (hphase : phase.IsResting)
      (hs : s.Signals signal) : Paired ⟨.awaiting signal, phase, calls, [], [s]⟩
  | settling {phase : Phase} {calls signal : ℕ} {x : Message} (hphase : phase.IsResting)
      (hx : x.Settles signal) : Paired ⟨.awaiting signal, phase, calls, [x], []⟩
  | owing {calls signal : ℕ} : Paired ⟨.awaiting signal, .owing signal, calls, [], []⟩
  | crossing {call : Call} {stale : ResponseBuffer} {calls signal : ℕ} {m s : Message}
      (hm : m.Calls call calls) (hs : s.Signals signal) :
      Paired ⟨.awaiting signal, .busy call stale, calls, [m], [s]⟩
  | queued {call : Call} {stale : ResponseBuffer} {calls signal : ℕ} {x m : Message}
      (hx : x.Settles signal) (hm : m.Calls call calls) :
      Paired ⟨.awaiting signal, .busy call stale, calls, [x, m], []⟩
  | repliedSignalled {call : Call} {stale : ResponseBuffer} {calls signal : ℕ} {reply s : Message}
      (hcall : call ≠ .getinterrupt) (hreply : reply.number = calls) (hs : s.Signals signal) :
      Paired ⟨.awaiting signal, .busy call stale, calls, [], [reply, s]⟩
  | missedSignalled {call : Call} {stale : ResponseBuffer} {calls signal earlier : ℕ} {s s' : Message}
      (hcall : call ≠ .getinterrupt) (hs : s.Signals earlier) (hs' : s'.Signals signal) :
      Paired ⟨.awaiting signal, .busy call stale, calls, [], [s, s']⟩

/-- Only `v120irqd_getinterrupt` waits without having sent anything. -/
theorem Phase.IsResting.call_eq {call : Call} {stale : ResponseBuffer}
    (h : (Phase.busy call stale).IsResting) : call = .getinterrupt := by
  cases call <;> first | rfl | exact h.elim

/-- A call that sends a message is not `v120irqd_getinterrupt`. -/
theorem Call.Sends.ne_getinterrupt {call : Call} {buf : ResponseBuffer} (h : call.Sends buf) :
    call ≠ .getinterrupt := by
  rintro rfl
  exact absurd h.message (by simp [Call.message])

/-- The message of a call is served. -/
theorem Call.Sends.isServed {call : Call} {buf : ResponseBuffer} (h : call.Sends buf) :
    buf.msg.isServed = true := by
  have hmsg := h.message
  cases call <;> simp only [Call.message, Option.some.injEq, reduceCtorEq] at hmsg <;> rw [← hmsg] <;> rfl

/-- The message of a call answers no signal. -/
theorem Message.Calls.settles {m : Message} {call : Call} {number : ℕ} (h : m.Calls call number)
    (signal : ℕ) : m.Settles signal := by
  have hserved := h.sent.isServed
  rintro (hack | hnak)
  · rw [hack] at hserved
    exact absurd hserved (by decide)
  · rw [hnak] at hserved
    exact absurd hserved (by decide)

/-- A client that calls sends the message of the call, or waits for an interrupt. -/
theorem call_cases (call : Call) (stale : ResponseBuffer) (number : ℕ) :
    (call = .getinterrupt ∧ (call.sends stale).map (fun buf => (⟨buf, number⟩ : Message)) = []) ∨
      ∃ m : Message, (call.sends stale).map (fun buf => (⟨buf, number⟩ : Message)) = [m] ∧
        m.Calls call number := by
  rcases call.sends_cases stale with ⟨hnone, hsends⟩ | ⟨buf, hsends, hbuf⟩
  · rw [hsends]
    exact Or.inl ⟨by cases call <;> first | rfl | exact absurd hnone (by simp [Call.message]), rfl⟩
  · rw [hsends]
    exact Or.inr ⟨⟨buf, number⟩, rfl, hbuf, rfl⟩

/-- Every step leads from shape to shape. -/
theorem ClientStep.paired {v v' : View} (h : ClientStep v v') (hv : Paired v) : Paired v' := by
  cases h with
  | @call stage calls toServer toClient call stale =>
    rcases call_cases call stale (calls + 1) with ⟨rfl, hnone⟩ | ⟨m, hone, hm⟩
    · rw [hnone, List.append_nil]
      cases hv with
      | resting hphase => exact .resting trivial
      | signalled hphase hs => exact .signalled trivial hs
      | settling hphase hx => exact .settling trivial hx
    · rw [hone]
      cases hv with
      | resting hphase => exact .unread hm
      | signalled hphase hs => exact .crossing hm hs
      | settling hphase hx => exact .queued hx hm
  | @finish stage calls toServer toClient call stale m =>
    cases hv with
    | replied hcall hreply =>
      rw [if_neg fun h => hcall h.1]
      exact .resting trivial
    | missed hcall hs =>
      rw [if_neg fun h => hcall h.1]
      exact .resting trivial
    | signalled hphase hs =>
      obtain rfl := hphase.call_eq
      have hcode : Call.getinterrupt.returns stale m.buf = 0 := by
        rw [Call.returns_eq]
        simp [Irqd.signalled, hs.msg]
      rw [if_pos ⟨rfl, hcode⟩, hs.number]
      exact .owing
    | crossing hm hs =>
      rw [if_neg fun h => hm.sent.ne_getinterrupt h.1]
      exact .settling trivial (hm.settles _)
    | repliedSignalled hcall hreply hs =>
      rw [if_neg fun h => hcall h.1]
      exact .signalled trivial hs
    | missedSignalled hcall hs hs' =>
      rw [if_neg fun h => hcall h.1]
      exact .signalled trivial hs'
  | answer answer stale =>
    obtain ⟨buf, hsends, hbuf⟩ := answer.sends_eq stale
    rw [hsends]
    cases hv with
    | resting hphase => exact hphase.elim
    | signalled hphase hs => exact hphase.elim
    | settling hphase hx => exact hphase.elim
    | owing => exact .settling trivial fun _ => rfl
  | taken m =>
    cases hv with
    | unread hm =>
      rw [if_pos hm.sent.isServed]
      exact .served hm
  | given buf =>
    cases hv with
    | served hm => exact .replied hm.sent.ne_getinterrupt hm.number
  | signalled hmsg =>
    cases hv with
    | resting hphase => exact .signalled hphase ⟨hmsg, rfl⟩
    | unread hm => exact .crossing hm ⟨hmsg, rfl⟩
    | replied hcall hreply => exact .repliedSignalled hcall hreply ⟨hmsg, rfl⟩
    | missed hcall hs => exact .missedSignalled hcall hs ⟨hmsg, rfl⟩
  | settled m =>
    cases hv with
    | settling hphase hx => exact .resting hphase
    | crossing hm hs => exact .missed hm.sent.ne_getinterrupt hs
    | queued hx hm => exact .unread hm

/-- Every step of the network leads from shape to shape. -/
theorem NetStep.paired {fake : Bool} {l : NetLabel} {n n' : Net} {c : ℤ} (h : NetStep fake l n n')
    (hn : Paired (n.view c)) : Paired (n'.view c) := by
  rcases h.view c with hsame | hclient
  · rw [hsame]
    exact hn
  · exact hclient.paired hn

/-- In every run, every client's queues have one of the shapes. -/
theorem net_paired {fake : Bool} {table : VectorTable} {ls : List NetLabel} {n : Net}
    (h : Run (NetStep fake) ls (.start table) n) (c : ℤ) : Paired (n.view c) := by
  have hidle : Phase.idle.IsResting := trivial
  have hstart : Paired ((Net.start table).view c) := .resting hidle
  exact h.invariant (fun l s t hstep hs => hstep.paired hs) hstart

/-- While a message is served its call waits, with nothing in the queues. -/
theorem Paired.of_serving {v : View} (h : Paired v) {m : Message} (hstage : v.stage = .serving m) :
    v.toServer = [] ∧ v.toClient = [] ∧
      ∃ call stale, v.phase = .busy call stale ∧ m.Calls call v.calls := by
  cases h <;> simp only [reduceCtorEq, Stage.serving.injEq] at hstage
  next hm => exact ⟨rfl, rfl, _, _, rfl, hstage ▸ hm⟩

/-- A message that the daemon finds while it is busy with nobody is the one of the call in progress. -/
theorem Paired.of_unread {v : View} (h : Paired v) {m : Message} {rest : List Message}
    (hstage : v.stage = .away) (hqueue : v.toServer = m :: rest) :
    rest = [] ∧ v.toClient = [] ∧ ∃ call stale, v.phase = .busy call stale ∧ m.Calls call v.calls := by
  cases h <;> simp only [reduceCtorEq, List.cons.injEq] at hstage hqueue
  next hm => exact ⟨hqueue.2.symm, rfl, _, _, rfl, hqueue.1 ▸ hm⟩

/-- Only signals wait for an idle client. -/
theorem Paired.of_idle {v : View} (h : Paired v) (hphase : v.phase = .idle) :
    ∀ m ∈ v.toClient, m.buf.msg = .irqSignal := by
  cases h <;> simp only [reduceCtorEq] at hphase
  next hresting => simp
  next hresting hs => simpa using hs.msg
  next hresting hx => simp

/-- A call reads its own answer or a signal. -/
theorem Paired.of_reading {v : View} (h : Paired v) {m : Message} {rest : List Message}
    {call : Call} {stale : ResponseBuffer} (hphase : v.phase = .busy call stale)
    (hqueue : v.toClient = m :: rest) : m.buf.msg = .irqSignal ∨ m.number = v.calls := by
  cases h <;> simp only [reduceCtorEq, List.cons.injEq] at hphase hqueue
  next hcall hreply => exact Or.inr (hqueue.1 ▸ hreply)
  next hcall hs => exact Or.inl (hqueue.1 ▸ hs.msg)
  next hresting hs => exact Or.inl (hqueue.1 ▸ hs.msg)
  next hm hs => exact Or.inl (hqueue.1 ▸ hs.msg)
  next hcall hreply hs => exact Or.inr (hqueue.1 ▸ hreply)
  next hcall hs hs' => exact Or.inl (hqueue.1 ▸ hs.msg)

/-- The daemon reads the answer to the signal it sent, or a message that answers nothing. -/
theorem Paired.of_settling {v : View} (h : Paired v) {m : Message} {rest : List Message} {signal : ℕ}
    (hstage : v.stage = .awaiting signal) (hqueue : v.toServer = m :: rest) : m.Settles signal := by
  cases h <;> simp only [reduceCtorEq, Stage.awaiting.injEq, List.cons.injEq] at hstage hqueue
  next hresting hx => exact hqueue.1 ▸ hstage ▸ hx
  next hm hs => exact hqueue.1 ▸ hm.settles signal
  next hx hm => exact hqueue.1 ▸ hstage ▸ hx

end V120.Irqd
