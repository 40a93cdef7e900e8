import V120.Irqd.Messages

/-!
# The calls of a client

A library call sends at most one message and then waits for one. On a socket that loses nothing a
call is therefore given by the message it sends and by the code it makes of the message it reads,
and both are computed by running the call itself.
-/

namespace V120.Irqd

/-- The library calls that wait for a message. -/
inductive Call where
  | request (sel : V120irqdSelector)
  | release (sel : V120irqdSelector)
  | interrupt (sel : V120irqdSelector)
  | status
  | getinterrupt
  deriving DecidableEq

/-- Make a call, for its return code. -/
def Call.run {σ : Type*} (io : Sockets σ) (socket : ℤ) (call : Call) (s : σ) : ℤ × σ :=
  match call with
  | .request sel => v120irqdRequest io socket sel s
  | .release sel => v120irqdRelease io socket sel s
  | .interrupt sel => v120irqdInterrupt io socket sel s
  | .status => ((v120irqdStatus io socket s).1, (v120irqdStatus io socket s).2.2)
  | .getinterrupt => ((v120irqdGetinterrupt io socket s).1, (v120irqdGetinterrupt io socket s).2.2)

/-- The two answers to an interrupt. -/
inductive Answer where
  | ack
  | nak

/-- Answer an interrupt, for the return code. -/
def Answer.run {σ : Type*} (io : Sockets σ) (socket : ℤ) (answer : Answer) (s : σ) : ℤ × σ :=
  match answer with
  | .ack => v120irqdAck io socket s
  | .nak => v120irqdNak io socket s

/-- A socket that keeps what is written to it in order, and whose next message is known. -/
def reliable (stale next : ResponseBuffer) : Sockets (List ResponseBuffer) where
  write _ buf written := (none, written ++ [buf])
  read _ written := (.message next, written)
  stale written := (stale, written)

/-- The messages a call sends before it waits, given what its buffer held before. -/
def Call.sends (call : Call) (stale : ResponseBuffer) : List ResponseBuffer :=
  (call.run (reliable stale ⟨0⟩) 0 []).2

/-- The code a call returns when it reads a message. -/
def Call.returns (call : Call) (stale next : ResponseBuffer) : ℤ :=
  (call.run (reliable stale next) 0 []).1

/-- The messages an answer consists of. -/
def Answer.sends (answer : Answer) (stale : ResponseBuffer) : List ResponseBuffer :=
  (answer.run (reliable stale ⟨0⟩) 0 []).2

/-- The message type of a call, none for the one that only waits. -/
def Call.message : Call → Option MessageSelect
  | .request _ => some .requestIrq
  | .release _ => some .releaseIrq
  | .interrupt _ => some .irqSignal
  | .status => some .serverStatus
  | .getinterrupt => none

/-- The selector a call sends, none when it sends none. -/
def Call.selector : Call → Option V120irqdSelector
  | .request sel => some sel
  | .release sel => some sel
  | .interrupt sel => some sel
  | .status => none
  | .getinterrupt => none

/-- A message is the one that a call sends. -/
structure Call.Sends (call : Call) (buf : ResponseBuffer) : Prop where
  message : call.message = some buf.msg
  selector : ∀ sel ∈ call.selector, buf.selector = sel

section Reliable

variable (stale next : ResponseBuffer) (socket : ℤ) (written : List ResponseBuffer)

/-- A message is written at once. -/
theorem msgSend_reliable (buf : ResponseBuffer) :
    v120irqdMsgSend (reliable stale next) socket buf written = (20, written ++ [buf]) := rfl

/-- The next message is read as a whole. -/
theorem msgRecv_reliable (buf : ResponseBuffer) :
    v120IrqdMsgRecv (reliable stale next) socket buf written = (20, next, written) := by
  change (_, (Received.message next).fill buf, _) = _
  rw [Received.fill_message]
  rfl

/-- A handshake writes its message and reads the answer. -/
theorem handshake_reliable (msg : MessageSelect) (sel : V120irqdSelector) :
    handshake (reliable stale next) msg socket sel written =
      (acknowledged 20 next, written ++ [(stale.setMsg msg).setSelector sel]) := by
  have hstale : (reliable stale next).stale written = (stale, written) := rfl
  have hlen : ¬ (20 : ℤ) < 0 := by decide
  simp only [handshake, hstale, msgSend_reliable, msgRecv_reliable, if_neg hlen]

/-- `v120irqd_status` writes its message and reads the report. -/
theorem status_reliable :
    (v120irqdStatus (reliable stale next) socket written).1 = reported 20 next ∧
      (v120irqdStatus (reliable stale next) socket written).2.2 =
        written ++ [(⟨0⟩ : ResponseBuffer).setMsg .serverStatus] := by
  have hlen : ¬ (20 : ℤ) < 0 := by decide
  simp only [v120irqdStatus, msgSend_reliable, msgRecv_reliable, if_neg hlen, and_self]

/-- `v120irqd_getinterrupt` reads a signal. -/
theorem getinterrupt_reliable :
    (v120irqdGetinterrupt (reliable stale next) socket written).1 = signalled 20 next ∧
      (v120irqdGetinterrupt (reliable stale next) socket written).2.2 = written := by
  have hstale : (reliable stale next).stale written = (stale, written) := rfl
  simp only [v120irqdGetinterrupt, hstale, msgRecv_reliable, and_self]

/-- What a call returns, by the message it reads. -/
theorem Call.returns_eq (call : Call) : call.returns stale next =
    match call with
    | .request _ => acknowledged 20 next
    | .release _ => acknowledged 20 next
    | .interrupt _ => acknowledged 20 next
    | .status => reported 20 next
    | .getinterrupt => signalled 20 next := by
  unfold Call.returns
  cases call with
  | request sel => exact congrArg Prod.fst (handshake_reliable stale next 0 [] .requestIrq sel)
  | release sel => exact congrArg Prod.fst (handshake_reliable stale next 0 [] .releaseIrq sel)
  | interrupt sel => exact congrArg Prod.fst (handshake_reliable stale next 0 [] .irqSignal sel)
  | status => exact (status_reliable stale next 0 []).1
  | getinterrupt => exact (getinterrupt_reliable stale next 0 []).1

/-- What a call sends. -/
theorem Call.sends_eq (call : Call) : call.sends stale =
    match call with
    | .request sel => [(stale.setMsg .requestIrq).setSelector sel]
    | .release sel => [(stale.setMsg .releaseIrq).setSelector sel]
    | .interrupt sel => [(stale.setMsg .irqSignal).setSelector sel]
    | .status => [(⟨0⟩ : ResponseBuffer).setMsg .serverStatus]
    | .getinterrupt => [] := by
  unfold Call.sends
  cases call with
  | request sel => exact congrArg Prod.snd (handshake_reliable stale ⟨0⟩ 0 [] .requestIrq sel)
  | release sel => exact congrArg Prod.snd (handshake_reliable stale ⟨0⟩ 0 [] .releaseIrq sel)
  | interrupt sel => exact congrArg Prod.snd (handshake_reliable stale ⟨0⟩ 0 [] .irqSignal sel)
  | status => exact (status_reliable stale ⟨0⟩ 0 []).2
  | getinterrupt => exact (getinterrupt_reliable stale ⟨0⟩ 0 []).2

/-- Every call sends its messages first and then reads one message, so the two can be told apart. -/
theorem Call.run_reliable (call : Call) :
    call.run (reliable stale next) socket written =
      (call.returns stale next, written ++ call.sends stale) := by
  rw [call.returns_eq, call.sends_eq]
  cases call with
  | request sel => exact handshake_reliable stale next socket written .requestIrq sel
  | release sel => exact handshake_reliable stale next socket written .releaseIrq sel
  | interrupt sel => exact handshake_reliable stale next socket written .irqSignal sel
  | status =>
    obtain ⟨hcode, hwritten⟩ := status_reliable stale next socket written
    exact Prod.ext hcode hwritten
  | getinterrupt =>
    obtain ⟨hcode, hwritten⟩ := getinterrupt_reliable stale next socket written
    exact Prod.ext hcode (hwritten.trans (List.append_nil _).symm)

/-- A call that only waits sends nothing, and every other call sends one message, its own. -/
theorem Call.sends_cases (call : Call) :
    (call.message = none ∧ call.sends stale = []) ∨ ∃ buf, call.sends stale = [buf] ∧ call.Sends buf := by
  obtain ⟨-, -, hrequest, hrelease, hsignal, hstatus⟩ := ResponseBuffer.msg_setMsg_named stale
  rw [call.sends_eq]
  cases call with
  | request sel => exact Or.inr ⟨_, rfl, by simp [Call.message, hrequest], by simp [Call.selector]⟩
  | release sel => exact Or.inr ⟨_, rfl, by simp [Call.message, hrelease], by simp [Call.selector]⟩
  | interrupt sel => exact Or.inr ⟨_, rfl, by simp [Call.message, hsignal], by simp [Call.selector]⟩
  | status => exact Or.inr ⟨_, rfl, by simp [Call.message], by simp [Call.selector]⟩
  | getinterrupt => exact Or.inl ⟨rfl, rfl⟩

/-- An answer is one message, of its type. -/
theorem Answer.sends_eq (answer : Answer) :
    ∃ buf, answer.sends stale = [buf] ∧ (buf.msg = .ack ∨ buf.msg = .nak) := by
  obtain ⟨hnak, hack, -⟩ := ResponseBuffer.msg_setMsg_named stale
  cases answer with
  | ack => exact ⟨stale.setMsg .ack, rfl, Or.inl hack⟩
  | nak => exact ⟨stale.setMsg .nak, rfl, Or.inr hnak⟩

end Reliable

end V120.Irqd
