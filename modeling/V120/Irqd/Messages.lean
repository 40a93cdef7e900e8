import V120.Common.BitFields
import V120.Irqd.Selector

/-!
# Messages and the calls of `libV120irqd`

A `response_buffer` is 20 octets: the message type, and a union of a selector and a status
report. Both the daemon and its clients use the calls of `interrupts.c` on their end of a
socket. What a socket does is a parameter: it answers each `write` and `read`, in a state of
its own.
-/

namespace V120.Irqd

open V120.Common

/-- `enum v120_irq_message_select`, with the codes outside the enumeration kept apart. -/
inductive MessageSelect where
  | nak
  | ack
  | requestIrq
  | releaseIrq
  | irqSignal
  | serverStatus
  | other (code : BitVec 32)
  deriving DecidableEq, Repr

/-- The stored value of an enumerator. -/
def MessageSelect.code : MessageSelect → BitVec 32
  | .nak => 0
  | .ack => 1
  | .requestIrq => 2
  | .releaseIrq => 3
  | .irqSignal => 4
  | .serverStatus => 5
  | .other code => code

/-- The enumerator a stored value stands for. -/
def MessageSelect.ofCode (code : BitVec 32) : MessageSelect :=
  if code = 0 then .nak
  else if code = 1 then .ack
  else if code = 2 then .requestIrq
  else if code = 3 then .releaseIrq
  else if code = 4 then .irqSignal
  else if code = 5 then .serverStatus
  else .other code

/-- `struct v120irqd_serverstatus`. -/
structure ServerStatus where
  pid : BitVec 32
  crates : BitVec 32
  clients : BitVec 32
  irqRequests : BitVec 32
  deriving DecidableEq, Repr

/-- `sizeof(response_buffer)`. -/
def responseBufferSize : ℕ := 20

/-- `struct response_buffer`, little-endian. -/
structure ResponseBuffer where
  bits : BitVec 160
  deriving DecidableEq, Repr

namespace ResponseBuffer

/-- The `msg` member. -/
def msg (buf : ResponseBuffer) : MessageSelect := .ofCode (field 0 32 buf.bits)

/-- The `selector` member of the union. -/
def selector (buf : ResponseBuffer) : V120irqdSelector :=
  ⟨field 32 16 buf.bits, field 48 16 buf.bits, field 64 32 buf.bits, field 96 32 buf.bits⟩

/-- The `status` member of the union. -/
def status (buf : ResponseBuffer) : ServerStatus :=
  ⟨field 32 32 buf.bits, field 64 32 buf.bits, field 96 32 buf.bits, field 128 32 buf.bits⟩

/-- Assign the `msg` member. -/
def setMsg (buf : ResponseBuffer) (msg : MessageSelect) : ResponseBuffer :=
  ⟨setField 0 msg.code buf.bits⟩

/-- Assign the `selector` member. -/
def setSelector (buf : ResponseBuffer) (sel : V120irqdSelector) : ResponseBuffer :=
  ⟨setField 96 sel.payload (setField 64 sel.vector (setField 48 sel.irq
    (setField 32 sel.crate buf.bits)))⟩

/-- Assign the `status` member. -/
def setStatus (buf : ResponseBuffer) (status : ServerStatus) : ResponseBuffer :=
  ⟨setField 128 status.irqRequests (setField 96 status.clients (setField 64 status.crates
    (setField 32 status.pid buf.bits)))⟩

/-- Reading `len` octets into a buffer replaces its first `len` octets only. -/
def receive (buf : ResponseBuffer) (len : ℕ) (data : BitVec 160) : ResponseBuffer :=
  ⟨setField 0 (field 0 (8 * len) data) buf.bits⟩

/-- An assigned selector reads back. -/
@[simp] theorem selector_setSelector (buf : ResponseBuffer) (sel : V120irqdSelector) :
    (buf.setSelector sel).selector = sel := by
  simp [selector, setSelector, field_setField_same, field_setField_disjoint]

/-- Assigning the selector leaves the message type alone. -/
@[simp] theorem msg_setSelector (buf : ResponseBuffer) (sel : V120irqdSelector) :
    (buf.setSelector sel).msg = buf.msg := by
  simp [msg, setSelector, field_setField_disjoint]

/-- Assigning the status leaves the message type alone. -/
@[simp] theorem msg_setStatus (buf : ResponseBuffer) (status : ServerStatus) :
    (buf.setStatus status).msg = buf.msg := by
  simp [msg, setStatus, field_setField_disjoint]

/-- An assigned status reads back. -/
@[simp] theorem status_setStatus (buf : ResponseBuffer) (status : ServerStatus) :
    (buf.setStatus status).status = status := by
  simp [ResponseBuffer.status, setStatus, field_setField_same, field_setField_disjoint]

/-- Assigning the message type leaves the selector alone. -/
@[simp] theorem selector_setMsg (buf : ResponseBuffer) (msg : MessageSelect) :
    (buf.setMsg msg).selector = buf.selector := by
  simp [selector, setMsg, field_setField_disjoint]

/-- The message type reads back as the enumerator its stored value stands for. -/
theorem msg_setMsg (buf : ResponseBuffer) (msg : MessageSelect) :
    (buf.setMsg msg).msg = .ofCode msg.code := by
  rw [ResponseBuffer.msg, setMsg, field_setField_same _ _ _ (by decide)]

/-- An assigned enumerator reads back. -/
@[simp] theorem msg_setMsg_named (buf : ResponseBuffer) :
    (buf.setMsg .nak).msg = .nak ∧ (buf.setMsg .ack).msg = .ack ∧
      (buf.setMsg .requestIrq).msg = .requestIrq ∧ (buf.setMsg .releaseIrq).msg = .releaseIrq ∧
      (buf.setMsg .irqSignal).msg = .irqSignal ∧
      (buf.setMsg .serverStatus).msg = .serverStatus := by
  simp only [msg_setMsg]
  decide

/-- A complete message replaces the whole buffer. -/
theorem receive_all (buf : ResponseBuffer) (data : BitVec 160) :
    buf.receive responseBufferSize data = ⟨data⟩ := by
  rw [receive, responseBufferSize]
  congr 1
  apply BitVec.eq_of_getLsbD_eq
  intro i hi
  rw [getLsbD_setField, if_pos (by omega), Nat.sub_zero, field, BitVec.getLsbD_extractLsb',
    Nat.zero_add, decide_eq_true hi, Bool.true_and]

end ResponseBuffer

/-- What `read` does on a socket: at most one message, none at the end of the stream. -/
inductive Received where
  | failed (errno : Errno)
  | data (len : Fin (responseBufferSize + 1)) (bytes : BitVec 160)

/-- The length `read` returns, negative for an error. -/
def Received.len : Received → ℤ
  | .failed errno => -errno.val
  | .data len _ => len.val

/-- The buffer after the `read`. -/
def Received.fill (buf : ResponseBuffer) : Received → ResponseBuffer
  | .failed _ => buf
  | .data len bytes => buf.receive len bytes

/-- The end of the stream. -/
def Received.ended : Received := .data ⟨0, Nat.succ_pos _⟩ 0

/-- A complete message. -/
def Received.message (buf : ResponseBuffer) : Received := .data (Fin.last responseBufferSize) buf.bits

@[simp] theorem Received.len_ended : Received.ended.len = 0 := rfl

@[simp] theorem Received.len_message (buf : ResponseBuffer) : (Received.message buf).len = 20 := rfl

/-- A complete message is read as it was sent. -/
@[simp] theorem Received.fill_message (buf stale : ResponseBuffer) :
    (Received.message buf).fill stale = buf :=
  ResponseBuffer.receive_all stale buf.bits

/-- The length `write` returns, negative for an error. -/
def sent : Option Errno → ℤ
  | some errno => -errno.val
  | none => responseBufferSize

/-- The answers of the sockets a process holds, and the contents of its uninitialised buffers. -/
structure Sockets (σ : Type*) where
  write : ℤ → ResponseBuffer → σ → Option Errno × σ
  read : ℤ → σ → Received × σ
  stale : σ → ResponseBuffer × σ

section Calls

variable {σ : Type*} (io : Sockets σ)

/-- `v120irqd_msg_send`: the octets sent, or a negative error code. -/
def v120irqdMsgSend (socket : ℤ) (buf : ResponseBuffer) (s : σ) : ℤ × σ :=
  let (result, s) := io.write socket buf s
  (sent result, s)

/-- `v120_irqd_msg_recv`: the octets read or a negative error code, and the buffer. -/
def v120IrqdMsgRecv (socket : ℤ) (buf : ResponseBuffer) (s : σ) : ℤ × ResponseBuffer × σ :=
  let (received, s) := io.read socket s
  (received.len, received.fill buf, s)

/-- How a caller that waits for an acknowledgement reads the next message. -/
def acknowledged (len : ℤ) (resp : ResponseBuffer) : ℤ :=
  if len < 0 then len
  else if len = 0 then -econnreset
  else if resp.msg = .ack then 0
  else if resp.msg = .nak then -eperm
  else -ebadmsg

/-- Send a selector and wait for the acknowledgement. -/
def handshake (msg : MessageSelect) (socket : ℤ) (sel : V120irqdSelector) (s : σ) : ℤ × σ :=
  let (resp, s) := io.stale s
  let (len, s) := v120irqdMsgSend io socket ((resp.setMsg msg).setSelector sel) s
  if len < 0 then (len, s)
  else
    let (len, resp, s) := v120IrqdMsgRecv io socket ((resp.setMsg msg).setSelector sel) s
    (acknowledged len resp, s)

/-- `v120irqd_request`. -/
def v120irqdRequest : ℤ → V120irqdSelector → σ → ℤ × σ := handshake io .requestIrq

/-- `v120irqd_release`. -/
def v120irqdRelease : ℤ → V120irqdSelector → σ → ℤ × σ := handshake io .releaseIrq

/-- `v120irqd_interrupt`. -/
def v120irqdInterrupt : ℤ → V120irqdSelector → σ → ℤ × σ := handshake io .irqSignal

/-- How `v120irqd_getinterrupt` reads the next message. -/
def signalled (len : ℤ) (resp : ResponseBuffer) : ℤ :=
  if len < 0 then len
  else if len = 0 then -econnreset
  else if resp.msg = .irqSignal then 0
  else -ebadmsg

/-- `v120irqd_getinterrupt`: the return code, and the selector on success. -/
def v120irqdGetinterrupt (socket : ℤ) (s : σ) : ℤ × Option V120irqdSelector × σ :=
  let (resp, s) := io.stale s
  let (len, resp, s) := v120IrqdMsgRecv io socket resp s
  let ret := signalled len resp
  (ret, if ret = 0 then some resp.selector else none, s)

/-- `msg_respond`: the union of the buffer is sent as it was found. -/
def msgRespond (socket : ℤ) (response : MessageSelect) (s : σ) : ℤ × σ :=
  let (resp, s) := io.stale s
  let (len, s) := v120irqdMsgSend io socket (resp.setMsg response) s
  if len < 0 then (len, s) else (0, s)

/-- `v120irqd_ack`. -/
def v120irqdAck (socket : ℤ) : σ → ℤ × σ := msgRespond io socket .ack

/-- `v120irqd_nak`. -/
def v120irqdNak (socket : ℤ) : σ → ℤ × σ := msgRespond io socket .nak

/-- How `v120irqd_status` reads the next message. -/
def reported (len : ℤ) (resp : ResponseBuffer) : ℤ :=
  if len < 0 then len
  else if len = 0 then -econnreset
  else if resp.msg = .serverStatus then 0
  else -ebadmsg

/-- `v120irqd_status`: the return code, and the report on success. -/
def v120irqdStatus (socket : ℤ) (s : σ) : ℤ × Option ServerStatus × σ :=
  let resp := (⟨0⟩ : ResponseBuffer).setMsg .serverStatus
  let (len, s) := v120irqdMsgSend io socket resp s
  if len < 0 then (len, none, s)
  else
    let (len, resp, s) := v120IrqdMsgRecv io socket resp s
    let ret := reported len resp
    (ret, if ret = 0 then some resp.status else none, s)

end Calls

/-- A handshake succeeds on an `ACK`, is refused on a `NAK`, and takes anything else for a bad message. -/
theorem acknowledged_all (next : ResponseBuffer) :
    (acknowledged 20 next = 0 ↔ next.msg = .ack) ∧ (acknowledged 20 next = -eperm ↔ next.msg = .nak) := by
  have hneg : ¬ (20 : ℤ) < 0 := by decide
  have hzero : ¬ (20 : ℤ) = 0 := by decide
  rw [acknowledged, if_neg hneg, if_neg hzero]
  by_cases hack : next.msg = .ack
  · simp [hack, eperm]
  · by_cases hnak : next.msg = .nak
    · simp [hnak, eperm]
    · simp [hack, hnak, eperm, ebadmsg]

end V120.Irqd
