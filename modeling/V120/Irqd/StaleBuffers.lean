import V120.Irqd.Connections

/-!
# What a client message leaves undetermined

`process_client` reads into an uninitialised buffer and only asks whether anything was read. The bytes
behind a short message are whatever the buffer held before, and the message type and the selector are
taken from the buffer all the same. Two runs on the same message that differ in these bytes are compared
in what they leave behind: the vector table, the enable masks and what they send.
-/

namespace V120.Irqd

open V120.Common

namespace ResponseBuffer

/-- The buffer with one bit the other way. -/
def flip (b : ℕ) (buf : ResponseBuffer) : ResponseBuffer := ⟨buf.bits ^^^ BitVec.twoPow 160 b⟩

/-- The received octets are the message's, and the others are the old ones. -/
theorem getLsbD_receive (buf : ResponseBuffer) (len : ℕ) (data : BitVec 160) (i : ℕ) :
    (buf.receive len data).bits.getLsbD i =
      if i < 8 * len ∧ i < 160 then data.getLsbD i else buf.bits.getLsbD i := by
  rw [receive, getLsbD_setField]
  by_cases hi : i < 8 * len ∧ i < 160
  · rw [if_pos ⟨Nat.zero_le i, by omega, hi.2⟩, if_pos hi, field, BitVec.getLsbD_extractLsb', Nat.sub_zero,
      Nat.zero_add, decide_eq_true hi.1, Bool.true_and]
  · rw [if_neg hi, if_neg fun h => hi ⟨by omega, h.2.2⟩]

/-- A field whose octets were all received is the message's. -/
theorem field_receive (buf : ResponseBuffer) {len start n : ℕ} (data : BitVec 160)
    (h : start + n ≤ 8 * len) (hlen : 8 * len ≤ 160) :
    field start n (buf.receive len data).bits = field start n data := by
  apply BitVec.eq_of_getLsbD_eq
  intro i hi
  rw [field, field, BitVec.getLsbD_extractLsb', BitVec.getLsbD_extractLsb', getLsbD_receive,
    if_pos ⟨by omega, by omega⟩]

/-- A bit behind the message shows through. -/
theorem receive_flip (buf : ResponseBuffer) {len b : ℕ} (data : BitVec 160) (hb : 8 * len ≤ b) :
    (buf.flip b).receive len data = (buf.receive len data).flip b := by
  have hbits : ((buf.flip b).receive len data).bits = ((buf.receive len data).flip b).bits := by
    apply BitVec.eq_of_getLsbD_eq
    intro i hi
    simp only [getLsbD_receive, flip, BitVec.getLsbD_xor, BitVec.getLsbD_twoPow]
    by_cases hin : i < 8 * len ∧ i < 160
    · have hne : ¬ b = i := by omega
      simp [hin, hne]
    · simp only [if_neg hin]
  exact congrArg ResponseBuffer.mk hbits

/-- A bit that is the other way changes the field it is in. -/
theorem field_flip_ne (buf : ResponseBuffer) {b start n : ℕ} (hlow : start ≤ b) (hhigh : b < start + n)
    (hb : b < 160) : field start n (buf.flip b).bits ≠ field start n buf.bits := by
  intro h
  have hbit := congrArg (fun bits => bits.getLsbD (b - start)) h
  have hn : b - start < n := by omega
  have hpos : start + (b - start) = b := by omega
  simp [field, flip, hn, hpos, hb] at hbit

/-- The last octet of the vector. -/
theorem vector_flip_ne (buf : ResponseBuffer) : (buf.flip 95).selector.vector ≠ buf.selector.vector :=
  buf.field_flip_ne (by decide) (by decide) (by decide)

/-- The last octet of the payload. -/
theorem payload_flip_ne (buf : ResponseBuffer) : (buf.flip 127).selector.payload ≠ buf.selector.payload :=
  buf.field_flip_ne (by decide) (by decide) (by decide)

end ResponseBuffer

/-- The message types `process_client` acts on; each is answered. -/
def MessageSelect.served : MessageSelect → Bool
  | .requestIrq => true
  | .releaseIrq => true
  | .irqSignal => true
  | .serverStatus => true
  | _ => false

/-- A type code with its last bit set is none of the enumerators. -/
theorem not_served_of_bit {code : BitVec 32} (h : code.getLsbD 31 = true) :
    (MessageSelect.ofCode code).served = false := by
  have hne : ∀ small : BitVec 32, small.getLsbD 31 = false → code ≠ small := by
    rintro small hsmall rfl
    rw [h] at hsmall
    exact absurd hsmall (by decide)
  rw [MessageSelect.ofCode, if_neg (hne 0 (by decide)), if_neg (hne 1 (by decide)),
    if_neg (hne 2 (by decide)), if_neg (hne 3 (by decide)), if_neg (hne 4 (by decide)),
    if_neg (hne 5 (by decide))]
  rfl

section Client

variable {σ : Type*} (sys : System σ)

/-- `process_client` with given contents of its local buffer. -/
def processClientFrom (buffer : ResponseBuffer) (idx : ℕ) (w : World σ) : Outcome σ :=
  let sock := (w.pollfd sys idx).fd
  let w := w.log (.processClient sock)
  let (_, w) := (World.sockets sys).stale w
  let (len, buffer, w) := v120IrqdMsgRecv (World.sockets sys) sock buffer w
  if len < 0 then .done w
  else if len = 0 then disconnectClient sys idx sock w
  else .done (clientMessage sys sock buffer w)

/-- `process_client` has whatever contents its buffer happens to have. -/
theorem processClient_from (idx : ℕ) (w : World σ) :
    ∃ buffer, processClient sys idx w = processClientFrom sys buffer idx w := ⟨_, rfl⟩

/-- The message `process_client` reads, and the world it reads it in. -/
def clientRead (idx : ℕ) (w : World σ) : Received × World σ :=
  let sock := (w.pollfd sys idx).fd
  (World.sockets sys).read sock ((World.sockets sys).stale (w.log (.processClient sock))).2

/-- What a `write` says to whom: the message type, and the interrupt of a notification. -/
def Event.outgoing : Event → Option (ℤ × MessageSelect × Option V120irqdSelector)
  | .write sock buf _ => some (sock, buf.msg, if buf.msg = .irqSignal then some buf.selector else none)
  | _ => none

@[simp] theorem outgoing_write (sock : ℤ) (buf : ResponseBuffer) (result : Option Errno) :
    (Event.write sock buf result).outgoing =
      some (sock, buf.msg, if buf.msg = .irqSignal then some buf.selector else none) := rfl

@[simp] theorem outgoing_read (sock : ℤ) (received : Received) :
    (Event.read sock received).outgoing = none := rfl

@[simp] theorem outgoing_lookup (sel : V120irqdSelector) : (Event.lookup sel).outgoing = none := rfl

@[simp] theorem outgoing_register (sock : ℤ) (sel : V120irqdSelector) (ret : ℤ) :
    (Event.register sock sel ret).outgoing = none := rfl

@[simp] theorem outgoing_release (sock : ℤ) (sel : V120irqdSelector) (ret : ℤ) :
    (Event.release sock sel ret).outgoing = none := rfl

/-- What a run of `process_client` leaves behind: the vector table, the enable masks, and the
notifications and replies it sent, by their types. -/
@[ext]
structure ClientEffects where
  table : VectorTable
  masks : List (BitVec 32)
  sent : List (ℤ × MessageSelect × Option V120irqdSelector)

/-- What lies between two worlds. -/
def effects (w w' : World σ) : ClientEffects :=
  ⟨w'.daemon.vectorTable, w'.daemon.v120Info.map V120Info.irqen,
    (w'.trace.drop w.trace.length).filterMap Event.outgoing⟩

/-- What `process_client` leaves behind with given contents of its buffer. -/
def clientEffects (buffer : ResponseBuffer) (idx : ℕ) (w : World σ) : ClientEffects :=
  effects w (processClientFrom sys buffer idx w).world

variable {sys}

/-- The effects of more events. -/
theorem effects_eq {w w' : World σ} {es : List Event} (htrace : w'.trace = w.trace ++ es) :
    effects w w' = ⟨w'.daemon.vectorTable, w'.daemon.v120Info.map V120Info.irqen,
      es.filterMap Event.outgoing⟩ := by
  rw [effects, htrace, List.drop_left]

/-- On a message `process_client` handles the buffer as the message and the old contents make it. -/
theorem clientEffects_message {idx : ℕ} {w : World σ} {len : Fin (responseBufferSize + 1)}
    {data : BitVec 160} (hread : (clientRead sys idx w).1 = .data len data) (hlen : 0 < len.val)
    (buffer : ResponseBuffer) :
    clientEffects sys buffer idx w = effects (clientRead sys idx w).2
      (clientMessage sys (w.pollfd sys idx).fd (buffer.receive len data) (clientRead sys idx w).2) := by
  have hrun : processClientFrom sys buffer idx w =
      if (clientRead sys idx w).1.len < 0 then .done (clientRead sys idx w).2
      else if (clientRead sys idx w).1.len = 0 then
        disconnectClient sys idx (w.pollfd sys idx).fd (clientRead sys idx w).2
      else .done (clientMessage sys (w.pollfd sys idx).fd ((clientRead sys idx w).1.fill buffer)
        (clientRead sys idx w).2) := rfl
  have hnonneg : ¬ ((len.val : ℕ) : ℤ) < 0 := by omega
  have hpos : ¬ ((len.val : ℕ) : ℤ) = 0 := by omega
  rw [hread, Received.len, if_neg hnonneg, if_neg hpos] at hrun
  obtain ⟨table, es, -, heffect⟩ := clientMessage_spec sys (w.pollfd sys idx).fd (buffer.receive len data)
    (clientRead sys idx w).2
  have hentry : (clientRead sys idx w).2.trace = w.trace ++
      [.processClient (w.pollfd sys idx).fd, .read (w.pollfd sys idx).fd (clientRead sys idx w).1] := by
    rw [← List.singleton_append, ← List.append_assoc]
    rfl
  have hes := heffect.trace
  rw [clientEffects, hrun, Outcome.world, effects_eq heffect.trace]
  rw [hentry, List.append_assoc] at hes
  -- neither the call nor the read sends anything
  have hsame := effects_eq hes
  exact hsame

variable (sys) in
/-- A `REQUEST_IRQ` is answered by the result of the table call, and a refused one changes nothing. -/
theorem clientRequest_effects (sock : ℤ) (sel : V120irqdSelector) (w : World σ) :
    let answer := registerInterrupt (sys.reallocTable w.outside).1 sock sel w.daemon.vectorTable
    (effects w (clientRequest sys sock sel w)).table = answer.2 ∧
      (effects w (clientRequest sys sock sel w)).sent =
        [(sock, if answer.1 < 0 then .nak else .ack, none)] ∧
      (answer.1 < 0 → (effects w (clientRequest sys sock sel w)).masks =
        w.daemon.v120Info.map V120Info.irqen) := by
  intro answer
  let w₁ : World σ := ({ w with outside := (sys.reallocTable w.outside).2 }.modify
    (·.setTable answer.2)).log (.register sock sel answer.1)
  have hdef : clientRequest sys sock sel w =
      if answer.1 < 0 then (v120irqdNak (World.sockets sys) sock w₁).2
      else if (v120irqdAck (World.sockets sys) sock w₁).1 < 0 then
        (v120irqdAck (World.sockets sys) sock w₁).2
      else (v120irqdAck (World.sockets sys) sock w₁).2.modify (enableInterrupts sel) := rfl
  have hstart : w₁.trace = w.trace ++ [.register sock sel answer.1] := rfl
  by_cases hret : answer.1 < 0
  · obtain ⟨buf, result, hmsg, hio⟩ := nak_spec sys sock w₁
    have htrace := hio.trace
    rw [hstart, List.append_assoc] at htrace
    rw [hdef, if_pos hret, if_pos hret, effects_eq htrace, hio.daemon]
    refine ⟨rfl, ?_, fun _ => rfl⟩
    simp [List.filterMap_cons, hmsg]
  · obtain ⟨buf, result, hmsg, -, -, hio⟩ := ack_spec sys sock w₁
    have htrace := hio.trace
    rw [hstart, List.append_assoc] at htrace
    have hsent : ([Event.register sock sel answer.1] ++ [Event.write sock buf result]).filterMap Event.outgoing =
        [(sock, .ack, none)] := by simp [List.filterMap_cons, hmsg]
    rw [hdef, if_neg hret, if_neg hret]
    by_cases hlost : (v120irqdAck (World.sockets sys) sock w₁).1 < 0
    · rw [if_pos hlost, effects_eq htrace, hio.daemon]
      exact ⟨rfl, hsent, fun h => absurd h hret⟩
    · have henabled : ((v120irqdAck (World.sockets sys) sock w₁).2.modify (enableInterrupts sel)).trace =
          w.trace ++ ([.register sock sel answer.1] ++ [.write sock buf result]) := htrace
      rw [if_neg hlost, effects_eq henabled]
      refine ⟨?_, hsent, fun h => absurd h hret⟩
      rw [World.modify, hio.daemon]
      rfl

variable (sys) in
/-- A `RELEASE_IRQ` is answered by the result of the table call, and the masks are recomputed. -/
theorem clientRelease_effects (sock : ℤ) (sel : V120irqdSelector) (w : World σ) :
    let answer := releaseInterrupt sock sel w.daemon.vectorTable
    effects w (clientRelease sys sock sel w) =
      ⟨answer.2, (disableUnusedInterrupts (w.daemon.setTable answer.2)).v120Info.map V120Info.irqen,
        [(sock, if answer.1 < 0 then .nak else .ack, none)]⟩ := by
  intro answer
  let w₁ : World σ := (w.modify (·.setTable answer.2)).log (.release sock sel answer.1)
  have hdef : clientRelease sys sock sel w =
      (if answer.1 < 0 then (v120irqdNak (World.sockets sys) sock w₁).2
        else (v120irqdAck (World.sockets sys) sock w₁).2).modify disableUnusedInterrupts := rfl
  have hstart : w₁.trace = w.trace ++ [.release sock sel answer.1] := rfl
  have hdisable {w₂ : World σ} {buf : ResponseBuffer} {result : Option Errno} {msg : MessageSelect}
      (hmsg : buf.msg = msg) (hnotice : msg ≠ .irqSignal) (hio : Io w₁ w₂ [.write sock buf result]) :
      effects w (w₂.modify disableUnusedInterrupts) = ⟨answer.2,
        (disableUnusedInterrupts (w.daemon.setTable answer.2)).v120Info.map V120Info.irqen,
        [(sock, msg, none)]⟩ := by
    have htrace : (w₂.modify disableUnusedInterrupts).trace = w.trace ++
        ([.release sock sel answer.1] ++ [.write sock buf result]) := by
      rw [← List.append_assoc, ← hstart]
      exact hio.trace
    have hsent : ([Event.release sock sel answer.1] ++ [Event.write sock buf result]).filterMap Event.outgoing =
        [(sock, msg, none)] := by simp [List.filterMap_cons, hmsg, hnotice]
    rw [effects_eq htrace, hsent, World.modify, hio.daemon]
    rfl
  rw [hdef]
  by_cases hret : answer.1 < 0
  · obtain ⟨buf, result, hmsg, hio⟩ := nak_spec sys sock w₁
    rw [if_pos hret, if_pos hret]
    exact hdisable hmsg (by simp) hio
  · obtain ⟨buf, result, hmsg, -, -, hio⟩ := ack_spec sys sock w₁
    rw [if_neg hret, if_neg hret]
    exact hdisable hmsg (by simp) hio

/-- Socket calls leave behind what they send. -/
theorem Io.effects {w w' : World σ} {es : List Event} (h : Io w w' es) :
    effects w w' = ⟨w.daemon.vectorTable, w.daemon.v120Info.map V120Info.irqen,
      es.filterMap Event.outgoing⟩ := by
  rw [effects_eq h.trace, h.daemon]

variable (sys) in
/-- A notification is sent when the look-up finds a client, and carries the interrupt that was looked
up with the payload of the registration. -/
theorem notifyIrq_effects (sel : V120irqdSelector) (w : World σ) :
    effects w (notifyIrq sys sel w).2 =
      ⟨w.daemon.vectorTable, w.daemon.v120Info.map V120Info.irqen,
        match findInterrupt sel w.daemon.vectorTable with
        | .error _ => []
        | .ok (sock, found) => [(sock, .irqSignal, some found)]⟩ := by
  obtain ⟨es, hnotify, hio⟩ := notifyIrq_spec sys sel w
  rw [hio.effects]
  generalize (notifyIrq sys sel w).1 = err at hnotify
  cases hnotify with
  | unmatched hfind => rw [hfind]; rfl
  | unsent errno hfind hmsg => rw [hfind]; simp [List.filterMap_cons, hmsg]
  | answered received hfind hmsg => rw [hfind]; simp [List.filterMap_cons, hmsg]

variable (sys) in
/-- A request for a fake interrupt is refused, or acknowledged and then looked up. -/
theorem clientFakeIrq_effects (sock : ℤ) (sel : V120irqdSelector) (w : World σ) :
    effects w (clientFakeIrq sys sock sel w) =
      ⟨w.daemon.vectorTable, w.daemon.v120Info.map V120Info.irqen,
        if w.daemon.allowFakeIrq then
          (sock, .ack, none) ::
            if (v120irqdAck (World.sockets sys) sock w).1 ≠ 0 then []
            else
              match findInterrupt sel w.daemon.vectorTable with
              | .error _ => []
              | .ok (sock, found) => [(sock, .irqSignal, some found)]
        else [(sock, .nak, none)]⟩ := by
  unfold clientFakeIrq
  by_cases hfake : w.daemon.allowFakeIrq = true
  · obtain ⟨buf, result, hmsg, -, -, hio⟩ := ack_spec sys sock w
    rw [if_pos hfake, if_pos hfake]
    dsimp only
    by_cases hlost : (v120irqdAck (World.sockets sys) sock w).1 ≠ 0
    · rw [if_pos hlost, if_pos hlost, hio.effects]
      simp [hmsg]
    · rw [if_neg hlost, if_neg hlost]
      obtain ⟨es, -, hsent⟩ := notifyIrq_spec sys sel (v120irqdAck (World.sockets sys) sock w).2
      have hnotified := notifyIrq_effects sys sel (v120irqdAck (World.sockets sys) sock w).2
      rw [hsent.effects, hio.daemon, ClientEffects.mk.injEq] at hnotified
      rw [(hio.trans hsent).effects, List.filterMap_append, hnotified.2.2]
      simp [hmsg]
  · obtain ⟨buf, result, hmsg, hio⟩ := nak_spec sys sock w
    rw [if_neg hfake, if_neg hfake, hio.effects]
    simp [hmsg]

/-- A report changes nothing. -/
theorem clientStatus_effects (sock : ℤ) {buffer : ResponseBuffer} (hmsg : buffer.msg = .serverStatus)
    (w : World σ) :
    effects w (clientMessage sys sock buffer w) =
      ⟨w.daemon.vectorTable, w.daemon.v120Info.map V120Info.irqen, [(sock, .serverStatus, none)]⟩ := by
  obtain ⟨result, -, hio⟩ := msgSend_spec sys sock (buffer.setStatus (buildStatusReport sys w.daemon)) w
  have hmessage : clientMessage sys sock buffer w =
      (v120irqdMsgSend (World.sockets sys) sock (buffer.setStatus (buildStatusReport sys w.daemon)) w).2 := by
    unfold clientMessage
    rw [hmsg]
  rw [hmessage, hio.effects]
  simp [hmsg]

/-- The served message types. -/
theorem served_cases {msg : MessageSelect} (h : msg.served = true) :
    msg = .requestIrq ∨ msg = .releaseIrq ∨ msg = .irqSignal ∨ msg = .serverStatus := by
  cases msg <;> simp_all [MessageSelect.served]

variable (sys) in
/-- The `REQUEST_IRQ` case of the `switch`. -/
theorem clientMessage_request (sock : ℤ) {buffer : ResponseBuffer} (hmsg : buffer.msg = .requestIrq)
    (w : World σ) : clientMessage sys sock buffer w = clientRequest sys sock buffer.selector w := by
  unfold clientMessage
  rw [hmsg]

variable (sys) in
/-- The `RELEASE_IRQ` case of the `switch`. -/
theorem clientMessage_release (sock : ℤ) {buffer : ResponseBuffer} (hmsg : buffer.msg = .releaseIrq)
    (w : World σ) : clientMessage sys sock buffer w = clientRelease sys sock buffer.selector w := by
  unfold clientMessage
  rw [hmsg]

variable (sys) in
/-- The `IRQ_SIGNAL` case of the `switch`. -/
theorem clientMessage_signal (sock : ℤ) {buffer : ResponseBuffer} (hmsg : buffer.msg = .irqSignal)
    (w : World σ) : clientMessage sys sock buffer w = clientFakeIrq sys sock buffer.selector w := by
  unfold clientMessage
  rw [hmsg]

/-- Any other message is ignored. -/
theorem clientMessage_unserved (sock : ℤ) {buffer : ResponseBuffer} (hmsg : buffer.msg.served = false)
    (w : World σ) : clientMessage sys sock buffer w = w := by
  unfold clientMessage
  split <;> simp_all [MessageSelect.served]

/-- A served message is answered. -/
theorem clientMessage_answers (sock : ℤ) {buffer : ResponseBuffer} (hmsg : buffer.msg.served = true)
    (w : World σ) : (effects w (clientMessage sys sock buffer w)).sent ≠ [] := by
  rcases served_cases hmsg with hcase | hcase | hcase | hcase
  · rw [clientMessage_request sys sock hcase, (clientRequest_effects sys sock buffer.selector w).2.1]
    exact List.cons_ne_nil _ _
  · rw [clientMessage_release sys sock hcase, clientRelease_effects sys sock buffer.selector w]
    exact List.cons_ne_nil _ _
  · rw [clientMessage_signal sys sock hcase, clientFakeIrq_effects sys sock buffer.selector w]
    dsimp only
    split <;> exact List.cons_ne_nil _ _
  · rw [clientStatus_effects sock hcase w]
    exact List.cons_ne_nil _ _

end Client

/-- A look-up ignores the payload it is given. -/
theorem findInterrupt_key {sel sel' : V120irqdSelector} (h : SameKey sel sel') (table : VectorTable) :
    findInterrupt sel table = findInterrupt sel' table := by
  obtain ⟨crate, irq, vector, payload⟩ := sel
  obtain ⟨crate', irq', vector', payload'⟩ := sel'
  obtain ⟨rfl, rfl, rfl⟩ : crate = crate' ∧ irq = irq' ∧ vector = vector' := ⟨h.crate, h.irq, h.vector⟩
  rfl

/-- A release ignores the payload it is given. -/
theorem releaseInterrupt_key {sel sel' : V120irqdSelector} (h : SameKey sel sel') (sd : ℤ)
    (table : VectorTable) : releaseInterrupt sd sel table = releaseInterrupt sd sel' table := by
  obtain ⟨crate, irq, vector, payload⟩ := sel
  obtain ⟨crate', irq', vector', payload'⟩ := sel'
  obtain ⟨rfl, rfl, rfl⟩ : crate = crate' ∧ irq = irq' ∧ vector = vector' := ⟨h.crate, h.irq, h.vector⟩
  rfl

/-- What a look-up finds carries the vector that was looked up. -/
theorem findInterrupt_vector {sel found : V120irqdSelector} {table : VectorTable} (sock : ℤ)
    (h : findInterrupt sel table = .ok (sock, found)) : found.vector = sel.vector := by
  unfold findInterrupt at h
  split at h
  · exact absurd h (by simp)
  · obtain ⟨-, rfl⟩ := Prod.mk.inj (Except.ok.inj h)
    rfl

namespace Registry

/-- A refused registration leaves the table alone, and an accepted one ends with the request. -/
theorem registerInterrupt_after (r : Registry) (realloc : Realloc) (sd : ℤ) (request : V120irqdSelector) :
    ((registerInterrupt realloc sd request r.layout).1 < 0 →
        (registerInterrupt realloc sd request r.layout).2 = r.layout) ∧
      (¬ (registerInterrupt realloc sd request r.layout).1 < 0 →
        foreachVector (registerInterrupt realloc sd request r.layout).2 =
          foreachVector r.layout ++ [⟨request, sd⟩]) := by
  rw [r.registerInterrupt_layout]
  rcases r.register_cases realloc sd request with ⟨hneg, hsame⟩ | ⟨hlegal, hzero, -, hentries⟩
  · exact ⟨fun _ => by rw [hsame], fun h => absurd hneg h⟩
  · refine ⟨fun h => absurd h (hzero ▸ Int.lt_irrefl 0), fun _ => ?_⟩
    rw [foreachVector_layout, foreachVector_layout, hentries, List.map_append]
    rfl

/-- A refused release leaves the table alone, and an accepted one drops the key and nothing else. -/
theorem releaseInterrupt_after (r : Registry) (sd : ℤ) (request : V120irqdSelector) :
    ((releaseInterrupt sd request r.layout).1 < 0 →
        (releaseInterrupt sd request r.layout).2 = r.layout) ∧
      (¬ (releaseInterrupt sd request r.layout).1 < 0 →
        (∃ entry ∈ foreachVector r.layout, SameKey entry.selector request) ∧
        ∀ entry, entry ∈ foreachVector (releaseInterrupt sd request r.layout).2 ↔
          entry ∈ foreachVector r.layout ∧ ¬ SameKey entry.selector request) := by
  rw [r.releaseInterrupt_layout]
  rcases r.release_cases sd request with ⟨hneg, hsame⟩ | ⟨hzero, ⟨reg, hreg, howner, hkey⟩, hentries⟩
  · exact ⟨fun _ => by rw [hsame], fun h => absurd hneg h⟩
  · refine ⟨fun h => absurd h (hzero ▸ Int.lt_irrefl 0), fun _ => ⟨⟨reg.entry, ?_, hkey⟩, fun entry => ?_⟩⟩
    · rw [foreachVector_layout]
      exact List.mem_map_of_mem hreg
    · simp only [foreachVector_layout, hentries, List.mem_map, List.mem_filter]
      constructor
      · rintro ⟨other, ⟨hother, hkept⟩, rfl⟩
        refine ⟨⟨other, hother, rfl⟩, fun hsame => ?_⟩
        -- no two registrations share a key, so the one with this key is the owner's
        rw [r.eq_of_key hother hreg hsame hkey] at hkept
        simp [howner, hkey] at hkept
      · rintro ⟨⟨other, hother, rfl⟩, hkept⟩
        have hother' : ¬ SameKey other.selector request := hkept
        exact ⟨other, ⟨hother, by simp [hother']⟩, rfl⟩

end Registry

/-- The received octets settle what `process_client` does for a client in the world it read them in: no
completion of the message has a type that is served; or the type is complete, and so is what the call of
that type looks at, unless every completion is refused alike. -/
inductive Determined {σ : Type*} (sys : System σ) (sock : ℤ) (w : World σ) (len : ℕ) (data : BitVec 160) :
    Prop where
  | unserved (h : ∀ buffer : ResponseBuffer, (buffer.receive len data).msg.served = false)
  | request (hlen : 4 ≤ len) (hmsg : .ofCode (field 0 32 data) = MessageSelect.requestIrq)
      (h : 16 ≤ len ∨ ∀ buffer : ResponseBuffer, (registerInterrupt (sys.reallocTable w.outside).1 sock
        (buffer.receive len data).selector w.daemon.vectorTable).1 < 0)
  | release (hlen : 4 ≤ len) (hmsg : .ofCode (field 0 32 data) = MessageSelect.releaseIrq)
      (h : 12 ≤ len ∨ ∀ buffer : ResponseBuffer,
        (releaseInterrupt sock (buffer.receive len data).selector w.daemon.vectorTable).1 < 0)
  | signal (hlen : 4 ≤ len) (hmsg : .ofCode (field 0 32 data) = MessageSelect.irqSignal)
      (h : 12 ≤ len ∨ w.daemon.allowFakeIrq = false ∨ (v120irqdAck (World.sockets sys) sock w).1 ≠ 0 ∨
        ∀ buffer : ResponseBuffer, ∃ errno,
          findInterrupt (buffer.receive len data).selector w.daemon.vectorTable = .error errno)
  | status (hlen : 4 ≤ len) (hmsg : .ofCode (field 0 32 data) = MessageSelect.serverStatus)

section Completions

variable {len : Fin (responseBufferSize + 1)}

/-- The type of a message of four octets or more is its own. -/
theorem msg_receive (data : BitVec 160) (h : 4 ≤ len.val) (buffer : ResponseBuffer) :
    (buffer.receive len data).msg = .ofCode (field 0 32 data) := by
  have hlen : len.val ≤ 20 := Nat.le_of_lt_succ len.isLt
  rw [ResponseBuffer.msg, ResponseBuffer.field_receive buffer data (by omega) (by omega)]

/-- From twelve octets on the key is the message's own. -/
theorem key_receive (data : BitVec 160) (h : 12 ≤ len.val) (buffer buffer' : ResponseBuffer) :
    SameKey (buffer.receive len data).selector (buffer'.receive len data).selector := by
  have hlen : len.val ≤ 20 := Nat.le_of_lt_succ len.isLt
  have hfield (start n : ℕ) (hend : start + n ≤ 96) : field start n (buffer.receive len data).bits =
      field start n (buffer'.receive len data).bits := by
    rw [ResponseBuffer.field_receive buffer data (by omega) (by omega),
      ResponseBuffer.field_receive buffer' data (by omega) (by omega)]
  exact ⟨hfield 32 16 (by decide), hfield 48 16 (by decide), hfield 64 32 (by decide)⟩

/-- From sixteen octets on the selector is the message's own. -/
theorem selector_receive (data : BitVec 160) (h : 16 ≤ len.val) (buffer buffer' : ResponseBuffer) :
    (buffer.receive len data).selector = (buffer'.receive len data).selector := by
  have hlen : len.val ≤ 20 := Nat.le_of_lt_succ len.isLt
  have hfield (start n : ℕ) (hend : start + n ≤ 128) : field start n (buffer.receive len data).bits =
      field start n (buffer'.receive len data).bits := by
    rw [ResponseBuffer.field_receive buffer data (by omega) (by omega),
      ResponseBuffer.field_receive buffer' data (by omega) (by omega)]
  rw [ResponseBuffer.selector, ResponseBuffer.selector, hfield 32 16 (by decide), hfield 48 16 (by decide),
    hfield 64 32 (by decide), hfield 96 32 (by decide)]

/-- Below four octets some completion has a type that is not served. -/
theorem exists_unserved (data : BitVec 160) (h : len.val < 4) :
    ∃ buffer : ResponseBuffer, (buffer.receive len data).msg.served = false := by
  refine ⟨⟨BitVec.allOnes 160⟩, not_served_of_bit ?_⟩
  rw [field, BitVec.getLsbD_extractLsb', ResponseBuffer.getLsbD_receive, if_neg (by omega)]
  simp

end Completions

section Client

variable {σ : Type*} {sys : System σ} {sock : ℤ} {w : World σ} {len : Fin (responseBufferSize + 1)}
  {data : BitVec 160}

/-- When the received octets settle what is done, the old contents do not matter. -/
theorem Determined.effects_eq {r : Registry} (htable : w.daemon.vectorTable = r.layout)
    (h : Determined sys sock w len data) (buffer buffer' : ResponseBuffer) :
    effects w (clientMessage sys sock (buffer.receive len data) w) =
      effects w (clientMessage sys sock (buffer'.receive len data) w) := by
  cases h with
  | unserved h =>
    rw [clientMessage_unserved sock (h buffer) w, clientMessage_unserved sock (h buffer') w]
  | request hlen hmsg h =>
    have hcase (buffer : ResponseBuffer) := clientMessage_request sys sock
      ((msg_receive data hlen buffer).trans hmsg) w
    rw [hcase buffer, hcase buffer']
    rcases h with hfull | hrefused
    · rw [selector_receive data hfull buffer buffer']
    · have hsame (buffer : ResponseBuffer) :
          effects w (clientRequest sys sock (buffer.receive len data).selector w) =
            ⟨w.daemon.vectorTable, w.daemon.v120Info.map V120Info.irqen, [(sock, .nak, none)]⟩ := by
        obtain ⟨hafter, hsent, hmasks⟩ := clientRequest_effects sys sock
          (buffer.receive len data).selector w
        have hneg := hrefused buffer
        rw [htable] at hneg hafter hsent
        refine ClientEffects.ext ?_ (hmasks (htable ▸ hneg)) ?_
        · rw [hafter, (r.registerInterrupt_after _ _ _).1 hneg, htable]
        · rw [hsent, if_pos hneg]
      rw [hsame buffer, hsame buffer']
  | release hlen hmsg h =>
    have hcase (buffer : ResponseBuffer) := clientMessage_release sys sock
      ((msg_receive data hlen buffer).trans hmsg) w
    rw [hcase buffer, hcase buffer', clientRelease_effects, clientRelease_effects]
    rcases h with hfull | hrefused
    · rw [releaseInterrupt_key (key_receive data hfull buffer buffer')]
    · have hsame (buffer : ResponseBuffer) :
          (releaseInterrupt sock (buffer.receive len data).selector w.daemon.vectorTable).2 =
            w.daemon.vectorTable := by
        have hneg := hrefused buffer
        rw [htable] at hneg ⊢
        exact (r.releaseInterrupt_after _ _).1 hneg
      rw [hsame buffer, hsame buffer', if_pos (hrefused buffer), if_pos (hrefused buffer')]
  | signal hlen hmsg h =>
    have hcase (buffer : ResponseBuffer) := clientMessage_signal sys sock
      ((msg_receive data hlen buffer).trans hmsg) w
    rw [hcase buffer, hcase buffer', clientFakeIrq_effects, clientFakeIrq_effects]
    rcases h with hfull | hfake | hlost | hnone
    · rw [findInterrupt_key (key_receive data hfull buffer buffer')]
    · rw [hfake]
      rfl
    · rw [if_pos hlost, if_pos hlost]
    · obtain ⟨errno, hfind⟩ := hnone buffer
      obtain ⟨errno', hfind'⟩ := hnone buffer'
      rw [hfind, hfind']
  | status hlen hmsg =>
    rw [clientStatus_effects sock ((msg_receive data hlen buffer).trans hmsg) w,
      clientStatus_effects sock ((msg_receive data hlen buffer').trans hmsg) w]

/-- An accepted `REQUEST_IRQ` whose payload is not complete registers what the buffer held before. -/
theorem request_settled {r : Registry} (htable : w.daemon.vectorTable = r.layout) (hfour : 4 ≤ len.val)
    (hmsg : .ofCode (field 0 32 data) = MessageSelect.requestIrq) (hshort : len.val < 16)
    (h : ∀ buffer buffer' : ResponseBuffer,
      effects w (clientMessage sys sock (buffer.receive len data) w) =
        effects w (clientMessage sys sock (buffer'.receive len data) w)) (buffer : ResponseBuffer) :
    (registerInterrupt (sys.reallocTable w.outside).1 sock (buffer.receive len data).selector
      w.daemon.vectorTable).1 < 0 := by
  by_contra haccepted
  have heffects := h buffer (buffer.flip 127)
  rw [clientMessage_request sys sock ((msg_receive data hfour buffer).trans hmsg),
    clientMessage_request sys sock ((msg_receive data hfour (buffer.flip 127)).trans hmsg),
    buffer.receive_flip data (by omega)] at heffects
  obtain ⟨hafter, hsent, -⟩ := clientRequest_effects sys sock (buffer.receive len data).selector w
  obtain ⟨hafter', hsent', -⟩ := clientRequest_effects sys sock
    ((buffer.receive len data).flip 127).selector w
  rw [← heffects] at hafter' hsent'
  rw [hsent, if_neg haccepted] at hsent'
  have haccepted' : ¬ (registerInterrupt (sys.reallocTable w.outside).1 sock
      ((buffer.receive len data).flip 127).selector w.daemon.vectorTable).1 < 0 := by
    intro hrefused
    rw [if_pos hrefused] at hsent'
    exact absurd hsent' (by simp)
  have htables := congrArg foreachVector (hafter.symm.trans hafter')
  rw [htable] at haccepted haccepted' htables
  rw [(r.registerInterrupt_after _ _ _).2 haccepted, (r.registerInterrupt_after _ _ _).2 haccepted',
    List.append_cancel_left_eq] at htables
  have hselector := congrArg TableT.selector (List.cons.inj htables).1
  exact (buffer.receive len data).payload_flip_ne (congrArg V120irqdSelector.payload hselector.symm)

/-- An accepted `RELEASE_IRQ` whose key is not complete releases what the buffer held before. -/
theorem release_settled {r : Registry} (htable : w.daemon.vectorTable = r.layout) (hfour : 4 ≤ len.val)
    (hmsg : .ofCode (field 0 32 data) = MessageSelect.releaseIrq) (hshort : len.val < 12)
    (h : ∀ buffer buffer' : ResponseBuffer,
      effects w (clientMessage sys sock (buffer.receive len data) w) =
        effects w (clientMessage sys sock (buffer'.receive len data) w)) (buffer : ResponseBuffer) :
    (releaseInterrupt sock (buffer.receive len data).selector w.daemon.vectorTable).1 < 0 := by
  by_contra haccepted
  have heffects := h buffer (buffer.flip 95)
  rw [clientMessage_release sys sock ((msg_receive data hfour buffer).trans hmsg),
    clientMessage_release sys sock ((msg_receive data hfour (buffer.flip 95)).trans hmsg),
    buffer.receive_flip data (by omega), clientRelease_effects, clientRelease_effects,
    ClientEffects.mk.injEq] at heffects
  obtain ⟨htables, -, hsent⟩ := heffects
  have haccepted' : ¬ (releaseInterrupt sock ((buffer.receive len data).flip 95).selector
      w.daemon.vectorTable).1 < 0 := by
    intro hrefused
    rw [if_neg haccepted, if_pos hrefused] at hsent
    exact absurd hsent (by simp)
  rw [htable] at haccepted haccepted' htables
  obtain ⟨⟨entry, hentry, hkey⟩, hleft⟩ := (r.releaseInterrupt_after _ _).2 haccepted
  have hleft' := ((r.releaseInterrupt_after _ _).2 haccepted').2
  -- the entry released in one run stays in the other, whose key differs in the last octet
  have hother : ¬ SameKey entry.selector ((buffer.receive len data).flip 95).selector := fun hsame =>
    (buffer.receive len data).vector_flip_ne (hsame.vector.symm.trans hkey.vector)
  exact ((hleft entry).mp (htables ▸ (hleft' entry).mpr ⟨hentry, hother⟩)).2 hkey

/-- A fake interrupt whose key is not complete is sent for what the buffer held before. -/
theorem signal_settled (hfour : 4 ≤ len.val)
    (hmsg : .ofCode (field 0 32 data) = MessageSelect.irqSignal) (hshort : len.val < 12)
    (hfake : w.daemon.allowFakeIrq = true)
    (hsent : ¬ (v120irqdAck (World.sockets sys) sock w).1 ≠ 0)
    (h : ∀ buffer buffer' : ResponseBuffer,
      effects w (clientMessage sys sock (buffer.receive len data) w) =
        effects w (clientMessage sys sock (buffer'.receive len data) w)) (buffer : ResponseBuffer) :
    ∃ errno, findInterrupt (buffer.receive len data).selector w.daemon.vectorTable = .error errno := by
  have heffects := h buffer (buffer.flip 95)
  rw [clientMessage_signal sys sock ((msg_receive data hfour buffer).trans hmsg),
    clientMessage_signal sys sock ((msg_receive data hfour (buffer.flip 95)).trans hmsg),
    buffer.receive_flip data (by omega), clientFakeIrq_effects, clientFakeIrq_effects,
    ClientEffects.mk.injEq, if_pos hfake, if_pos hfake, if_neg hsent, if_neg hsent] at heffects
  have hnotices := (List.cons.inj heffects.2.2).2
  cases hfind : findInterrupt (buffer.receive len data).selector w.daemon.vectorTable with
  | error errno => exact ⟨errno, rfl⟩
  | ok found =>
    cases hfind' : findInterrupt ((buffer.receive len data).flip 95).selector w.daemon.vectorTable with
    | error errno =>
      rw [hfind, hfind'] at hnotices
      exact absurd hnotices (by simp)
    | ok found' =>
      rw [hfind, hfind'] at hnotices
      have hsame : found.2 = found'.2 := by simpa using congrArg (fun l => l.map fun p => p.2.2) hnotices
      have hvector : found.2.vector = found'.2.vector := congrArg V120irqdSelector.vector hsame
      rw [findInterrupt_vector found.1 hfind, findInterrupt_vector found'.1 hfind']
        at hvector
      exact absurd hvector.symm (buffer.receive len data).vector_flip_ne

/-- When the old contents do not matter, the received octets settle what is done. -/
theorem determined_of_effects_eq {r : Registry} (htable : w.daemon.vectorTable = r.layout)
    (h : ∀ buffer buffer' : ResponseBuffer,
      effects w (clientMessage sys sock (buffer.receive len data) w) =
        effects w (clientMessage sys sock (buffer'.receive len data) w)) :
    Determined sys sock w len data := by
  by_cases hunserved : ∀ buffer : ResponseBuffer, (buffer.receive len data).msg.served = false
  · exact .unserved hunserved
  · simp only [not_forall, Bool.not_eq_false] at hunserved
    obtain ⟨first, hfirst⟩ := hunserved
    have hfour : 4 ≤ len.val := by
      by_contra hshort
      obtain ⟨other, hother⟩ := exists_unserved data (Nat.lt_of_not_le hshort)
      have hsent := congrArg ClientEffects.sent (h first other)
      rw [clientMessage_unserved sock hother w, (Io.refl w).effects] at hsent
      exact clientMessage_answers sock hfirst w hsent
    have htype := msg_receive data hfour first
    rcases served_cases hfirst with hcase | hcase | hcase | hcase
    · have hmsg := htype.symm.trans hcase
      refine .request hfour hmsg ((Nat.lt_or_ge len.val 16).symm.imp_right fun hshort => ?_)
      exact request_settled htable hfour hmsg hshort h
    · have hmsg := htype.symm.trans hcase
      refine .release hfour hmsg ((Nat.lt_or_ge len.val 12).symm.imp_right fun hshort => ?_)
      exact release_settled htable hfour hmsg hshort h
    · have hmsg := htype.symm.trans hcase
      refine .signal hfour hmsg ((Nat.lt_or_ge len.val 12).symm.imp_right fun hshort => ?_)
      cases hfake : w.daemon.allowFakeIrq with
      | false => exact Or.inl rfl
      | true =>
        by_cases hlost : (v120irqdAck (World.sockets sys) sock w).1 ≠ 0
        · exact Or.inr (Or.inl hlost)
        · exact Or.inr (Or.inr (signal_settled hfour hmsg hshort hfake hlost h))
    · exact .status hfour (htype.symm.trans hcase)

/-- **When the old contents of the buffer do not matter.** In every reachable state, for every index and
every message that is read, all runs of `process_client` on it leave the same table, the same masks, the
same notifications and the same kinds of replies, whatever the buffer held before, exactly when the
received octets settle what is done. -/
theorem processClient_determined_iff {st : Startup} {d : Daemon} (hinit : initializeDaemon st = some d)
    (s : σ) {w : World σ} (hrun : DaemonRun sys ⟨d, s, []⟩ w) (idx : ℕ)
    {len : Fin (responseBufferSize + 1)} {data : BitVec 160}
    (hread : (clientRead sys idx w).1 = .data len data) (hlen : 0 < len.val) :
    (∀ buffer buffer' : ResponseBuffer,
        clientEffects sys buffer idx w = clientEffects sys buffer' idx w) ↔
      Determined sys (w.pollfd sys idx).fd (clientRead sys idx w).2 len data := by
  obtain ⟨r, htable, -⟩ := reachable_registry hinit hrun
  have htable₁ : (clientRead sys idx w).2.daemon.vectorTable = r.layout := htable
  simp only [clientEffects_message hread hlen]
  exact ⟨fun h => determined_of_effects_eq htable₁ h, fun h buffer buffer' => h.effects_eq htable₁ buffer buffer'⟩

end Client

/-- A start-up without crates. -/
def plainStartup : Startup :=
  ⟨fun _ => none, 4, fun _ => .failed, .moved fun _ => ⟨0, 0, 0⟩, true, false⟩

/-- An outside in which client 3 connects and each `read` gets the same octets. -/
def sends (len : Fin (responseBufferSize + 1)) (data : BitVec 160) : System Unit :=
  { System.silent with
    sockets := ⟨fun _ _ s => (none, s), fun _ s => (.data len data, s), fun s => (⟨0⟩, s)⟩ }

/-- A complete request is settled by its octets. -/
theorem processClient_determined_complete :
    let asks := (((⟨0⟩ : ResponseBuffer).setMsg .requestIrq).setSelector ⟨1, 2, anyVector, 7⟩).bits
    let sys := sends (Fin.last responseBufferSize) asks
    let d : Daemon := ⟨⟨[⟨4, pollin, 0⟩], 1⟩, [], [], true⟩
    let w := (serviceFd sys 0 0 ⟨d, (), []⟩).world
    initializeDaemon plainStartup = some d ∧
      ∀ buffer buffer' : ResponseBuffer,
        clientEffects sys buffer 1 w = clientEffects sys buffer' 1 w := by
  intro asks sys d w
  have hinit : initializeDaemon plainStartup = some d := rfl
  have hrun : DaemonRun sys ⟨d, (), []⟩ w := .single (.serviced 0 0 (by decide) (Or.inl rfl))
  have hread : (clientRead sys 1 w).1 = .data (Fin.last responseBufferSize) asks := rfl
  refine ⟨hinit, (processClient_determined_iff hinit () hrun 1 hread (by decide)).mpr ?_⟩
  exact .request (by decide) (by decide) (Or.inl (by decide))

/-- Four octets that say `REQUEST_IRQ` are refused behind an empty buffer, and register the selector
that is left over in a buffer that held one. -/
theorem processClient_registers_leftover :
    let truncated := ((⟨0⟩ : ResponseBuffer).setMsg .requestIrq).bits
    let sys := sends 4 truncated
    let d : Daemon := ⟨⟨[⟨4, pollin, 0⟩], 1⟩, [], [], true⟩
    let w := (serviceFd sys 0 0 ⟨d, (), []⟩).world
    let leftover := (⟨0⟩ : ResponseBuffer).setSelector ⟨1, 2, anyVector, 7⟩
    initializeDaemon plainStartup = some d ∧ DaemonRun sys ⟨d, (), []⟩ w ∧
      (clientRead sys 1 w).1 = .data 4 truncated ∧
      foreachVector (clientEffects sys ⟨0⟩ 1 w).table = [] ∧
      (clientEffects sys ⟨0⟩ 1 w).sent = [(3, .nak, none)] ∧
      foreachVector (clientEffects sys leftover 1 w).table = [⟨⟨1, 2, anyVector, 7⟩, 3⟩] ∧
      (clientEffects sys leftover 1 w).sent = [(3, .ack, none)] := by
  intro truncated sys d w leftover
  have hrun : DaemonRun sys ⟨d, (), []⟩ w := .single (.serviced 0 0 (by decide) (Or.inl rfl))
  exact ⟨rfl, hrun, rfl, by decide, by decide, by decide, by decide⟩

end V120.Irqd
