import V120.Irqd.Accounts

/-!
# Requests that cross a signal

Both sides send first and take the next message they read for the answer. When a signal crosses a
request, the daemon takes the request for the answer to its signal and the client takes the signal
for the answer to its request: the request is lost. Without a crossing each request and release
is served and answered once, and its own call reads the answer.
-/

namespace V120.Irqd

open V120.Common

/-- The message of a call asks for a change of the table exactly when the call does. -/
theorem Call.Sends.asks {call : Call} {buf : ResponseBuffer} (h : call.Sends buf) :
    buf.asks = call.asks := by
  have hmsg := h.message
  cases call <;> simp only [Call.message, Option.some.injEq, reduceCtorEq] at hmsg <;>
    simp [ResponseBuffer.asks, Call.asks, ← hmsg]

/-- A request or a release is served by the table call of its kind. -/
theorem Call.served (fake : Bool) {c ret : ℤ} {call : Call} {sel : V120irqdSelector}
    {table table' : VectorTable} {e : Event} (stale : ResponseBuffer)
    (hcall : (call = .request sel ∧ e = .register c sel ret ∧
        ∃ realloc, registerInterrupt realloc c sel table = (ret, table')) ∨
      (call = .release sel ∧ e = .release c sel ret ∧ releaseInterrupt c sel table = (ret, table'))) :
    ∃ buf point, call.sends stale = [buf] ∧ buf.asks = true ∧
      ServerPoint.ofMessage fake c buf.msg buf.selector = point ∧
      (point = .requesting c sel ∨ point = .releasing c sel) ∧
      ServerStep fake e (point, table) (.answering c (if ret < 0 then .nak else .ack), table') := by
  obtain ⟨-, -, hrequest, hrelease, -⟩ := ResponseBuffer.msg_setMsg_named stale
  rcases hcall with ⟨rfl, rfl, realloc, hregister⟩ | ⟨rfl, rfl, hreleased⟩
  · refine ⟨(stale.setMsg .requestIrq).setSelector sel, .requesting c sel, Call.sends_eq stale _, ?_,
      ?_, Or.inl rfl, .registered realloc hregister⟩
    · simp [asks_iff, hrequest]
    · simp [hrequest, ServerPoint.ofMessage]
  · refine ⟨(stale.setMsg .releaseIrq).setSelector sel, .releasing c sel, Call.sends_eq stale _, ?_,
      ?_, Or.inr rfl, .released hreleased⟩
    · simp [asks_iff, hrelease]
    · simp [hrelease, ServerPoint.ofMessage]

/-- The code of a request or release that reads the answer to it. -/
theorem Call.returns_answer {call : Call} (hcall : call.asks = true) (stale reply : ResponseBuffer)
    {ret : ℤ} (hreply : reply.msg = if ret < 0 then .nak else .ack) :
    call.returns stale reply = if ret < 0 then -eperm else 0 := by
  have hacknowledged : acknowledged 20 reply = if ret < 0 then -eperm else 0 := by
    obtain ⟨hzero, heperm⟩ := acknowledged_all reply
    split
    · next hneg => exact heperm.mpr (by rw [hreply, if_pos hneg])
    · next hneg => exact hzero.mpr (by rw [hreply, if_neg hneg])
  rw [Call.returns_eq]
  cases call <;> first | exact hacknowledged | exact absurd hcall (by decide)

/-- A request or a release of a client with nothing under way is served, answered and returns. -/
theorem call_completes (fake : Bool) (n : Net) (c ret : ℤ) (call : Call) {sel : V120irqdSelector}
    {table : VectorTable} {e : Event} (stale : ResponseBuffer) (hready : n.point = .ready)
    (hphase : (n.client c).phase = .idle) (hserver : (n.client c).toServer = [])
    (hclient : (n.client c).toClient = [])
    (hcall : (call = .request sel ∧ e = .register c sel ret ∧
        ∃ realloc, registerInterrupt realloc c sel n.table = (ret, table)) ∨
      (call = .release sel ∧ e = .release c sel ret ∧
        releaseInterrupt c sel n.table = (ret, table))) :
    ∃ ls n' n'', Run (UncrossedStep fake c) ls n n' ∧
      UncrossedStep fake c (.finish c call (if ret < 0 then -eperm else 0)) n' n'' ∧
      n''.point = .ready ∧ n''.table = table ∧
      n''.client c = { n.client c with
        calls := (n.client c).calls + 1
        served := (n.client c).served ++ [⟨(n.client c).calls + 1, n.table, table⟩]
        asked := (n.client c).asked ++ [(n.client c).calls + 1]
        answered := (n.client c).answered ++ [(n.client c).calls + 1] } := by
  obtain ⟨buf, point, hsends, hasks, hmessage, hrequest, hserve⟩ := Call.served fake stale hcall
  have hcallAsks : call.asks = true := by rcases hcall with ⟨rfl, -⟩ | ⟨rfl, -⟩ <;> rfl
  obtain ⟨reply, hreply⟩ : ∃ reply : ResponseBuffer, reply.msg = if ret < 0 then .nak else .ack := by
    obtain ⟨hnak, hack, -⟩ := ResponseBuffer.msg_setMsg_named ⟨0⟩
    split
    · exact ⟨_, hnak⟩
    · exact ⟨_, hack⟩
  have hread : ServerStep fake (.read c (.message buf)) (.receiving c, n.table) (point, n.table) :=
    hmessage ▸ .receive fake c buf n.table
  let number := (n.client c).calls + 1
  let n₁ : Net := { n with client := n.update c (Client.call call stale) }
  let n₂ : Net := { n₁ with point := .receiving c }
  let n₃ : Net := { n₂ with
    point := point, client := n₂.update c fun k => { k with toServer := [] }, reading := ⟨buf, number⟩ }
  let n₄ : Net := { n₃ with
    point := .answering c (if ret < 0 then .nak else .ack)
    table := table
    client := n₃.update c fun k => { k with served := k.served ++ [⟨number, n.table, table⟩] } }
  let n₅ : Net := { n₄ with
    point := .ready
    client := n₄.update c fun k =>
      { k with
        toClient := k.toClient ++ [⟨reply, number⟩]
        answered := k.answered ++ if buf.asks then [number] else [] } }
  let n₆ : Net := { n₅ with
    client := n₅.update c (Client.finish call (call.returns stale reply) ⟨reply, number⟩ []) }
  have hcalled : n₁.client c = { n.client c with
      phase := .busy call stale
      calls := number
      toServer := [⟨buf, number⟩]
      asked := (n.client c).asked ++ [number] } := by
    simp [n₁, Client.call, hsends, hserver, hasks, number]
  have hreplied : n₅.client c = { n₁.client c with
      toServer := []
      toClient := [⟨reply, number⟩]
      served := (n.client c).served ++ [⟨number, n.table, table⟩]
      answered := (n.client c).answered ++ [number] } := by
    simp [n₅, n₄, n₃, n₂, hcalled, hasks, hclient]
  have h₁ : NetStep fake (.call c call) n n₁ := .call call stale hphase
  have h₂ : NetStep fake (.server (.processClient c)) n₁ n₂ :=
    .inside (Or.inl hready) (by rw [show n₁.point = .ready from hready]; exact .processClient c n.table)
  have h₃ : NetStep fake (.server (.read c (.message buf))) n₂ n₃ :=
    .received (m := ⟨buf, number⟩) rfl (congrArg Client.toServer hcalled) hread
  have h₄ : NetStep fake (.server e) n₃ n₄ := .tabled hrequest hserve
  have h₅ : NetStep fake (.server (.write c reply none)) n₄ n₅ := .answered rfl (.answered none hreply)
  have h₆ : NetStep fake (.finish c call (call.returns stale reply)) n₅ n₆ :=
    .finish (m := ⟨reply, number⟩) (by rw [hreplied, hcalled]) (by rw [hreplied])
  rw [← Call.returns_answer hcallAsks stale reply hreply]
  refine ⟨_, n₅, n₆, .cons ⟨h₁, ?_⟩ (.cons ⟨h₂, trivial⟩ (.cons ⟨h₃, trivial⟩ (.cons ⟨h₄, ?_⟩
    (.single ⟨h₅, ?_⟩)))), ⟨h₆, trivial⟩, rfl, rfl, ?_⟩
  · intro _ _ m hm
    rw [hclient] at hm
    exact absurd hm (by simp)
  · rcases hcall with ⟨-, rfl, -⟩ | ⟨-, rfl, -⟩ <;> trivial
  · intro _ hsignal
    rw [hreply] at hsignal
    by_cases hret : ret < 0 <;> simp [hret] at hsignal
  · have hnot : ¬ (call = .getinterrupt ∧ call.returns stale reply = 0) := by
      rcases hcall with ⟨rfl, -⟩ | ⟨rfl, -⟩ <;> simp
    simp only [n₆, Net.update_self, Client.finish, hreplied, hcalled, if_neg hnot, hphase, hserver,
      hclient, number]

/-- `notify_irq` takes a request for the answer to its signal. -/
theorem notifyIrq_crossed {w : World (List ResponseBuffer)} {c : ℤ} {sel found : V120irqdSelector}
    (stale : ResponseBuffer) {request : ResponseBuffer} (hasks : request.asks = true)
    (hfind : findInterrupt sel w.daemon.vectorTable = .ok (c, found)) :
    let sys : System (List ResponseBuffer) := { System.silent with sockets := reliable stale request }
    (notifyIrq sys sel w).1 = -ebadmsg ∧
      (notifyIrq sys sel w).2.trace = w.trace ++ [.lookup sel,
        .write c ((stale.setMsg .irqSignal).setSelector found) none, .read c (.message request)] := by
  intro sys
  have hcode : acknowledged 20 request = -ebadmsg := by
    rcases (asks_iff request).mp hasks with hmsg | hmsg <;> simp [acknowledged, hmsg]
  have hlog : findInterrupt sel (w.log (.lookup sel)).daemon.vectorTable = .ok (c, found) := hfind
  have hstale (w : World (List ResponseBuffer)) : (World.sockets sys).stale w = (stale, w) := rfl
  have hsend (buf : ResponseBuffer) (w : World (List ResponseBuffer)) :
      v120irqdMsgSend (World.sockets sys) c buf w =
        (20, { w with outside := w.outside ++ [buf], trace := w.trace ++ [.write c buf none] }) := rfl
  have hrecv (buf : ResponseBuffer) (w : World (List ResponseBuffer)) :
      v120IrqdMsgRecv (World.sockets sys) c buf w =
        (20, request, { w with trace := w.trace ++ [.read c (.message request)] }) := by
    change (_, (Received.message request).fill buf, _) = _
    rw [Received.fill_message]
    rfl
  have hlen : ¬ (20 : ℤ) < 0 := by decide
  simp only [notifyIrq, hlog, v120irqdInterrupt, handshake, hstale, hsend, hrecv, if_neg hlen]
  exact ⟨hcode, by simp [World.log]⟩

/-- A request that a signal to the same client crosses is read by the daemon as the answer to the
signal: nobody serves it, and the call fails. -/
theorem request_lost (fake : Bool) {n : Net} {c : ℤ} {sel found : V120irqdSelector}
    (stale : ResponseBuffer) (wanted : V120irqdSelector) (hready : n.point = .ready)
    (hphase : (n.client c).phase = .idle) (hserver : (n.client c).toServer = [])
    (hclient : (n.client c).toClient = []) (hfind : findInterrupt sel n.table = .ok (c, found)) :
    let signal := (stale.setMsg .irqSignal).setSelector found
    let request := (stale.setMsg .requestIrq).setSelector wanted
    ∃ n', Run (NetStep fake) [.server (.lookup sel), .call c (.request wanted),
        .server (.write c signal none), .server (.read c (.message request)),
        .finish c (.request wanted) (-ebadmsg)] n n' ∧
      n'.point = .ready ∧ n'.table = n.table ∧
      n'.client c = { n.client c with
        calls := (n.client c).calls + 1
        asked := (n.client c).asked ++ [(n.client c).calls + 1] } := by
  intro signal request
  obtain ⟨-, -, hrequest, -, hsignal, -⟩ := ResponseBuffer.msg_setMsg_named stale
  have hasks : request.asks = true := by simp [request, asks_iff, hrequest]
  have hmsg : signal.msg = .irqSignal := by simp [signal, hsignal]
  have hsends : (Call.request wanted).sends stale = [request] := Call.sends_eq stale _
  have hcode : (Call.request wanted).returns stale signal = -ebadmsg := by
    rw [Call.returns_eq]
    simp [acknowledged, hmsg]
  let number := (n.client c).calls + 1
  let n₁ : Net := { n with point := .signalling c found }
  let n₂ : Net := { n₁ with client := n₁.update c (Client.call (.request wanted) stale) }
  let n₃ : Net := { n₂ with
    point := .awaiting c
    client := n₂.update c fun k => { k with toClient := k.toClient ++ [⟨signal, n.signals + 1⟩] }
    signals := n.signals + 1 }
  let n₄ : Net := { n₃ with point := .ready, client := n₃.update c fun k => { k with toServer := [] } }
  let n₅ : Net := { n₄ with
    client := n₄.update c (Client.finish (.request wanted)
      ((Call.request wanted).returns stale signal) ⟨signal, n.signals + 1⟩ []) }
  have hcalled : n₂.client c = { n.client c with
      phase := .busy (.request wanted) stale
      calls := number
      toServer := [⟨request, number⟩]
      asked := (n.client c).asked ++ [number] } := by
    simp [n₂, n₁, Client.call, hsends, hserver, hasks, number]
  have hsignalled : n₃.client c = { n₂.client c with toClient := [⟨signal, n.signals + 1⟩] } := by
    simp [n₃, hcalled, hclient]
  have hread : n₄.client c = { n₃.client c with toServer := [] } := by simp [n₄]
  have h₁ : NetStep fake (.server (.lookup sel)) n n₁ :=
    .inside (Or.inl hready) (by rw [hready]; exact .matched hfind)
  have h₂ : NetStep fake (.call c (.request wanted)) n₁ n₂ := .call _ stale hphase
  have h₃ : NetStep fake (.server (.write c signal none)) n₂ n₃ :=
    .signalled rfl (.signalled hmsg (ResponseBuffer.selector_setSelector _ _))
  have h₄ : NetStep fake (.server (.read c (.message request))) n₃ n₄ :=
    .settled (m := ⟨request, number⟩) rfl (by rw [hsignalled, hcalled]) (.settled c _ _)
  have h₅ : NetStep fake (.finish c (.request wanted) (-ebadmsg)) n₄ n₅ := by
    rw [← hcode]
    exact .finish (m := ⟨signal, n.signals + 1⟩) (by rw [hread, hsignalled, hcalled])
      (by rw [hread, hsignalled])
  refine ⟨n₅, .cons h₁ (.cons h₂ (.cons h₃ (.cons h₄ (.single h₅)))), rfl, rfl, ?_⟩
  simp [n₅, Client.finish, hread, hsignalled, hcalled, hphase, hserver, hclient, number]

/-- No signal and no request of a client is taken for an answer. -/
structure Orderly (n : Net) (c : ℤ) : Prop where
  awaiting : n.point = .awaiting c → ∀ m ∈ (n.client c).toServer.head?, m.buf.asks = false
  waiting : ∀ call stale, (n.client c).phase = .busy call stale → call.asks = true →
    ∀ m ∈ (n.client c).toClient.head?, m.IsAnswer
  current : ∀ call stale, (n.client c).phase = .busy call stale → call.asks = true →
    (n.client c).calls ∈ (n.client c).asked
  account : n.account c = (n.client c).asked

/-- A client that has nothing in its queue while it waits for the answer to a request has not been
served yet. -/
theorem Paired.of_silent {v : View} (h : Paired v) {call : Call} {stale : ResponseBuffer}
    (hstage : v.stage = .away) (hphase : v.phase = .busy call stale) (hcall : call.asks = true)
    (hempty : v.toClient = []) : ∃ m ∈ v.toServer, m.buf.asks = true := by
  cases h <;> simp only [reduceCtorEq] at hstage hphase hempty
  next hresting =>
    subst hphase
    obtain rfl := hresting.call_eq
    exact absurd hcall (by decide)
  next hm =>
    obtain ⟨rfl, -⟩ := Phase.busy.inj hphase
    exact ⟨_, List.mem_singleton_self _, hm.sent.asks.trans hcall⟩

/-- An idle client that has answered no signal yet has the signal in its queue. -/
theorem Paired.of_unanswered {v : View} (h : Paired v) {signal : ℕ} (hstage : v.stage = .awaiting signal)
    (hphase : v.phase = .idle) (hempty : v.toServer = []) :
    ∃ s ∈ v.toClient, s.buf.msg = .irqSignal := by
  cases h <;> simp only [reduceCtorEq] at hstage hphase hempty
  next hresting hs => exact ⟨_, List.mem_singleton_self _, hs.msg⟩

/-- A queue to which something was added, as far as its first message goes. -/
theorem head_append {m : Message} {queue more : List Message} (h : m ∈ (queue ++ more).head?) :
    m ∈ queue.head? ∨ (queue = [] ∧ m ∈ more.head?) := by
  cases queue with
  | nil => exact Or.inr ⟨rfl, h⟩
  | cons first rest => exact Or.inl h

/-- What comes of a step that leads to no signal and sends the client nothing. -/
theorem Orderly.of_quiet {n n' : Net} {c : ℤ} (h : Orderly n c) (hpoint : n'.point ≠ .awaiting c)
    (hphase : (n'.client c).phase = (n.client c).phase)
    (hclient : (n'.client c).toClient = (n.client c).toClient)
    (hcalls : (n'.client c).calls = (n.client c).calls)
    (hasked : (n'.client c).asked = (n.client c).asked)
    (haccount : n'.account c = (n'.client c).asked) : Orderly n' c where
  awaiting hawaiting := absurd hawaiting hpoint
  waiting := by
    rw [hphase, hclient]
    exact h.waiting
  current := by
    rw [hphase, hcalls, hasked]
    exact h.current
  account := haccount

/-- Without a crossing no message is lost. -/
theorem Orderly.account_step {fake : Bool} {l : NetLabel} {n n' : Net} {c : ℤ} (h : Orderly n c)
    (hstep : NetStep fake l n n') : n'.account c = (n'.client c).asked := by
  cases hstep.account c with
  | same haccount hasked hcalls => rw [haccount, hasked, h.account]
  | asked more hmore haccount hasked hcalls => rw [haccount, hasked, h.account]
  | lost m rest hpoint hqueue hasks haccount hasked hcalls =>
    have hkept := h.awaiting hpoint m (by rw [hqueue]; rfl)
    exact absurd (hasks.symm.trans hkept) (by decide)

/-- `process_client` never waits for the answer to a signal right after it has read a message. -/
theorem ofMessage_ne_awaiting (fake : Bool) (c d : ℤ) (msg : MessageSelect) (sel : V120irqdSelector) :
    ServerPoint.ofMessage fake c msg sel ≠ .awaiting d := by
  cases msg <;> simp [ServerPoint.ofMessage]

/-- A signal that crosses nothing. -/
theorem Orderly.signalled {n n' : Net} {c : ℤ} {sel : V120irqdSelector} {buf : ResponseBuffer}
    (h : Orderly n c) (hpaired : Paired (n.view c)) (hpoint : n.point = .signalling c sel)
    (hmsg : buf.msg = .irqSignal) (huncrossed : n.Uncrossed c (.server (.write c buf none)))
    (hnext : n' = { n with
      point := .awaiting c
      client := n.update c fun k => { k with toClient := k.toClient ++ [⟨buf, n.signals + 1⟩] }
      signals := n.signals + 1 })
    (haccount : n'.account c = (n'.client c).asked) : Orderly n' c := by
  subst hnext
  refine ⟨?_, ?_, by simpa using h.current, haccount⟩ <;> simp only [Net.update_self]
  · intro _ m hm
    exact huncrossed rfl hmsg m (List.mem_of_mem_head? hm)
  · intro call stale hphase hcall m hm
    rcases head_append hm with hm | ⟨hempty, -⟩
    · exact h.waiting call stale hphase hcall m hm
    · -- the request is still unread, so the signal would cross it
      have hstage : (n.view c).stage = .away := by simp [Net.view, Net.stage, hpoint]
      obtain ⟨m', hm', hasks⟩ := hpaired.of_silent hstage hphase hcall hempty
      exact absurd (hasks.symm.trans (huncrossed rfl hmsg m' hm')) (by decide)

/-- An answer to a request or release. -/
theorem Orderly.answered {n n' : Net} {c : ℤ} {msg : MessageSelect} {buf : ResponseBuffer}
    (h : Orderly n c) (hpaired : Paired (n.view c)) (hreported : Reported n c)
    (hpoint : n.point = .answering c msg) (hmsg : buf.msg = msg)
    (hnext : n' = { n with
      point := .ready
      client := n.update c fun k =>
        { k with
          toClient := k.toClient ++ [⟨buf, n.reading.number⟩]
          answered := k.answered ++ if n.reading.buf.asks then [n.reading.number] else [] } })
    (haccount : n'.account c = (n'.client c).asked) : Orderly n' c := by
  subst hnext
  refine ⟨fun hawaiting => absurd hawaiting (by simp), ?_, by simpa using h.current, haccount⟩
  simp only [Net.update_self]
  intro call stale hphase hcall m hm
  rcases head_append hm with hm | ⟨-, hm⟩
  · exact h.waiting call stale hphase hcall m hm
  · obtain rfl : _ = m := Option.mem_some_iff.mp hm
    have hstage : (n.view c).stage = .serving n.reading := by simp [Net.view, Net.stage, hpoint]
    obtain ⟨-, -, other, stale', hbusy, hcalls⟩ := hpaired.of_serving hstage
    obtain ⟨rfl, -⟩ := Phase.busy.inj (hphase.symm.trans hbusy)
    have hanswer := hreported.answer msg hpoint (hcalls.sent.asks.trans hcall)
    rwa [← hmsg] at hanswer

/-- A call that crosses nothing. -/
theorem Orderly.call {n n' : Net} {c : ℤ} (call : Call) (stale : ResponseBuffer) (h : Orderly n c)
    (hpaired : Paired (n.view c)) (hphase : (n.client c).phase = .idle)
    (huncrossed : n.Uncrossed c (.call c call))
    (hnext : n' = { n with client := n.update c (Client.call call stale) })
    (haccount : n'.account c = (n'.client c).asked) : Orderly n' c := by
  subst hnext
  refine ⟨?_, ?_, ?_, haccount⟩ <;> simp only [Net.update_self, Client.call]
  · intro hpoint m hm
    rcases head_append hm with hm | ⟨hempty, hm⟩
    · exact h.awaiting hpoint m hm
    · rcases call.sends_cases stale with ⟨-, hsends⟩ | ⟨buf, hsends, hbuf⟩
      · rw [hsends] at hm
        exact absurd hm (by simp)
      · rw [hsends] at hm
        obtain rfl : _ = m := Option.mem_some_iff.mp hm
        by_contra hasks
        have hcall : call.asks = true := hbuf.asks.symm.trans (by simpa using hasks)
        have hstage : (n.view c).stage = .awaiting n.signals := by simp [Net.view, Net.stage, hpoint]
        obtain ⟨s, hs, hsignal⟩ := hpaired.of_unanswered hstage hphase hempty
        exact huncrossed rfl hcall s hs hsignal
  · intro other stale' hbusy hcall m hm
    obtain ⟨rfl, -⟩ := Phase.busy.inj hbusy
    have hm' := List.mem_of_mem_head? hm
    exact absurd (hpaired.of_idle hphase m hm') (huncrossed rfl hcall m hm')
  · intro other stale' hbusy hcall
    obtain ⟨rfl, -⟩ := Phase.busy.inj hbusy
    rcases call.sends_cases stale with ⟨hnone, -⟩ | ⟨buf, hsends, hbuf⟩
    · cases call <;> simp [Call.message, Call.asks] at hnone hcall
    · simp [hsends, hbuf.asks.trans hcall]

/-- A step elsewhere keeps order. -/
theorem Elsewhere.orderly {n n' : Net} {c : ℤ} (helsewhere : Elsewhere c n n') (h : Orderly n c)
    (haccount : n'.account c = (n'.client c).asked) : Orderly n' c := by
  cases helsewhere with
  | still hclient hpoint htable hreading hsignals =>
    refine ⟨?_, ?_, ?_, haccount⟩
    · rw [hpoint, hclient]
      exact h.awaiting
    · rw [hclient]
      exact h.waiting
    · rw [hclient]
      exact h.current
  | away hclient hbefore hafter =>
    have hpoint : n'.point ≠ .awaiting c := by
      intro hawaiting
      simp [Net.stage, hawaiting] at hafter
    exact h.of_quiet hpoint (by rw [hclient]) (by rw [hclient]) (by rw [hclient]) (by rw [hclient]) haccount

/-- A client's own steps keep order when nothing crosses. -/
theorem OwnStep.orderly {fake : Bool} {l : NetLabel} {n n' : Net} {c : ℤ}
    (hstep : OwnStep fake c n l n') (huncrossed : n.Uncrossed c l) (hpaired : Paired (n.view c))
    (hreported : Reported n c) (h : Orderly n c)
    (haccount : n'.account c = (n'.client c).asked) : Orderly n' c := by
  cases hstep with
  | tabled hevent hcall => exact h.of_quiet (by simp) (by simp) (by simp) (by simp) (by simp) haccount
  | received hpoint hqueue =>
    exact h.of_quiet (ofMessage_ne_awaiting _ _ _ _ _) (by simp) (by simp) (by simp) (by simp) haccount
  | answered hpoint hmsg => exact h.answered hpaired hreported hpoint hmsg rfl haccount
  | signalled hpoint hmsg => exact h.signalled hpaired hpoint hmsg huncrossed rfl haccount
  | settled hpoint hqueue =>
    exact h.of_quiet (by simp) (by simp) (by simp) (by simp) (by simp) haccount
  | call call stale hphase => exact h.call call stale hpaired hphase huncrossed rfl haccount
  | @finish call stale m rest hphase hqueue =>
    have hnot : ∀ other stale', (Client.finish call (call.returns stale m.buf) m rest (n.client c)).phase ≠
        .busy other stale' := by
      intro other stale'
      simp only [Client.finish]
      split <;> simp
    refine ⟨?_, ?_, ?_, haccount⟩ <;> simp only [Net.update_self]
    · exact h.awaiting
    · exact fun other stale' hbusy => absurd hbusy (hnot other stale')
    · exact fun other stale' hbusy => absurd hbusy (hnot other stale')
  | answer answer stale hphase =>
    refine ⟨?_, ?_, ?_, haccount⟩ <;> simp only [Net.update_self, Client.answer]
    · intro hpoint m hm
      rcases head_append hm with hm | ⟨-, hm⟩
      · exact h.awaiting hpoint m hm
      · obtain ⟨buf, hsends, hmsg⟩ := answer.sends_eq stale
        rw [hsends] at hm
        obtain rfl : _ = m := Option.mem_some_iff.mp hm
        rcases hmsg with hmsg | hmsg <;> simp [ResponseBuffer.asks, hmsg]
    · exact fun other stale' hbusy => absurd hbusy (by simp)
    · exact fun other stale' hbusy => absurd hbusy (by simp)

/-- Every step without a crossing keeps order. -/
theorem UncrossedStep.orderly {fake : Bool} {l : NetLabel} {n n' : Net} {c : ℤ}
    (hstep : UncrossedStep fake c l n n') (hpaired : Paired (n.view c)) (hreported : Reported n c)
    (h : Orderly n c) : Orderly n' c := by
  obtain ⟨hstep, huncrossed⟩ := hstep
  have haccount := h.account_step hstep
  rcases hstep.own_or_elsewhere c with hown | helsewhere
  · exact hown.orderly huncrossed hpaired hreported h haccount
  · exact helsewhere.orderly h haccount

/-- In every run in which nothing crosses a request or release of a client, its queues are in order. -/
theorem net_orderly {fake : Bool} {table : VectorTable} {ls : List NetLabel} {n : Net} {c : ℤ}
    (h : Run (UncrossedStep fake c) ls (.start table) n) : Orderly n c := by
  have hstep : ∀ l n n', UncrossedStep fake c l n n' → (Paired (n.view c) ∧ Reported n c ∧ Orderly n c) →
      Paired (n'.view c) ∧ Reported n' c ∧ Orderly n' c := by
    rintro l n n' hstep ⟨hpaired, hreported, horderly⟩
    exact ⟨hstep.1.paired hpaired, hstep.1.reported hreported, hstep.orderly hpaired hreported horderly⟩
  have hnil : Run (NetStep fake) [] (.start table) (.start table) := .nil _
  have hstart : Orderly (.start table) c := by
    refine ⟨?_, ?_, ?_, rfl⟩ <;> simp [Net.start, Client.start]
  exact (h.invariant hstep ⟨net_paired hnil c, net_reported hnil c, hstart⟩).2.2

/-- What became of the requests and releases of a client: each was served by one table call and then
answered once, is being served, or is unread; and a call that waits for its answer reads it next. -/
structure Answered (n : Net) (c : ℤ) : Prop where
  account : (n.client c).asked =
    (n.client c).answered ++ n.decided c ++ n.inHand c ++ unread (n.client c).toServer
  served : (n.client c).served.map TableCall.number = (n.client c).answered ++ n.decided c
  once : (n.client c).asked.Nodup
  read : ∀ call stale m rest, (n.client c).phase = .busy call stale → call.asks = true →
    (n.client c).toClient = m :: rest →
      m.IsAnswer ∧ m.number = (n.client c).calls ∧ (n.client c).calls ∈ (n.client c).answered

/-- A call that finds an answer has no message under way. -/
theorem Paired.of_answer {v : View} (h : Paired v) {call : Call} {stale : ResponseBuffer} {m : Message}
    {rest : List Message} (hphase : v.phase = .busy call stale) (hqueue : v.toClient = m :: rest)
    (hanswer : m.IsAnswer) : v.toServer = [] ∧ m.number = v.calls := by
  have hnot (s : Message) (signal : ℕ) (hs : s.Signals signal) (heq : s = m) : False := by
    subst heq
    rcases hanswer with hack | hnak
    · exact absurd (hs.msg.symm.trans hack) (by decide)
    · exact absurd (hs.msg.symm.trans hnak) (by decide)
  cases h <;> simp only [reduceCtorEq, List.cons.injEq] at hphase hqueue
  next hcall hreply => exact ⟨rfl, hqueue.1 ▸ hreply⟩
  next hcall hs => exact (hnot _ _ hs hqueue.1).elim
  next hresting hs => exact (hnot _ _ hs hqueue.1).elim
  next hm hs => exact (hnot _ _ hs hqueue.1).elim
  next hcall hreply hs => exact ⟨rfl, hqueue.1 ▸ hreply⟩
  next hcall hs hs' => exact (hnot _ _ hs hqueue.1).elim

/-- **No request is lost unless a signal crosses it.** In every run in which no signal crosses a
request or release of a client, whatever happens to the other clients, each of them is served and
answered once, and the call that sent it reads the answer. -/
theorem requests_answered {fake : Bool} {table : VectorTable} {ls : List NetLabel} {n : Net} {c : ℤ}
    (h : Run (UncrossedStep fake c) ls (.start table) n) : Answered n c := by
  have hrun : Run (NetStep fake) ls (.start table) n := h.mono fun _ _ _ hstep => hstep.1
  have hpaired := net_paired hrun c
  have haccounted := net_accounted hrun c
  have hreported := net_reported hrun c
  have horderly := net_orderly h
  have haccount : (n.client c).asked =
      (n.client c).answered ++ n.decided c ++ n.inHand c ++ unread (n.client c).toServer := by
    rw [← hreported.served, ← Net.account, horderly.account]
  refine ⟨haccount, hreported.served, haccounted.increasing.imp Nat.ne_of_lt, ?_⟩
  intro call stale m rest hphase hcall hqueue
  have hanswer : m.IsAnswer := horderly.waiting call stale hphase hcall m (by rw [hqueue]; rfl)
  obtain ⟨hempty, hnumber⟩ := hpaired.of_answer hphase hqueue hanswer
  have hempty' : (n.client c).toServer = [] := hempty
  have hunserved : ∀ m, n.stage c ≠ .serving m := by
    intro m' hstage
    obtain ⟨-, hnone, -⟩ := hpaired.of_serving hstage
    exact absurd (hqueue.symm.trans hnone) (by simp)
  obtain ⟨hinHand, hdecided, -⟩ := Net.idle_of_unserved hunserved
  have hcurrent := horderly.current call stale hphase hcall
  rw [haccount, hinHand, hdecided, hempty'] at hcurrent
  exact ⟨hanswer, hnumber, by simpa [unread] using hcurrent⟩

/-- Client 5 requests line 1 of crate 0 and nothing crosses the request: it is answered. -/
theorem requests_answered_first :
    ∃ ls n, Run (UncrossedStep false 5) ls (.start []) n ∧ (n.client 5).asked = [1] ∧ Answered n 5 := by
  obtain ⟨ls, n', n, hrun, hfinish, -, -, hclient⟩ := call_completes false (.start []) 5 0
    (.request ⟨1, 2, anyVector, 7⟩) ⟨0⟩ rfl rfl rfl rfl (Or.inl ⟨rfl, rfl, .moved fun _ => TableT.zero, rfl⟩)
  have hall := hrun.append (.single hfinish)
  exact ⟨_, n, hall, by rw [hclient]; rfl, requests_answered hall⟩

/-- Client 5 is registered for line 1 of crate 0 and requests line 2 when line 1 becomes active. The
daemon reads the request as the answer to its signal, the client reads the signal as the answer to
its request, and both go on: the request was neither served nor answered. -/
theorem requests_answered_crossed :
    ∃ ls n, Run (NetStep false) ls (.start []) n ∧ n.point = .ready ∧ (n.client 5).phase = .idle ∧
      (n.client 5).toServer = [] ∧ (n.client 5).toClient = [] ∧ (n.client 5).asked = [1, 2] ∧
      (n.client 5).answered = [1] ∧ (n.client 5).served.map TableCall.number = [1] ∧ ¬ Answered n 5 := by
  obtain ⟨ls, n', n, hrun, hfinish, hready, htable, hclient⟩ := call_completes false (.start []) 5 0
    (.request ⟨1, 2, anyVector, 7⟩) ⟨0⟩ rfl rfl rfl rfl (Or.inl ⟨rfl, rfl, .moved fun _ => TableT.zero, rfl⟩)
  have hall := (hrun.append (.single hfinish)).mono fun _ _ _ hstep => hstep.1
  have hfind : findInterrupt ⟨1, 2, 32, 0⟩ n.table = .ok (5, ⟨1, 2, 32, 7⟩) := by
    rw [htable]
    rfl
  obtain ⟨n'', hlost, hready', -, hclient'⟩ := request_lost false ⟨0⟩ ⟨1, 4, anyVector, 8⟩
    hready (by rw [hclient]; rfl) (by rw [hclient]; rfl) (by rw [hclient]; rfl) hfind
  rw [hclient] at hclient'
  refine ⟨_, n'', hall.append hlost, hready', ?_⟩
  simp only [hclient']
  refine ⟨rfl, rfl, rfl, rfl, rfl, rfl, fun h => ?_⟩
  have haccount := h.account
  rw [hclient', Net.decided, Net.inHand, hready'] at haccount
  exact absurd haccount (by simp [Net.start, Client.start, unread])

end V120.Irqd
