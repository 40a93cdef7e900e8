import V120.Irqd.Daemon

/-!
# What the daemon's socket calls do

Sending and receiving leave the daemon's globals alone and append the calls to the trace.
Each call of the library is characterised once by the events it appends and by its result;
the handlers are analysed from these facts only.
-/

namespace V120.Irqd

variable {σ : Type*} (sys : System σ)

/-- Only the outside and the trace moved on, by these events. -/
structure Io (w w' : World σ) (es : List Event) : Prop where
  daemon : w'.daemon = w.daemon
  trace : w'.trace = w.trace ++ es

/-- No event. -/
theorem Io.refl (w : World σ) : Io w w [] := ⟨rfl, (List.append_nil _).symm⟩

/-- Events happen one after the other. -/
theorem Io.trans {w₁ w₂ w₃ : World σ} {es es' : List Event} (h : Io w₁ w₂ es) (h' : Io w₂ w₃ es') :
    Io w₁ w₃ (es ++ es') :=
  ⟨h'.daemon.trans h.daemon, by rw [h'.trace, h.trace, List.append_assoc]⟩

/-- A logged event. -/
theorem io_log (w : World σ) (e : Event) : Io w (w.log e) [e] := ⟨rfl, rfl⟩

/-- An uninitialised buffer costs no event. -/
theorem io_stale (w : World σ) : Io w ((World.sockets sys).stale w).2 [] :=
  ⟨rfl, (List.append_nil _).symm⟩

/-- A register read. -/
theorem io_irqstatus (w : World σ) (idx : ℕ) :
    Io w (w.irqstatus sys idx).2 [.irqstatus idx (w.irqstatus sys idx).1] := ⟨rfl, rfl⟩

/-- An acknowledge cycle. -/
theorem io_iackVector (w : World σ) (idx irq : ℕ) :
    Io w (w.iackVector sys idx irq).2 [.iackVector idx irq (w.iackVector sys idx irq).1] := ⟨rfl, rfl⟩

/-- `v120irqd_msg_send` is one `write`. -/
theorem msgSend_spec (sock : ℤ) (buf : ResponseBuffer) (w : World σ) :
    ∃ result, (v120irqdMsgSend (World.sockets sys) sock buf w).1 = sent result ∧
      Io w (v120irqdMsgSend (World.sockets sys) sock buf w).2 [.write sock buf result] :=
  ⟨_, rfl, rfl, rfl⟩

/-- `v120_irqd_msg_recv` is one `read`. -/
theorem msgRecv_spec (sock : ℤ) (buf : ResponseBuffer) (w : World σ) :
    ∃ received, (v120IrqdMsgRecv (World.sockets sys) sock buf w).1 = received.len ∧
      (v120IrqdMsgRecv (World.sockets sys) sock buf w).2.1 = received.fill buf ∧
      Io w (v120IrqdMsgRecv (World.sockets sys) sock buf w).2.2 [.read sock received] :=
  ⟨_, rfl, rfl, rfl, rfl⟩

/-- A `write` that succeeds is not mistaken for an error, and one that fails is not for success. -/
theorem sent_neg_iff (result : Option Errno) : sent result < 0 ↔ result ≠ none := by
  cases result with
  | none => simp [sent, responseBufferSize]
  | some errno => simpa [sent] using errno.property

/-- `msg_respond` is one `write` of the response, and 0 exactly when it succeeds. -/
theorem msgRespond_spec (sock : ℤ) (response : MessageSelect) (w : World σ) :
    ∃ buf result, buf.msg = .ofCode response.code ∧
      ((msgRespond (World.sockets sys) sock response w).1 < 0 ↔ result ≠ none) ∧
      ((msgRespond (World.sockets sys) sock response w).1 = 0 ↔ result = none) ∧
      Io w (msgRespond (World.sockets sys) sock response w).2 [.write sock buf result] := by
  obtain ⟨result, hlen, hio⟩ := msgSend_spec sys sock
    (((World.sockets sys).stale w).1.setMsg response) ((World.sockets sys).stale w).2
  have hneg := sent_neg_iff result
  refine ⟨((World.sockets sys).stale w).1.setMsg response, result, ResponseBuffer.msg_setMsg _ _, ?_⟩
  simp only [msgRespond, hlen]
  by_cases hresult : result = none
  · have hnot : ¬ sent result < 0 := by rw [hneg]; simp [hresult]
    rw [if_neg hnot]
    exact ⟨by simp [hresult], by simp [hresult], (io_stale sys w).trans hio⟩
  · have hlt : sent result < 0 := hneg.mpr hresult
    rw [if_pos hlt]
    exact ⟨by simp [hlt, hresult], by simp [hresult, Int.ne_of_lt hlt], (io_stale sys w).trans hio⟩

/-- `v120irqd_ack` is one `write` of an `ACK`. -/
theorem ack_spec (sock : ℤ) (w : World σ) :
    ∃ buf result, buf.msg = .ack ∧
      ((v120irqdAck (World.sockets sys) sock w).1 < 0 ↔ result ≠ none) ∧
      ((v120irqdAck (World.sockets sys) sock w).1 = 0 ↔ result = none) ∧
      Io w (v120irqdAck (World.sockets sys) sock w).2 [.write sock buf result] :=
  msgRespond_spec sys sock .ack w

/-- `v120irqd_nak` is one `write` of a `NAK`. -/
theorem nak_spec (sock : ℤ) (w : World σ) :
    ∃ buf result, buf.msg = .nak ∧
      Io w (v120irqdNak (World.sockets sys) sock w).2 [.write sock buf result] := by
  obtain ⟨buf, result, hmsg, -, -, hio⟩ := msgRespond_spec sys sock .nak w
  exact ⟨buf, result, hmsg, hio⟩

/-- What a caller that waits for an acknowledgement makes of the answer it reads. -/
def Received.code (buf : ResponseBuffer) (received : Received) : ℤ :=
  acknowledged received.len (received.fill buf)

/-- `v120irqd_request`, `v120irqd_release` and `v120irqd_interrupt` send one message; when that
succeeds they read one message and return what it means. -/
theorem handshake_spec (msg : MessageSelect) (sock : ℤ) (sel : V120irqdSelector) (w : World σ) :
    ∃ buf, buf.msg = .ofCode msg.code ∧ buf.selector = sel ∧
      ((∃ errno : Errno, (handshake (World.sockets sys) msg sock sel w).1 = -errno.val ∧
          Io w (handshake (World.sockets sys) msg sock sel w).2 [.write sock buf (some errno)]) ∨
        (∃ received, (handshake (World.sockets sys) msg sock sel w).1 = received.code buf ∧
          Io w (handshake (World.sockets sys) msg sock sel w).2
            [.write sock buf none, .read sock received])) := by
  let w₀ := ((World.sockets sys).stale w).2
  let buf := (((World.sockets sys).stale w).1.setMsg msg).setSelector sel
  obtain ⟨result, hlen, hsend⟩ := msgSend_spec sys sock buf w₀
  refine ⟨buf, ?_, ResponseBuffer.selector_setSelector _ _, ?_⟩
  · rw [ResponseBuffer.msg_setSelector, ResponseBuffer.msg_setMsg]
  · have hdef : handshake (World.sockets sys) msg sock sel w =
        if (v120irqdMsgSend (World.sockets sys) sock buf w₀).1 < 0 then
          v120irqdMsgSend (World.sockets sys) sock buf w₀
        else
          let received := v120IrqdMsgRecv (World.sockets sys) sock buf
            (v120irqdMsgSend (World.sockets sys) sock buf w₀).2
          (acknowledged received.1 received.2.1, received.2.2) := rfl
    rw [hdef, hlen]
    cases result with
    | some errno =>
      rw [if_pos ((sent_neg_iff _).mpr (by simp))]
      exact Or.inl ⟨errno, hlen, (io_stale sys w).trans hsend⟩
    | none =>
      obtain ⟨received, hcount, hfill, hread⟩ := msgRecv_spec sys sock buf
        (v120irqdMsgSend (World.sockets sys) sock buf w₀).2
      rw [if_neg (by rw [sent_neg_iff]; simp)]
      refine Or.inr ⟨received, ?_, (io_stale sys w).trans (hsend.trans hread)⟩
      simp only [hcount, hfill]
      rfl

/-- What one `notify_irq` on a table returns, and the events it causes: a single lookup, and for a
match a single `IRQ_SIGNAL` to the entry's owner, carrying the request with the entry's payload. -/
inductive Notified (table : VectorTable) (sel : V120irqdSelector) : ℤ → List Event → Prop where
  | unmatched (hfind : findInterrupt sel table = .error einval) :
      Notified table sel (-einval) [.lookup sel]
  | unsent {sock : ℤ} {buf : ResponseBuffer} (errno : Errno)
      (hfind : findInterrupt sel table = .ok (sock, buf.selector)) (hmsg : buf.msg = .irqSignal) :
      Notified table sel (-errno.val) [.lookup sel, .write sock buf (some errno)]
  | answered {sock : ℤ} {buf : ResponseBuffer} (received : Received)
      (hfind : findInterrupt sel table = .ok (sock, buf.selector)) (hmsg : buf.msg = .irqSignal) :
      Notified table sel (received.code buf)
        [.lookup sel, .write sock buf none, .read sock received]

/-- A lookup that fails reports `EINVAL`. -/
theorem findInterrupt_error {sel : V120irqdSelector} {table : VectorTable} {errno : ℤ}
    (h : findInterrupt sel table = .error errno) : errno = einval := by
  unfold findInterrupt at h
  split at h
  · exact (Except.error.inj h).symm
  · exact absurd h (by simp)

/-- `notify_irq` without an entry for the interrupt. -/
theorem notifyIrq_unmatched {sel : V120irqdSelector} {w : World σ} {errno : ℤ}
    (h : findInterrupt sel w.daemon.vectorTable = .error errno) :
    notifyIrq sys sel w = (-einval, w.log (.lookup sel)) := by
  have hlog := io_log w (.lookup sel)
  unfold notifyIrq
  simp only [hlog.daemon, h, findInterrupt_error h]

/-- `notify_irq` signals the owner of the entry. -/
theorem notifyIrq_matched {sel found : V120irqdSelector} {w : World σ} {sock : ℤ}
    (h : findInterrupt sel w.daemon.vectorTable = .ok (sock, found)) :
    notifyIrq sys sel w = v120irqdInterrupt (World.sockets sys) sock found (w.log (.lookup sel)) := by
  have hlog := io_log w (.lookup sel)
  unfold notifyIrq
  simp only [hlog.daemon, h]

/-- `notify_irq` leaves the daemon's globals alone. -/
theorem notifyIrq_spec (sel : V120irqdSelector) (w : World σ) :
    ∃ es, Notified w.daemon.vectorTable sel (notifyIrq sys sel w).1 es ∧
      Io w (notifyIrq sys sel w).2 es := by
  have hlog := io_log w (.lookup sel)
  cases hfind : findInterrupt sel w.daemon.vectorTable with
  | error errno =>
    rw [notifyIrq_unmatched sys hfind]
    obtain rfl := findInterrupt_error hfind
    exact ⟨_, .unmatched hfind, hlog⟩
  | ok answer =>
    obtain ⟨sock, found⟩ := answer
    obtain ⟨buf, hmsg, rfl, hcases⟩ := handshake_spec sys .irqSignal sock found
      (w.log (.lookup sel))
    rw [notifyIrq_matched sys hfind, v120irqdInterrupt]
    rcases hcases with ⟨errno, hret, hio⟩ | ⟨received, hret, hio⟩
    · rw [hret]
      exact ⟨_, .unsent errno hfind hmsg, hlog.trans hio⟩
    · rw [hret]
      exact ⟨_, .answered received hfind hmsg, hlog.trans hio⟩

end V120.Irqd
