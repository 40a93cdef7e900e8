import V120.Irqd.Dispatch

/-!
# Interrupters that share a line

A crate whose pending interrupters withdraw their request as soon as their vector is fetched, and
clients that answer each signal in a fixed way. `process_vme` takes the line to be stuck when a
notification fails while any other interrupter still asserts it, so one interrupter that nobody
acknowledges takes the line away from all those behind it.
-/

namespace V120.Irqd

open V120.Common

/-- How clients behave: whether a signal reaches them, and the message they answer it with, none
when they hang up instead. -/
structure Clients where
  send : ℤ → V120irqdSelector → Option Errno
  reply : ℤ → V120irqdSelector → Option ResponseBuffer

/-- A crate with its pending interrupters as lines and vectors, in the order in which the bus
grants them acknowledge cycles, and the last signal a client got. -/
structure Crate where
  pending : List (ℕ × BitVec 32)
  asked : Option (ℤ × V120irqdSelector)

/-- The lines asserted by pending interrupters. -/
def requests (pending : List (ℕ × BitVec 32)) : BitVec 32 :=
  pending.foldr (fun p lines => lines ||| ((1 : BitVec 32) <<< p.1)) 0

/-- What a client answers when it is read from. -/
def Clients.answer (clients : Clients) (sock : ℤ) (asked : Option (ℤ × V120irqdSelector)) :
    Received :=
  match asked with
  | none => .ended
  | some (sock', sel) =>
    if sock' = sock then
      match clients.reply sock sel with
      | none => .ended
      | some answer => .message answer
    else .ended

/-- The crate as the daemon sees it. An acknowledge cycle goes to the first pending interrupter of
the line, which withdraws its request; without one the cycle is spurious. -/
def crateSystem (clients : Clients) : System Crate :=
  { System.silent with
    irqstatus := fun _ s => (requests s.pending, s)
    iackVector := fun _ irq s =>
      match s.pending.find? fun p => p.1 == irq with
      | none => (BitVec.allOnes 32, s)
      | some p => (p.2, { s with pending := s.pending.eraseP fun p => p.1 == irq })
    sockets := {
      write := fun sock buf s =>
        match clients.send sock buf.selector with
        | some errno => (some errno, s)
        | none => (none, { s with asked := some (sock, buf.selector) })
      read := fun sock s => (clients.answer sock s.asked, s)
      stale := fun s => (⟨0⟩, s) } }

/-- The client an interrupt goes to and the signal for it. -/
def target (table : VectorTable) (n : Fin 16) (p : ℕ × BitVec 32) : Option (ℤ × V120irqdSelector) :=
  match findInterrupt (concrete n p.1 p.2 0) table with
  | .error _ => none
  | .ok found => some found

/-- Whether an interrupt has a registered client that answers its signal with an `ACK`. -/
def Clients.acks (clients : Clients) (table : VectorTable) (n : Fin 16) (p : ℕ × BitVec 32) : Bool :=
  match target table n p with
  | none => false
  | some (sock, sel) =>
    clients.send sock sel == none && (clients.reply sock sel).map ResponseBuffer.msg == some .ack

/-- The vectors pending on one line, in order. -/
def vectorsOn (irq : ℕ) (pending : List (ℕ × BitVec 32)) : List (BitVec 32) :=
  (pending.filter fun p => p.1 == irq).map Prod.snd

@[simp] theorem vectorsOn_nil (irq : ℕ) : vectorsOn irq [] = [] := rfl

@[simp] theorem vectorsOn_cons (irq : ℕ) (p : ℕ × BitVec 32) (pending : List (ℕ × BitVec 32)) :
    vectorsOn irq (p :: pending) =
      if p.1 = irq then p.2 :: vectorsOn irq pending else vectorsOn irq pending := by
  by_cases hp : p.1 = irq <;> simp [vectorsOn, hp]

@[simp] theorem vectorsOn_append (irq : ℕ) (pending pending' : List (ℕ × BitVec 32)) :
    vectorsOn irq (pending ++ pending') = vectorsOn irq pending ++ vectorsOn irq pending' := by
  simp [vectorsOn]

/-- The interrupts whose vectors were fetched. -/
def fetched (es : List Event) : List (ℕ × BitVec 32) :=
  es.filterMap fun
    | .iackVector _ irq vector => some (irq, vector)
    | _ => none

/-- The signals sent, with their receivers. -/
def signals (es : List Event) : List (ℤ × V120irqdSelector) :=
  (messages es).map fun m => (m.1, m.2.selector)

@[simp] theorem fetched_append (es es' : List Event) : fetched (es ++ es') = fetched es ++ fetched es' :=
  List.filterMap_append

@[simp] theorem signals_append (es es' : List Event) : signals (es ++ es') = signals es ++ signals es' := by
  simp [signals, messages]

/-- A line is asserted when an interrupter is pending on it. -/
theorem getLsbD_requests {pending : List (ℕ × BitVec 32)} {irq : ℕ} (hirq : irq < 32) :
    (requests pending).getLsbD irq = true ↔ vectorsOn irq pending ≠ [] := by
  induction pending with
  | nil => simp [requests, vectorsOn]
  | cons p pending ih =>
    change (requests pending ||| ((1 : BitVec 32) <<< p.1)).getLsbD irq = true ↔ _
    rw [BitVec.getLsbD_or, Bool.or_eq_true, ih, getLsbD_bit, decide_eq_true hirq, Bool.true_and,
      decide_eq_true_iff]
    by_cases hp : p.1 = irq <;> simp [vectorsOn, hp]

/-- Fetching a vector withdraws the first request on its line and no other. -/
theorem vectorsOn_eraseP {pending : List (ℕ × BitVec 32)} {irq : ℕ} {p : ℕ × BitVec 32}
    (h : pending.find? (fun p => p.1 == irq) = some p) :
    p.1 = irq ∧ vectorsOn irq pending = p.2 :: vectorsOn irq (pending.eraseP fun p => p.1 == irq) ∧
      (∀ j, j ≠ irq → vectorsOn j (pending.eraseP fun p => p.1 == irq) = vectorsOn j pending) ∧
      pending.length = (pending.eraseP fun p => p.1 == irq).length + 1 := by
  obtain ⟨hp, before, after, rfl, hbefore⟩ := List.find?_eq_some_iff_append.mp h
  have hirq : p.1 = irq := beq_iff_eq.mp hp
  have hnone : ∀ q ∈ before, ¬ q.1 = irq := fun q hq => by simpa using hbefore q hq
  have herase : (before ++ p :: after).eraseP (fun p => p.1 == irq) = before ++ after := by
    rw [List.eraseP_append_right _ (by simpa using hnone), List.eraseP_cons, hp, cond_true]
  have hskip : before.filter (fun p => p.1 == irq) = [] := by
    simpa [List.filter_eq_nil_iff] using hnone
  rw [herase]
  refine ⟨hirq, ?_, fun j hj => ?_, by simp only [List.length_append, List.length_cons]; omega⟩
  · simp [vectorsOn, hirq, hskip]
  · have hother : ¬ p.1 = j := fun h => hj (h.symm.trans hirq)
    simp [vectorsOn, hother]

/-- An acknowledge cycle on a line with a pending interrupter fetches the vector of the first, which
withdraws its request. -/
theorem iackVector_crate (clients : Clients) (idx : ℕ) {irq : ℕ} (w : World Crate)
    (h : vectorsOn irq w.outside.pending ≠ []) :
    ∃ vector w', w.iackVector (crateSystem clients) idx irq = (vector, w') ∧
      Io w w' [.iackVector idx irq vector] ∧
      vectorsOn irq w.outside.pending = vector :: vectorsOn irq w'.outside.pending ∧
      (∀ j, j ≠ irq → vectorsOn j w'.outside.pending = vectorsOn j w.outside.pending) ∧
      (∀ p ∈ w'.outside.pending, p ∈ w.outside.pending) ∧
      w.outside.pending.length = w'.outside.pending.length + 1 := by
  have hsome : w.outside.pending.find? (fun p => p.1 == irq) ≠ none := by
    simpa [vectorsOn, List.filter_eq_nil_iff] using h
  obtain ⟨p, hp⟩ := Option.ne_none_iff_exists'.mp hsome
  obtain ⟨-, hvectors, hothers, hlength⟩ := vectorsOn_eraseP hp
  refine ⟨p.2, { w.log (.iackVector idx irq p.2) with
    outside := { w.outside with pending := w.outside.pending.eraseP fun p => p.1 == irq } }, ?_,
    ⟨rfl, rfl⟩, hvectors, hothers, fun q hq => List.mem_of_mem_eraseP hq, hlength⟩
  simp only [World.iackVector, crateSystem, hp]
  rfl

/-- A signal to a client is sent once, and succeeds when it arrives and is acknowledged. -/
theorem interrupt_crate (clients : Clients) (sock : ℤ) (sel : V120irqdSelector) (w : World Crate) :
    ∃ w' ret es, v120irqdInterrupt (World.sockets (crateSystem clients)) sock sel w = (ret, w') ∧
      Io w w' es ∧ w'.outside.pending = w.outside.pending ∧ fetched es = [] ∧
      signals es = [(sock, sel)] ∧
      (ret = 0 ↔ clients.send sock sel = none ∧
        (clients.reply sock sel).map ResponseBuffer.msg = some .ack) := by
  let io := World.sockets (crateSystem clients)
  let buf := ((⟨0⟩ : ResponseBuffer).setMsg .irqSignal).setSelector sel
  have hbuf : buf.selector = sel := ResponseBuffer.selector_setSelector _ _
  have hsignal (result : Option Errno) : signals [.write sock buf result] = [(sock, sel)] := by
    rw [← hbuf]
    rfl
  have hdef : v120irqdInterrupt io sock sel w =
      if sent (io.write sock buf w).1 < 0 then
        (sent (io.write sock buf w).1, (io.write sock buf w).2)
      else
        (acknowledged (io.read sock (io.write sock buf w).2).1.len
          ((io.read sock (io.write sock buf w).2).1.fill buf), (io.read sock (io.write sock buf w).2).2) :=
    rfl
  cases hsend : clients.send sock sel with
  | some errno =>
    have hwrite : io.write sock buf w = (some errno, w.log (.write sock buf (some errno))) := by
      simp only [io, World.sockets, crateSystem, hbuf, hsend]
      rfl
    rw [hwrite, if_pos ((sent_neg_iff _).mpr (by simp))] at hdef
    have herrno : -errno.val ≠ 0 := by have := errno.property; omega
    exact ⟨_, _, _, hdef, io_log w _, rfl, rfl, hsignal _, by simp [sent, herrno]⟩
  | none =>
    let asked : World Crate :=
      { w.log (.write sock buf none) with outside := { w.outside with asked := some (sock, sel) } }
    have hwrite : io.write sock buf w = (none, asked) := by
      simp only [io, World.sockets, crateSystem, hbuf, hsend]
      rfl
    have hread : io.read sock asked = (clients.answer sock (some (sock, sel)),
        asked.log (.read sock (clients.answer sock (some (sock, sel))))) := rfl
    rw [hwrite, if_neg (by rw [sent_neg_iff]; simp), hread] at hdef
    refine ⟨_, _, _, hdef, ⟨rfl, List.append_assoc _ _ _⟩, rfl, rfl, hsignal none, ?_⟩
    rw [Clients.answer, if_pos rfl]
    cases hreply : clients.reply sock sel with
    | none => simp [acknowledged, econnreset]
    | some answer =>
      simpa using (acknowledged_all answer).1

/-- The payload of a request plays no part in its lookup. -/
theorem findInterrupt_payload (table : VectorTable) (n : Fin 16) (irq : ℕ)
    (vector payload : BitVec 32) :
    findInterrupt (concrete n irq vector payload) table =
      findInterrupt (concrete n irq vector 0) table := rfl

/-- `notify_irq` signals the client an interrupt goes to and succeeds when that client acknowledges. -/
theorem notifyIrq_crate (clients : Clients) (n : Fin 16) (irq : ℕ) (vector payload : BitVec 32)
    (w : World Crate) :
    ∃ w' ret es, notifyIrq (crateSystem clients) (concrete n irq vector payload) w = (ret, w') ∧
      Io w w' es ∧ w'.outside.pending = w.outside.pending ∧ fetched es = [] ∧
      signals es = (target w.daemon.vectorTable n (irq, vector)).toList ∧
      (ret = 0 ↔ clients.acks w.daemon.vectorTable n (irq, vector) = true) := by
  have hlog := io_log w (.lookup (concrete n irq vector payload))
  cases hfind : findInterrupt (concrete n irq vector payload) w.daemon.vectorTable with
  | error errno =>
    have htarget : target w.daemon.vectorTable n (irq, vector) = none := by
      unfold target
      rw [← findInterrupt_payload, hfind]
    rw [Clients.acks, htarget]
    exact ⟨_, _, _, notifyIrq_unmatched _ hfind, hlog, rfl, rfl, rfl, by simp [einval]⟩
  | ok found =>
    obtain ⟨sock, sel⟩ := found
    have htarget : target w.daemon.vectorTable n (irq, vector) = some (sock, sel) := by
      unfold target
      rw [← findInterrupt_payload, hfind]
    obtain ⟨w', ret, es, hinterrupt, hio, hpending, hfetched, hsignals, hret⟩ :=
      interrupt_crate clients sock sel (w.log (.lookup (concrete n irq vector payload)))
    have hnotify := (notifyIrq_matched _ hfind).trans hinterrupt
    rw [Clients.acks, htarget]
    refine ⟨w', ret, _, hnotify, hlog.trans hio, hpending, ?_, ?_, by simpa using hret⟩
    · rw [fetched_append, hfetched]
      rfl
    · rw [signals_append, hsignals]
      rfl

/-- How one pass goes on behind the notification for a line: nothing more happens outside, the line keeps
its enable bit or loses it, and at most the status is read again. -/
structure SearchEnd {σ : Type*} (idx irq : ℕ) (irqen : BitVec 32) (kept : Bool) (es : List Event)
    (w notified : World σ) (locals' : VmeLocals) (w' : World σ) : Prop where
  outside : w'.outside = notified.outside
  irqen : locals'.irqen = if kept then irqen else irqen &&& ~~~((1 : BitVec 32) <<< irq)
  daemon : w'.daemon = w.daemon.setIrqen idx locals'.irqen
  trace : ∃ last, w'.trace = w.trace ++ (es ++ last) ∧ fetched last = [] ∧ signals last = []

/-- One pass over a crate whose status shows the lines that something outside asserts: no enabled line is
asserted, or an enabled line is served, and kept if that succeeds or the line is clear afterwards. -/
theorem irqsearch_asserted {σ : Type*} (sys : System σ) (idx : ℕ) (asserted : σ → BitVec 32)
    (hstatus : ∀ w : World σ, w.irqstatus sys idx =
      (asserted w.outside, w.log (.irqstatus idx (asserted w.outside))))
    (n : Fin 16) (locals : VmeLocals) (w : World σ)
    (hlines : ∀ irq, (asserted w.outside).getLsbD irq = true → 1 ≤ irq ∧ irq ≤ 7)
    (hcached : w.daemon.irqen idx = locals.irqen) :
    ((∀ irq, locals.irqen.getLsbD irq = true → (asserted w.outside).getLsbD irq = false) ∧
      irqsearch sys idx n locals w = .returned (w.log (.irqstatus idx (asserted w.outside)))) ∨
    ∃ irq, (1 ≤ irq ∧ irq ≤ 7) ∧ locals.irqen.getLsbD irq = true ∧
      (asserted w.outside).getLsbD irq = true ∧ ∀ vector w₁ ret w₂ es,
        (w.log (.irqstatus idx (asserted w.outside))).iackVector sys idx irq = (vector, w₁) →
        notifyIrq sys (concrete n irq vector locals.selector.payload) w₁ = (ret, w₂) → Io w w₂ es →
        ∃ locals' w', irqsearch sys idx n locals w = .irqsearch locals' w' ∧
          SearchEnd idx irq locals.irqen (decide (ret = 0) || !(asserted w₂.outside).getLsbD irq) es
            w w₂ locals' w' := by
  have hkept : w.daemon.setIrqen idx locals.irqen = w.daemon := hcached ▸ w.daemon.setIrqen_irqen idx
  unfold irqsearch
  rw [hstatus]
  dsimp only
  by_cases hnone : asserted w.outside &&& locals.irqen = 0
  · refine Or.inl ⟨fun irq hirq => ?_, if_pos hnone⟩
    have hclear := congrArg (fun mask : BitVec 32 => mask.getLsbD irq) hnone
    simpa [hirq] using hclear
  · rw [if_neg hnone]
    cases hline : highestLine (asserted w.outside &&& locals.irqen) with
    | none =>
      obtain ⟨i, -, hbit⟩ := exists_bit hnone
      have hasserted := hbit
      rw [BitVec.getLsbD_and, Bool.and_eq_true] at hasserted
      have hunset := highestLine_eq_none hline (hlines i hasserted.1)
      exact absurd (hbit.symm.trans hunset) Bool.false_ne_true.symm
    | some irq =>
      obtain ⟨hrange, hbit, -⟩ := highestLine_eq_some hline
      rw [BitVec.getLsbD_and, Bool.and_eq_true] at hbit
      refine Or.inr ⟨irq, hrange, hbit.2, hbit.1, fun vector w₁ ret w₂ es hfetch hnotify hio => ?_⟩
      dsimp only
      rw [hfetch]
      dsimp only
      rw [hnotify, hstatus]
      dsimp only
      have htrace : w₂.trace = w.trace ++ (es ++ []) := by rw [List.append_nil, hio.trace]
      by_cases hret : ret = 0
      · rw [if_pos hret, decide_eq_true hret, Bool.true_or]
        exact ⟨_, _, rfl, rfl, rfl, hio.daemon.trans hkept.symm, [], htrace, rfl, rfl⟩
      · rw [if_neg hret, decide_eq_false hret, Bool.false_or]
        have hset := and_bit_ne_zero_iff (asserted w₂.outside) irq
        have hagain : (w₂.log (.irqstatus idx (asserted w₂.outside))).trace =
            w.trace ++ (es ++ [.irqstatus idx (asserted w₂.outside)]) := by
          rw [← List.append_assoc, ← hio.trace]
          rfl
        by_cases hclear : asserted w₂.outside &&& ((1 : BitVec 32) <<< irq) = 0
        · have hlow : (asserted w₂.outside).getLsbD irq = false :=
            Bool.eq_false_iff.mpr fun h => hset.mpr h hclear
          rw [if_pos hclear, hlow]
          exact ⟨_, _, rfl, rfl, rfl, hio.daemon.trans hkept.symm, _, hagain, rfl, rfl⟩
        · rw [if_neg hclear, hset.mp hclear]
          have hmasked := congrArg (fun d : Daemon =>
            d.setIrqen idx (locals.irqen &&& ~~~((1 : BitVec 32) <<< irq))) hio.daemon
          exact ⟨_, _, rfl, rfl, rfl, hmasked, _, hagain, rfl, rfl⟩

/-- What one pass over a crate does: nothing is pending on an enabled line, or one interrupter of an
enabled line is served and gone, and the line is kept if that client acknowledged or nothing else
is pending on it. -/
inductive CratePass (clients : Clients) (n : Fin 16) (idx : ℕ) (mask : BitVec 32) (w : World Crate) :
    VmeNext Crate → Prop where
  | idle {w' : World Crate} (status : BitVec 32)
      (hnone : ∀ irq, mask.getLsbD irq = true → vectorsOn irq w.outside.pending = [])
      (hio : Io w w' [.irqstatus idx status]) : CratePass clients n idx mask w (.returned w')
  | served {locals' : VmeLocals} {w' : World Crate} (irq : ℕ) (vector : BitVec 32) (es : List Event)
      (hline : mask.getLsbD irq = true)
      (hvectors : vectorsOn irq w.outside.pending = vector :: vectorsOn irq w'.outside.pending)
      (hothers : ∀ j, j ≠ irq → vectorsOn j w'.outside.pending = vectorsOn j w.outside.pending)
      (hsub : ∀ p ∈ w'.outside.pending, p ∈ w.outside.pending)
      (hlength : w.outside.pending.length = w'.outside.pending.length + 1)
      (hfetched : fetched es = [(irq, vector)])
      (hsignals : signals es = (target w.daemon.vectorTable n (irq, vector)).toList)
      (hmask : locals'.irqen =
        if clients.acks w.daemon.vectorTable n (irq, vector) || (vectorsOn irq w'.outside.pending).isEmpty
        then mask else mask &&& ~~~((1 : BitVec 32) <<< irq))
      (hdaemon : w'.daemon = w.daemon.setIrqen idx locals'.irqen)
      (htrace : w'.trace = w.trace ++ es) :
      CratePass clients n idx mask w (.irqsearch locals' w')

/-- Every pass over a crate is one of these. -/
theorem irqsearch_crate (clients : Clients) (n : Fin 16) (idx : ℕ) (locals : VmeLocals)
    (w : World Crate) (hlines : ∀ p ∈ w.outside.pending, 1 ≤ p.1 ∧ p.1 ≤ 7)
    (hcached : w.daemon.irqen idx = locals.irqen) :
    CratePass clients n idx locals.irqen w (irqsearch (crateSystem clients) idx n locals w) := by
  have hrequested (irq : ℕ) (hirq : (requests w.outside.pending).getLsbD irq = true) :
      1 ≤ irq ∧ irq ≤ 7 := by
    have hpending := (getLsbD_requests (BitVec.lt_of_getLsbD hirq)).mp hirq
    obtain ⟨p, hp, rfl⟩ : ∃ p ∈ w.outside.pending, p.1 = irq := by
      simpa [vectorsOn, List.filter_eq_nil_iff] using hpending
    exact hlines p hp
  rcases irqsearch_asserted (crateSystem clients) idx (fun s : Crate => requests s.pending)
    (fun _ => rfl) n locals w hrequested hcached with
    ⟨hnone, hreturned⟩ | ⟨irq, hrange, hon, hset, hnext⟩
  · rw [hreturned]
    refine .idle _ (fun irq hirq => ?_) (io_log w _)
    by_contra hpending
    have hbit := (getLsbD_requests (BitVec.lt_of_getLsbD hirq)).mpr hpending
    exact absurd (hbit.symm.trans (hnone irq hirq)) Bool.false_ne_true.symm
  · have hlt : irq < 32 := by omega
    obtain ⟨vector, w₁, hfetch, hio, hvectors, hothers, hsub, hlength⟩ := iackVector_crate clients idx
      (w.log (.irqstatus idx (requests w.outside.pending))) ((getLsbD_requests hlt).mp hset)
    obtain ⟨w₂, ret, es, hnotify, hio', hpending, hfetched, hsignals, hret⟩ :=
      notifyIrq_crate clients n irq vector locals.selector.payload w₁
    have hsame : w₁.daemon = w.daemon := hio.daemon
    rw [hsame] at hsignals hret
    obtain ⟨locals', w', hsearch, hend⟩ :=
      hnext vector w₁ ret w₂ _ hfetch hnotify (((io_log w _).trans hio).trans hio')
    obtain ⟨last, htrace, hlast, hlast'⟩ := hend.trace
    rw [← hpending, ← hend.outside] at hvectors hothers hsub hlength
    -- the line is kept when the client acknowledged, or nothing else is pending on it
    have hacks : decide (ret = 0) = clients.acks w.daemon.vectorTable n (irq, vector) :=
      Bool.eq_iff_iff.mpr (decide_eq_true_iff.trans hret)
    have hempty : (!(requests w₂.outside.pending).getLsbD irq) =
        (vectorsOn irq w'.outside.pending).isEmpty := by
      rw [hend.outside, Bool.eq_iff_iff, Bool.not_eq_true', List.isEmpty_iff, ← Bool.not_eq_true,
        getLsbD_requests hlt, not_not]
    rw [hsearch]
    refine .served irq vector _ hon hvectors hothers hsub hlength ?_ ?_ ?_ hend.daemon htrace
    · rw [fetched_append, fetched_append, hfetched, hlast]
      rfl
    · rw [signals_append, signals_append, hsignals, hlast', List.append_nil]
      rfl
    · rw [hend.irqen, hacks, hempty]

/-- Whether a line keeps its enable bit: every vector but the last has to be acknowledged. -/
def lineKept (acks : BitVec 32 → Bool) : List (BitVec 32) → Bool
  | [] => true
  | vector :: rest => (acks vector || rest.isEmpty) && lineKept acks rest

/-- The vectors fetched from a line before it is given up. -/
def lineFetched (acks : BitVec 32 → Bool) : List (BitVec 32) → List (BitVec 32)
  | [] => []
  | vector :: rest => vector :: if acks vector || rest.isEmpty then lineFetched acks rest else []

/-- A line is kept when every vector but the last is acknowledged. -/
theorem lineKept_iff (acks : BitVec 32 → Bool) (vectors : List (BitVec 32)) :
    lineKept acks vectors = true ↔ ∀ vector ∈ vectors.dropLast, acks vector = true := by
  induction vectors with
  | nil => simp [lineKept]
  | cons vector rest ih =>
    rw [lineKept, Bool.and_eq_true, ih]
    cases rest with
    | nil => simp
    | cons next rest => simp

/-- A line that is kept is served to its end. -/
theorem lineFetched_of_kept {acks : BitVec 32 → Bool} {vectors : List (BitVec 32)}
    (h : lineKept acks vectors = true) : lineFetched acks vectors = vectors := by
  induction vectors with
  | nil => rfl
  | cons vector rest ih =>
    rw [lineKept, Bool.and_eq_true] at h
    rw [lineFetched, if_pos h.1, ih h.2]

/-- What a search does to a crate: each enabled line is served in bus order until it is empty or
given up, every fetched vector is signalled to its client, and the lines given up lose their
enable bit. -/
structure Drained (clients : Clients) (table : VectorTable) (n : Fin 16)
    (pending : List (ℕ × BitVec 32)) (mask mask' : BitVec 32) (es : List Event) : Prop where
  served : ∀ irq, vectorsOn irq (fetched es) =
    if mask.getLsbD irq then
      lineFetched (fun vector => clients.acks table n (irq, vector)) (vectorsOn irq pending)
    else []
  signalled : signals es = (fetched es).filterMap (target table n)
  kept : ∀ irq, mask'.getLsbD irq = (mask.getLsbD irq &&
    lineKept (fun vector => clients.acks table n (irq, vector)) (vectorsOn irq pending))

/-- Clearing one bit of a mask. -/
theorem getLsbD_clear (mask : BitVec 32) (irq j : ℕ) :
    (mask &&& ~~~((1 : BitVec 32) <<< irq)).getLsbD j = (mask.getLsbD j && decide (irq ≠ j)) := by
  rw [BitVec.getLsbD_and, BitVec.getLsbD_not, getLsbD_bit]
  by_cases hj : j < 32
  · by_cases hirq : irq = j <;> simp [hj, hirq]
  · rw [BitVec.getLsbD_of_ge mask j (by omega), Bool.false_and, Bool.false_and]

/-- Nothing is pending on an enabled line, and nothing happens. -/
theorem drained_idle (clients : Clients) (table : VectorTable) (n : Fin 16)
    {pending : List (ℕ × BitVec 32)} {mask : BitVec 32} {es : List Event}
    (hnone : ∀ irq, mask.getLsbD irq = true → vectorsOn irq pending = []) (hfetched : fetched es = [])
    (hsignals : signals es = []) : Drained clients table n pending mask mask es := by
  refine ⟨fun irq => ?_, by rw [hsignals, hfetched]; rfl, fun irq => ?_⟩
  · rw [hfetched]
    by_cases hirq : mask.getLsbD irq = true
    · rw [if_pos hirq, hnone irq hirq]
      rfl
    · rw [if_neg hirq]
      rfl
  · by_cases hirq : mask.getLsbD irq = true
    · rw [hnone irq hirq, lineKept, Bool.and_true]
    · rw [Bool.not_eq_true] at hirq
      rw [hirq, Bool.false_and]

/-- One interrupter of an enabled line is served, and then the rest. -/
theorem Drained.served_first {clients : Clients} {table : VectorTable} {n : Fin 16}
    {pending rest : List (ℕ × BitVec 32)} {mask mask' last : BitVec 32} {es es' : List Event} {irq : ℕ}
    {vector : BitVec 32} (h : Drained clients table n rest mask' last es')
    (hline : mask.getLsbD irq = true) (hvectors : vectorsOn irq pending = vector :: vectorsOn irq rest)
    (hothers : ∀ j, j ≠ irq → vectorsOn j rest = vectorsOn j pending)
    (hfetched : fetched es = [(irq, vector)])
    (hsignals : signals es = (target table n (irq, vector)).toList)
    (hmask : mask' = if clients.acks table n (irq, vector) || (vectorsOn irq rest).isEmpty then mask
      else mask &&& ~~~((1 : BitVec 32) <<< irq)) :
    Drained clients table n pending mask last (es ++ es') := by
  have hbit (j : ℕ) : mask'.getLsbD j = (mask.getLsbD j && (decide (irq ≠ j) ||
      (clients.acks table n (irq, vector) || (vectorsOn irq rest).isEmpty))) := by
    rw [hmask]
    split
    · next hcond => rw [hcond, Bool.or_true, Bool.and_true]
    · next hcond => rw [getLsbD_clear, Bool.not_eq_true _ |>.mp hcond, Bool.or_false]
  refine ⟨fun j => ?_, ?_, fun j => ?_⟩
  · rw [fetched_append, hfetched, vectorsOn_append, h.served, hbit]
    by_cases hj : irq = j
    · subst hj
      simp [hline, hvectors, lineFetched]
    · rw [hothers j fun h => hj h.symm]
      simp [hj]
  · rw [signals_append, fetched_append, hsignals, h.signalled, hfetched, List.filterMap_append]
    cases htarget : target table n (irq, vector) <;> simp [htarget]
  · rw [h.kept, hbit]
    by_cases hj : irq = j
    · subst hj
      simp [hline, hvectors, lineKept]
    · rw [hothers j fun h => hj h.symm]
      simp [hj]

/-- The search over a crate ends, after at most one pass for each pending interrupter and one more. -/
theorem irqsearchLoop_crate (clients : Clients) (n : Fin 16) (idx : ℕ) :
    ∀ (fuel : ℕ) (locals : VmeLocals) (w : World Crate),
      w.outside.pending.length < fuel → (∀ p ∈ w.outside.pending, 1 ≤ p.1 ∧ p.1 ≤ 7) →
      idx < w.daemon.v120Info.length → w.daemon.irqen idx = locals.irqen →
      ∃ w' es, irqsearchLoop (crateSystem clients) idx n fuel locals w = .done w' ∧
        w'.trace = w.trace ++ es ∧
        Drained clients w.daemon.vectorTable n w.outside.pending locals.irqen (w'.daemon.irqen idx) es := by
  intro fuel
  induction fuel with
  | zero => exact fun _ _ hfuel => absurd hfuel (Nat.not_lt_zero _)
  | succ fuel ih =>
    intro locals w hfuel hlines hidx hcached
    have hpass := irqsearch_crate clients n idx locals w hlines hcached
    rw [irqsearchLoop]
    generalize irqsearch (crateSystem clients) idx n locals w = next at hpass
    cases hpass with
    | @idle w' status hnone hio =>
      refine ⟨w', _, rfl, hio.trace, ?_⟩
      rw [hio.daemon, hcached]
      exact drained_idle clients _ n hnone rfl rfl
    | @served locals' w₁ irq vector es hline hvectors hothers hsub hlength hfetched hsignals hmask hdaemon
        htrace =>
      have htable : w₁.daemon.vectorTable = w.daemon.vectorTable := by rw [hdaemon]; rfl
      obtain ⟨w', es', hdone, htrace', hdrained⟩ := ih locals' w₁ (by omega)
        (fun p hp => hlines p (hsub p hp)) (by rw [hdaemon, length_setIrqen]; exact hidx)
        (by rw [hdaemon, Daemon.irqen_setIrqen hidx])
      rw [htable] at hdrained
      exact ⟨w', es ++ es', hdone, by rw [htrace', htrace, List.append_assoc],
        hdrained.served_first hline hvectors hothers hfetched hsignals hmask⟩

/-- The vectors of a line are counted like its interrupters. -/
theorem count_vectorsOn (irq : ℕ) (vector : BitVec 32) (pending : List (ℕ × BitVec 32)) :
    (vectorsOn irq pending).count vector = pending.count (irq, vector) := by
  induction pending with
  | nil => rfl
  | cons p pending ih =>
    rw [vectorsOn_cons, List.count_cons, ← ih]
    by_cases hp : p.1 = irq
    · by_cases hvector : p.2 = vector <;> simp [Prod.ext_iff, hp, hvector]
    · simp [Prod.ext_iff, hp]

/-- A signal names the interrupt it is sent for. -/
theorem target_injective {table : VectorTable} {n : Fin 16} {p p' : ℕ × BitVec 32}
    {found : ℤ × V120irqdSelector} (hp : p.1 ≤ 7)
    (h : target table n p = some found) (h' : target table n p' = some found) : p = p' := by
  have hkey {q : ℕ × BitVec 32} (hq : target table n q = some found) :
      found.2.irq = (1 : BitVec 16) <<< q.1 ∧ found.2.vector = q.2 := by
    unfold target findInterrupt at hq
    split at hq
    · simp at hq
    · next hfind =>
      split at hfind
      · simp at hfind
      · obtain rfl := Except.ok.inj hfind
        obtain rfl := Option.some.inj hq
        exact ⟨rfl, rfl⟩
  obtain ⟨hirq, hvector⟩ := hkey h
  obtain ⟨hirq', hvector'⟩ := hkey h'
  have hbit := congrArg (fun mask : BitVec 16 => mask.getLsbD p.1) (hirq.symm.trans hirq')
  have hlt : p.1 < 16 := by omega
  simp only [getLsbD_bit, hlt, decide_true, Bool.true_and] at hbit
  exact Prod.ext (of_decide_eq_true hbit.symm).symm (hvector.symm.trans hvector')

/-- Every pending interrupter of an enabled line whose client acknowledges is signalled to that
client, as often as it is pending, and its line keeps its enable bit. -/
def HealthyServed (clients : Clients) (table : VectorTable) (n : Fin 16)
    (pending : List (ℕ × BitVec 32)) (mask mask' : BitVec 32) (es : List Event) : Prop :=
  ∀ p ∈ pending, mask.getLsbD p.1 = true → clients.acks table n p = true →
    (∃ found, target table n p = some found ∧ (signals es).count found = pending.count p) ∧
      mask'.getLsbD p.1 = true

/-- A search serves the healthy interrupters exactly when none of them shares its line with one that
is not acknowledged and is not the last there. -/
theorem Drained.healthy_iff {clients : Clients} {table : VectorTable} {n : Fin 16}
    {pending : List (ℕ × BitVec 32)} {mask mask' : BitVec 32} {es : List Event}
    (h : Drained clients table n pending mask mask' es)
    (hlines : ∀ p ∈ pending, 1 ≤ p.1 ∧ p.1 ≤ 7) :
    HealthyServed clients table n pending mask mask' es ↔
      ∀ p ∈ pending, mask.getLsbD p.1 = true → clients.acks table n p = true →
        ∀ vector ∈ (vectorsOn p.1 pending).dropLast, clients.acks table n (p.1, vector) = true := by
  constructor
  · intro hserved p hp hmask hacks
    obtain ⟨-, hkept⟩ := hserved p hp hmask hacks
    rw [h.kept, hmask, Bool.true_and, lineKept_iff] at hkept
    exact hkept
  · intro hneighbours p hp hmask hacks
    have hkept := (lineKept_iff (fun vector => clients.acks table n (p.1, vector))
      (vectorsOn p.1 pending)).mpr (hneighbours p hp hmask hacks)
    refine ⟨?_, by rw [h.kept, hmask, hkept, Bool.and_self]⟩
    have hall : vectorsOn p.1 (fetched es) = vectorsOn p.1 pending := by
      rw [h.served, if_pos hmask, lineFetched_of_kept hkept]
    obtain ⟨found, hfound⟩ : ∃ found, target table n p = some found := by
      rw [Clients.acks] at hacks
      split at hacks
      · simp at hacks
      · next hfound => exact ⟨_, hfound⟩
    refine ⟨found, hfound, ?_⟩
    rw [h.signalled, List.count_filterMap, ← count_vectorsOn p.1 p.2 pending, ← hall, count_vectorsOn,
      List.count]
    apply List.countP_congr
    intro q _
    rw [beq_iff_eq, beq_iff_eq]
    exact ⟨fun htarget => (target_injective (hlines p hp).2 hfound htarget).symm, fun heq => heq ▸ hfound⟩

/-- `process_vme` on a crate returns, and has drained it. -/
theorem processVme_drained (clients : Clients) {idx : ℕ} {w : World Crate} {info : V120Info}
    (hinfo : w.daemon.v120Info[idx]? = some info)
    (hlines : ∀ p ∈ w.outside.pending, 1 ≤ p.1 ∧ p.1 ≤ 7) {fuel : ℕ}
    (hfuel : w.outside.pending.length < fuel) :
    ∃ w' es, processVme (crateSystem clients) fuel idx w = .done w' ∧ w'.trace = w.trace ++ es ∧
      Drained clients w.daemon.vectorTable info.cratenumber w.outside.pending info.irqen
        (w'.daemon.irqen idx) es := by
  have hidx : idx < w.daemon.v120Info.length := (List.getElem?_eq_some_iff.mp hinfo).1
  have hirqen : w.daemon.irqen idx = info.irqen := by simp [Daemon.irqen, hinfo]
  obtain ⟨received, hentry⟩ := vmeEntry_io (crateSystem clients) idx w
  obtain ⟨w', es, hdone, htrace, hdrained⟩ := irqsearchLoop_crate clients info.cratenumber idx fuel
    (vmeEntry (crateSystem clients) idx w).1 (vmeEntry (crateSystem clients) idx w).2 hfuel hlines
    hidx rfl
  have hmask : (vmeEntry (crateSystem clients) idx w).1.irqen = info.irqen := hirqen
  have houtside : (vmeEntry (crateSystem clients) idx w).2.outside = w.outside := rfl
  rw [hentry.daemon, hmask, houtside] at hdrained
  -- the entry only reads, so it adds neither a vector nor a signal
  exact ⟨w', [.processVme (w.pollfd (crateSystem clients) idx).fd,
    .read (w.pollfd (crateSystem clients) idx).fd received] ++ es, by rw [processVme_eq hinfo, hdone],
    by rw [htrace, hentry.trace, List.append_assoc], hdrained.served, hdrained.signalled, hdrained.kept⟩

/-- **When a search serves the healthy interrupters.** It always ends; and it signals all of them and
keeps their lines exactly when, on each enabled line where one of them is pending, everything that
is pending before the last interrupter is acknowledged. -/
theorem processVme_healthy_iff (clients : Clients) (idx : ℕ) (w : World Crate) (info : V120Info)
    (hinfo : w.daemon.v120Info[idx]? = some info)
    (hlines : ∀ p ∈ w.outside.pending, 1 ≤ p.1 ∧ p.1 ≤ 7) (fuel : ℕ)
    (hfuel : w.outside.pending.length < fuel) :
    ∃ w' es, processVme (crateSystem clients) fuel idx w = .done w' ∧ w'.trace = w.trace ++ es ∧
      (HealthyServed clients w.daemon.vectorTable info.cratenumber w.outside.pending info.irqen
          (w'.daemon.irqen idx) es ↔
        ∀ p ∈ w.outside.pending, info.irqen.getLsbD p.1 = true →
          clients.acks w.daemon.vectorTable info.cratenumber p = true →
          ∀ vector ∈ (vectorsOn p.1 w.outside.pending).dropLast,
            clients.acks w.daemon.vectorTable info.cratenumber (p.1, vector) = true) := by
  obtain ⟨w', es, hdone, htrace, hdrained⟩ := processVme_drained clients hinfo hlines hfuel
  exact ⟨w', es, hdone, htrace, hdrained.healthy_iff hlines⟩

/-- Client 5 is registered for the vector 32 of line 1 and acknowledges. Alone on its line it is served. -/
theorem processVme_healthy_alone :
    let clients : Clients := ⟨fun _ _ => none, fun _ _ => some ((⟨0⟩ : ResponseBuffer).setMsg .ack)⟩
    let w : World Crate := ⟨⟨PollList.empty, [⟨0, 2⟩], [⟨⟨1, 2, 32, 0⟩, 5⟩], false⟩, ⟨[(1, 32)], none⟩, []⟩
    ∃ w' es, processVme (crateSystem clients) 2 0 w = .done w' ∧ w'.trace = w.trace ++ es ∧
      HealthyServed clients w.daemon.vectorTable 0 w.outside.pending 2 (w'.daemon.irqen 0) es := by
  intro clients w
  obtain ⟨w', es, hdone, htrace, hiff⟩ := processVme_healthy_iff clients 0 w ⟨0, 2⟩ rfl
    (by simp [w]) 2 (by decide)
  exact ⟨w', es, hdone, htrace, hiff.mpr (by simp [w])⟩

/-- A second interrupter, with a vector nobody registered, is granted the bus first: the vector of
the registered client is never fetched, and the line is disabled. -/
theorem processVme_healthy_behind :
    let clients : Clients := ⟨fun _ _ => none, fun _ _ => some ((⟨0⟩ : ResponseBuffer).setMsg .ack)⟩
    let w : World Crate := ⟨⟨PollList.empty, [⟨0, 2⟩], [⟨⟨1, 2, 32, 0⟩, 5⟩], false⟩,
      ⟨[(1, 16), (1, 32)], none⟩, []⟩
    clients.acks w.daemon.vectorTable 0 (1, 32) = true ∧
      ∃ w' es, processVme (crateSystem clients) 3 0 w = .done w' ∧ w'.trace = w.trace ++ es ∧
        vectorsOn 1 (fetched es) = [16] ∧ (w'.daemon.irqen 0).getLsbD 1 = false ∧
        ¬ HealthyServed clients w.daemon.vectorTable 0 w.outside.pending 2 (w'.daemon.irqen 0) es := by
  intro clients w
  have hacks : clients.acks w.daemon.vectorTable 0 (1, 32) = true := by decide +kernel
  have hrefused : clients.acks w.daemon.vectorTable 0 (1, 16#32) = false := by decide +kernel
  have hvectors : vectorsOn 1 w.outside.pending = [16, 32] := rfl
  have hinfo : w.daemon.v120Info[0]? = some ⟨0, 2⟩ := rfl
  obtain ⟨w', es, hdone, htrace, hdrained⟩ := processVme_drained clients hinfo (by simp [w])
    (show 2 < 3 by decide)
  have hlost : (w'.daemon.irqen 0).getLsbD 1 = false := by
    rw [hdrained.kept, hvectors]
    simp [lineKept, hrefused]
  refine ⟨hacks, w', es, hdone, htrace, ?_, hlost, fun hserved => ?_⟩
  · rw [hdrained.served, hvectors]
    simp [lineFetched, hrefused]
  · have hkept := (hserved (1, 32) (by simp [w]) (by decide) hacks).2
    rw [hlost] at hkept
    exact absurd hkept (by decide)

end V120.Irqd
