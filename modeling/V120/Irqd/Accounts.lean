import V120.Irqd.Pairing

/-!
# What becomes of the requests

Every `REQUEST_IRQ` and `RELEASE_IRQ` is unread, in the hands of `process_client`, or served by a
table call, in the order in which they were sent. One kind of step can lose such a message: the
daemon reads it while it waits for the answer to a signal.
-/

namespace V120.Irqd

open V120.Common

/-- The number of the message `process_client` is about to make a table call for. -/
def Net.inHand (n : Net) (c : ℤ) : List ℕ :=
  match n.point with
  | .requesting sock _ => if sock = c then [n.reading.number] else []
  | .releasing sock _ => if sock = c then [n.reading.number] else []
  | _ => []

/-- The number of the message `process_client` is about to answer after its table call. -/
def Net.decided (n : Net) (c : ℤ) : List ℕ :=
  match n.point with
  | .answering sock _ => if sock = c ∧ n.reading.buf.asks = true then [n.reading.number] else []
  | _ => []

/-- While `process_client` has no message of the client, nothing is in hand and nothing decided. -/
theorem Net.idle_of_unserved {n : Net} {c : ℤ} (h : ∀ m, n.stage c ≠ .serving m) :
    n.inHand c = [] ∧ n.decided c = [] ∧ ∀ msg, n.point ≠ .answering c msg := by
  have hserving := h n.reading
  simp only [Net.stage] at hserving
  rw [Net.inHand, Net.decided]
  split at hserving <;> simp_all

/-- The numbers of the unread messages that ask for a change of the table. -/
def unread (messages : List Message) : List ℕ :=
  (messages.filter fun m => m.buf.asks).map Message.number

/-- The messages of a client that ask for a change of the table, as far as they are accounted for:
served, in hand, and unread. -/
def Net.account (n : Net) (c : ℤ) : List ℕ :=
  (n.client c).served.map TableCall.number ++ n.inHand c ++ unread (n.client c).toServer

@[simp] theorem unread_cons (m : Message) (messages : List Message) :
    unread (m :: messages) = (if m.buf.asks then [m.number] else []) ++ unread messages := by
  by_cases hm : m.buf.asks = true <;> simp [unread, hm]

@[simp] theorem unread_append (messages messages' : List Message) :
    unread (messages ++ messages') = unread messages ++ unread messages' := by
  simp [unread]

/-- The messages of one call all carry its number. -/
theorem unread_map (bufs : List ResponseBuffer) (number : ℕ) :
    unread (bufs.map fun buf => ⟨buf, number⟩) =
      (bufs.filter ResponseBuffer.asks).map fun _ => number := by
  rw [unread, List.filter_map, List.map_map]
  rfl

/-- Only requests and releases ask for a change of the table. -/
theorem asks_iff (buf : ResponseBuffer) :
    buf.asks = true ↔ buf.msg = .requestIrq ∨ buf.msg = .releaseIrq := by
  rw [ResponseBuffer.asks, Bool.or_eq_true, beq_iff_eq, beq_iff_eq]

/-- What one step does to the account of one client. -/
inductive AccountStep (n n' : Net) (d : ℤ) : Prop where
  | same (haccount : n'.account d = n.account d)
      (hasked : (n'.client d).asked = (n.client d).asked)
      (hcalls : (n'.client d).calls = (n.client d).calls)
  | asked (more : List ℕ) (hmore : more = [] ∨ more = [(n.client d).calls + 1])
      (haccount : n'.account d = n.account d ++ more)
      (hasked : (n'.client d).asked = (n.client d).asked ++ more)
      (hcalls : (n'.client d).calls = (n.client d).calls + 1)
  | lost (m : Message) (rest : List Message) (hpoint : n.point = .awaiting d)
      (hqueue : (n.client d).toServer = m :: rest) (hasks : m.buf.asks = true)
      (haccount : (n'.account d).Sublist (n.account d))
      (hasked : (n'.client d).asked = (n.client d).asked)
      (hcalls : (n'.client d).calls = (n.client d).calls)

/-- A step elsewhere puts nothing of a client in hand. -/
theorem Elsewhere.inHand {c : ℤ} {n n' : Net} (h : Elsewhere c n n') : n'.inHand c = n.inHand c := by
  cases h with
  | still hclient hpoint htable hreading hsignals => rw [Net.inHand, Net.inHand, hpoint, hreading]
  | away hclient hbefore hafter =>
    obtain ⟨hinHand, -, -⟩ := Net.idle_of_unserved (c := c) (n := n) (by simp [hbefore])
    obtain ⟨hinHand', -, -⟩ := Net.idle_of_unserved (c := c) (n := n') (by simp [hafter])
    rw [hinHand, hinHand']

/-- A step elsewhere keeps the account of a client. -/
theorem Elsewhere.account {c : ℤ} {n n' : Net} (h : Elsewhere c n n') : AccountStep n n' c :=
  .same (by rw [Net.account, Net.account, h.client, h.inHand]) (by rw [h.client]) (by rw [h.client])

/-- A client's own steps keep its account, add to it what the client asks, or lose a message. -/
theorem OwnStep.account {fake : Bool} {c : ℤ} {l : NetLabel} {n n' : Net}
    (h : OwnStep fake c n l n') : AccountStep n n' c := by
  cases h with
  | tabled hevent hcall =>
    refine .same ?_ (by simp) (by simp)
    rcases hcall with ⟨h, -⟩ | ⟨h, -⟩ <;> simp [Net.account, Net.inHand, h]
  | @received m rest hpoint hqueue =>
    have hafter : Net.inHand { n with
        point := .ofMessage fake c m.buf.msg m.buf.selector
        client := n.update c fun k => { k with toServer := rest }
        reading := m } c = if m.buf.asks then [m.number] else [] := by
      simp only [Net.inHand, asks_iff]
      cases m.buf.msg <;> simp [ServerPoint.ofMessage]
    have hbefore : n.inHand c = [] := by simp [Net.inHand, hpoint]
    refine .same ?_ (by simp) (by simp)
    simp [Net.account, hbefore, hafter, hqueue]
  | answered hpoint hmsg =>
    refine .same ?_ (by simp) (by simp)
    simp [Net.account, Net.inHand, hpoint]
  | signalled hpoint hmsg =>
    refine .same ?_ (by simp) (by simp)
    simp [Net.account, Net.inHand, hpoint]
  | @settled m rest hpoint hqueue =>
    cases hasks : m.buf.asks with
    | true =>
      refine .lost m rest hpoint hqueue hasks ?_ (by simp) (by simp)
      simp [Net.account, Net.inHand, hpoint, hqueue]
    | false =>
      refine .same ?_ (by simp) (by simp)
      simp [Net.account, Net.inHand, hpoint, hqueue, hasks]
  | call call stale hphase =>
    refine .asked (((call.sends stale).filter ResponseBuffer.asks).map fun _ => (n.client c).calls + 1)
      ?_ ?_ (by simp [Client.call]) (by simp [Client.call])
    · rcases call.sends_cases stale with ⟨-, hsends⟩ | ⟨buf, hsends, -⟩
      · exact Or.inl (by rw [hsends]; rfl)
      · cases hasks : buf.asks <;> simp [hsends, hasks]
    · simp [Net.account, Client.call, unread_map, Net.inHand]
  | finish hphase hqueue =>
    refine .same ?_ (by simp [Client.finish]) (by simp [Client.finish])
    simp [Net.account, Client.finish, Net.inHand]
  | answer answer stale hphase =>
    refine .same ?_ (by simp [Client.answer]) (by simp [Client.answer])
    obtain ⟨buf, hsends, hmsg⟩ := answer.sends_eq stale
    have hasks : buf.asks = false := by
      rcases hmsg with hmsg | hmsg <;> simp [ResponseBuffer.asks, hmsg]
    simp [Net.account, Client.answer, hsends, hasks, Net.inHand, unread]

/-- Every step keeps the account of a client, adds to it what the client asks, or loses a message. -/
theorem NetStep.account {fake : Bool} {l : NetLabel} {n n' : Net} (h : NetStep fake l n n') (d : ℤ) :
    AccountStep n n' d := by
  rcases h.own_or_elsewhere d with hown | helsewhere
  · exact hown.account
  · exact helsewhere.account

/-- In a run the messages accounted for are among those that were sent, and numbers only grow. -/
structure Accounted (n : Net) (c : ℤ) : Prop where
  sublist : (n.account c).Sublist (n.client c).asked
  increasing : (n.client c).asked.Pairwise (· < ·)
  bounded : ∀ k ∈ (n.client c).asked, k ≤ (n.client c).calls

/-- Every step keeps the numbers in order. -/
theorem AccountStep.accounted {n n' : Net} {c : ℤ} (h : AccountStep n n' c) (hn : Accounted n c) :
    Accounted n' c := by
  cases h with
  | same haccount hasked hcalls =>
    exact ⟨by rw [haccount, hasked]; exact hn.sublist, by rw [hasked]; exact hn.increasing,
      by rw [hasked, hcalls]; exact hn.bounded⟩
  | asked more hmore haccount hasked hcalls =>
    have hnew : ∀ k ∈ more, k = (n.client c).calls + 1 := by
      rcases hmore with rfl | rfl <;> simp
    refine ⟨?_, ?_, ?_⟩
    · rw [haccount, hasked]
      exact hn.sublist.append_right more
    · rw [hasked]
      refine List.pairwise_append.mpr ⟨hn.increasing, ?_, fun k hk k' hk' => ?_⟩
      · rcases hmore with rfl | rfl <;> simp
      · have hle := hn.bounded k hk
        have heq := hnew k' hk'
        omega
    · rw [hasked, hcalls]
      intro k hk
      rcases List.mem_append.mp hk with hk | hk
      · exact Nat.le_succ_of_le (hn.bounded k hk)
      · exact Nat.le_of_eq (hnew k hk)
  | lost m rest hpoint hqueue hasks haccount hasked hcalls =>
    exact ⟨by rw [hasked]; exact haccount.trans hn.sublist, by rw [hasked]; exact hn.increasing,
      by rw [hasked, hcalls]; exact hn.bounded⟩

/-- In every run the numbers are in order. -/
theorem net_accounted {fake : Bool} {table : VectorTable} {ls : List NetLabel} {n : Net}
    (h : Run (NetStep fake) ls (.start table) n) (c : ℤ) : Accounted n c := by
  have hstart : Accounted (.start table) c := ⟨.slnil, .nil, fun k hk => absurd hk (by simp [Net.start, Client.start])⟩
  exact h.invariant (fun l s t hstep hs => (hstep.account c).accounted hs) hstart

/-- The message in hand is newer than all that were served. -/
theorem Accounted.served_lt {n : Net} {c : ℤ} (h : Accounted n c) {k : ℕ} (hk : n.inHand c = [k]) :
    ∀ t ∈ (n.client c).served, t.number < k := by
  have hincreasing := h.increasing.sublist h.sublist
  rw [Net.account, hk, List.append_assoc] at hincreasing
  intro t ht
  exact (List.pairwise_append.mp hincreasing).2.2 t.number (List.mem_map_of_mem ht) k (by simp)

/-- Every table call is made for a message that asks for one, and is answered once, by an `ACK` or a
`NAK`. -/
structure Reported (n : Net) (c : ℤ) : Prop where
  asks : ∀ k ∈ n.inHand c, n.reading.buf.asks = true
  answer : ∀ msg, n.point = .answering c msg → n.reading.buf.asks = true → msg = .ack ∨ msg = .nak
  served : (n.client c).served.map TableCall.number = (n.client c).answered ++ n.decided c

/-- A client whose message is not being served. -/
theorem Reported.of_unserved {n n' : Net} {c : ℤ} (h : ∀ m, n.stage c ≠ .serving m)
    (h' : ∀ m, n'.stage c ≠ .serving m) (hn : Reported n c)
    (hserved : (n'.client c).served = (n.client c).served)
    (hanswered : (n'.client c).answered = (n.client c).answered) : Reported n' c := by
  obtain ⟨-, hdecided, -⟩ := Net.idle_of_unserved h
  obtain ⟨hinHand', hdecided', hpoint'⟩ := Net.idle_of_unserved h'
  refine ⟨?_, fun msg hpoint => absurd hpoint (hpoint' msg), ?_⟩
  · intro k hk
    rw [hinHand'] at hk
    exact absurd hk (by simp)
  · rw [hserved, hanswered, hdecided', ← hdecided]
    exact hn.served

/-- The daemon does nothing. -/
theorem Reported.congr {n n' : Net} {c : ℤ} (hn : Reported n c) (hpoint : n'.point = n.point)
    (hreading : n'.reading = n.reading) (hserved : (n'.client c).served = (n.client c).served)
    (hanswered : (n'.client c).answered = (n.client c).answered) : Reported n' c := by
  have hinHand : n'.inHand c = n.inHand c := by rw [Net.inHand, Net.inHand, hpoint, hreading]
  have hdecided : n'.decided c = n.decided c := by rw [Net.decided, Net.decided, hpoint, hreading]
  exact ⟨by rw [hinHand, hreading]; exact hn.asks, by rw [hpoint, hreading]; exact hn.answer,
    by rw [hserved, hanswered, hdecided]; exact hn.served⟩

/-- A step elsewhere leaves the table calls of a client as they are. -/
theorem Elsewhere.reported {c : ℤ} {n n' : Net} (h : Elsewhere c n n') (hn : Reported n c) :
    Reported n' c := by
  cases h with
  | still hclient hpoint htable hreading hsignals =>
    exact hn.congr hpoint hreading (by rw [hclient]) (by rw [hclient])
  | away hclient hbefore hafter =>
    exact .of_unserved (by simp [hbefore]) (by simp [hafter]) hn (by rw [hclient]) (by rw [hclient])

/-- A client's own steps answer the table calls made before, each once. -/
theorem OwnStep.reported {fake : Bool} {c : ℤ} {l : NetLabel} {n n' : Net}
    (h : OwnStep fake c n l n') (hn : Reported n c) : Reported n' c := by
  have hserved := hn.served
  cases h with
  | @tabled e sel ret table hevent hcall =>
    have hinHand : n.inHand c = [n.reading.number] := by
      rcases hcall with ⟨h, -⟩ | ⟨h, -⟩ <;> simp [Net.inHand, h]
    have hdecided : n.decided c = [] := by
      rcases hcall with ⟨h, -⟩ | ⟨h, -⟩ <;> simp [Net.decided, h]
    have hasks : n.reading.buf.asks = true := hn.asks n.reading.number (by simp [hinHand])
    rw [hdecided, List.append_nil] at hserved
    refine ⟨by simp [Net.inHand], ?_, ?_⟩
    · intro msg hmsg _
      rw [← (ServerPoint.answering.inj hmsg).2]
      by_cases hret : ret < 0 <;> simp [hret]
    · simp [Net.decided, hasks, hserved]
  | @received m rest hpoint hqueue =>
    have hdecided : n.decided c = [] := by simp [Net.decided, hpoint]
    rw [hdecided, List.append_nil] at hserved
    -- only `REQUEST_IRQ` and `RELEASE_IRQ` lead to a table call, and only the others to an answer
    refine ⟨?_, ?_, ?_⟩
    · simp only [Net.inHand, asks_iff]
      cases m.buf.msg <;> simp [ServerPoint.ofMessage]
    · simp only [asks_iff]
      cases m.buf.msg <;> simp [ServerPoint.ofMessage]
    · simp only [Net.decided, asks_iff, Net.update_self]
      cases m.buf.msg <;> simp [ServerPoint.ofMessage, hserved]
  | answered hpoint hmsg =>
    refine ⟨by simp [Net.inHand], by simp, ?_⟩
    simpa [Net.decided, hpoint] using hserved
  | signalled hpoint hmsg =>
    exact .of_unserved (by simp [Net.stage, hpoint]) (by simp [Net.stage]) hn (by simp) (by simp)
  | settled hpoint hqueue =>
    exact .of_unserved (by simp [Net.stage, hpoint]) (by simp [Net.stage]) hn (by simp) (by simp)
  | call call stale hphase => exact hn.congr rfl rfl (by simp [Client.call]) (by simp [Client.call])
  | finish hphase hqueue => exact hn.congr rfl rfl (by simp [Client.finish]) (by simp [Client.finish])
  | answer answer stale hphase =>
    exact hn.congr rfl rfl (by simp [Client.answer]) (by simp [Client.answer])

/-- Every step answers the table calls made before, each once. -/
theorem NetStep.reported {fake : Bool} {l : NetLabel} {n n' : Net} {c : ℤ} (h : NetStep fake l n n')
    (hn : Reported n c) : Reported n' c := by
  rcases h.own_or_elsewhere c with hown | helsewhere
  · exact hown.reported hn
  · exact helsewhere.reported hn

/-- In every run, crossings included, each table call is answered once. -/
theorem net_reported {fake : Bool} {table : VectorTable} {ls : List NetLabel} {n : Net}
    (h : Run (NetStep fake) ls (.start table) n) (c : ℤ) : Reported n c := by
  have hstart : Reported (.start table) c :=
    ⟨fun k hk => absurd hk (by simp [Net.inHand, Net.start]), fun msg hpoint => absurd hpoint
      (by simp [Net.start]), rfl⟩
  exact h.invariant (fun l s t hstep hs => hstep.reported hs) hstart

end V120.Irqd
