import V120.Irqd.Crossings
import V120.Irqd.TableRuns

/-!
# Clients and daemon agree about the table

What a call returned tells the client what the table holds for it. An answer is true when the
daemon decides it, and stays true until the client reads it, since calls for other clients
leave the client's own entries alone and the client itself makes no other call meanwhile.
-/

namespace V120.Irqd

open V120.Common

/-- The table has an entry with a client's descriptor and exactly this selector. -/
def Holds (table : VectorTable) (c : ℤ) (sel : V120irqdSelector) : Prop :=
  ⟨sel, c⟩ ∈ foreachVector table

/-- The table has an entry with a client's descriptor and the key of this selector. -/
def HoldsKey (table : VectorTable) (c : ℤ) (sel : V120irqdSelector) : Prop :=
  ∃ entry ∈ foreachVector table, entry.data = c ∧ SameKey entry.selector sel

/-- What a client holds depends on its own entries only. -/
theorem holds_congr {table table' : VectorTable} {c : ℤ}
    (h : ownedEntries c table' = ownedEntries c table) (sel : V120irqdSelector) :
    Holds table' c sel ↔ Holds table c sel := by
  have howned (t : VectorTable) : Holds t c sel ↔ ⟨sel, c⟩ ∈ ownedEntries c t := by
    simp [Holds, ownedEntries]
  rw [howned, howned, h]

/-- The keys a client holds depend on its own entries only. -/
theorem holdsKey_congr {table table' : VectorTable} {c : ℤ}
    (h : ownedEntries c table' = ownedEntries c table) (sel : V120irqdSelector) :
    HoldsKey table' c sel ↔ HoldsKey table c sel := by
  have howned (t : VectorTable) :
      HoldsKey t c sel ↔ ∃ entry ∈ ownedEntries c t, SameKey entry.selector sel := by
    simp [HoldsKey, ownedEntries, and_assoc]
  rw [howned, howned, h]

/-- An accepted request is in the table. -/
theorem Recorded.holds {c : ℤ} {sel : V120irqdSelector} {r r' : Registry}
    (h : Recorded (.register c sel 0) r r') : Holds r'.layout c sel := by
  cases h with
  | registered hlegal hfree hentries =>
    rw [Holds, r'.foreachVector_layout, hentries, List.map_append]
    exact List.mem_append_right _ (List.mem_singleton_self _)
  | refused hret => exact absurd hret (by decide)
  | other _ h => exact absurd h (by simp [Event.changesTable])

/-- A released registration is not in the table. -/
theorem Recorded.not_holdsKey {c : ℤ} {sel : V120irqdSelector} {r r' : Registry}
    (h : Recorded (.release c sel 0) r r') : ¬ HoldsKey r'.layout c sel := by
  cases h with
  | released hfound hentries =>
    rintro ⟨entry, hentry, howner, hkey⟩
    rw [r'.foreachVector_layout, hentries] at hentry
    obtain ⟨reg, hreg, rfl⟩ := List.mem_map.mp hentry
    obtain ⟨-, hkept⟩ := List.mem_filter.mp hreg
    have howner' : reg.owner = c := howner
    have hkey' : SameKey reg.selector sel := hkey
    simp [howner', hkey'] at hkept
  | kept hret => exact absurd hret (by decide)
  | other _ h => exact absurd h (by simp [Event.changesTable])

/-- A refused call leaves the registrations as they are. -/
theorem Recorded.eq_of_neg {c ret : ℤ} {sel : V120irqdSelector} {r r' : Registry}
    (h : Recorded (.register c sel ret) r r' ∨ Recorded (.release c sel ret) r r') (hret : ret < 0) :
    r' = r := by
  rcases h with h | h <;> cases h <;> first | rfl | exact absurd hret (by decide)

/-- The return code of a table call is 0 or an error. -/
theorem Recorded.ret_cases {c ret : ℤ} {sel : V120irqdSelector} {r r' : Registry}
    (h : Recorded (.register c sel ret) r r' ∨ Recorded (.release c sel ret) r r') :
    ret = 0 ∨ ret < 0 := by
  rcases h with h | h
  · cases h with
    | registered hlegal hfree hentries => exact Or.inl rfl
    | refused hret => exact Or.inr hret
    | other _ h => exact absurd h (by simp [Event.changesTable])
  · cases h with
    | released hfound hentries => exact Or.inl rfl
    | kept hret => exact Or.inr hret
    | other _ h => exact absurd h (by simp [Event.changesTable])

/-- Calls for one client leave the registrations of the others as they are. -/
theorem Recorded.owned_of_ne {c d ret : ℤ} {sel : V120irqdSelector} {r r' : Registry}
    (h : Recorded (.register d sel ret) r r' ∨ Recorded (.release d sel ret) r r') (hd : d ≠ c) :
    r'.owned c = r.owned c := by
  rcases h with h | h
  · cases h with
    | registered hlegal hfree hentries =>
      rw [Registry.owned, Registry.owned, hentries, List.filter_append,
        List.filter_cons_of_neg (by simpa using hd), List.filter_nil, List.append_nil]
    | refused hret => rfl
    | other _ h => rfl
  · cases h with
    | released hfound hentries =>
      rw [Registry.owned, Registry.owned, hentries, List.filter_filter]
      apply List.filter_congr
      intro reg _
      by_cases hreg : reg.owner = c
      · simp [hreg, Ne.symm hd]
      · simp [hreg]
    | kept hret => rfl
    | other _ h => rfl

/-- Every step leaves a table that stores a list of registrations. -/
theorem NetStep.layout {fake : Bool} {l : NetLabel} {n n' : Net} (hstep : NetStep fake l n n')
    (h : ∃ r : Registry, n.table = r.layout) : ∃ r : Registry, n'.table = r.layout := by
  obtain ⟨r, hr⟩ := h
  cases hstep with
  | inside hpoint hstep => exact ⟨r, (hstep.inside hpoint).1.trans hr⟩
  | tabled hpoint hstep =>
    obtain ⟨hevent, -⟩ := hstep.tabled hpoint
    rw [hr] at hevent
    obtain ⟨r', hr', -⟩ := hevent.recorded
    exact ⟨r', hr'⟩
  | received => exact ⟨r, hr⟩
  | answered => exact ⟨r, hr⟩
  | signalled => exact ⟨r, hr⟩
  | settled => exact ⟨r, hr⟩
  | call => exact ⟨r, hr⟩
  | finish => exact ⟨r, hr⟩
  | answer => exact ⟨r, hr⟩

/-- The one table call made for a client's last call left the table as it was. -/
def Net.Untouched (n : Net) (c : ℤ) : Prop :=
  ∃ table, (n.client c).served.filter (fun t => t.number == (n.client c).calls) =
    [⟨(n.client c).calls, table, table⟩]

/-- What an answer tells a client about its request or release. -/
def Net.Verdict (n : Net) (c : ℤ) (call : Call) (msg : MessageSelect) : Prop :=
  match call with
  | .request sel => (msg = .ack → Holds n.table c sel) ∧ (msg = .nak → n.Untouched c)
  | .release sel => (msg = .ack → ¬ HoldsKey n.table c sel) ∧ (msg = .nak → n.Untouched c)
  | _ => True

/-- A message that is no answer tells nothing. -/
theorem Net.verdict_of_ne (n : Net) (c : ℤ) (call : Call) {msg : MessageSelect} (hack : msg ≠ .ack)
    (hnak : msg ≠ .nak) : n.Verdict c call msg := by
  cases call with
  | request sel => exact ⟨fun h => absurd h hack, fun h => absurd h hnak⟩
  | release sel => exact ⟨fun h => absurd h hack, fun h => absurd h hnak⟩
  | interrupt sel => trivial
  | status => trivial
  | getinterrupt => trivial

/-- An answer stays true while the client's entries stay and nothing is done for the client. -/
theorem Net.Verdict.congr {n n' : Net} {c : ℤ} {call : Call} {msg : MessageSelect}
    (h : n.Verdict c call msg) (howned : ownedEntries c n'.table = ownedEntries c n.table)
    (hserved : (n'.client c).served = (n.client c).served)
    (hcalls : (n'.client c).calls = (n.client c).calls) : n'.Verdict c call msg := by
  have huntouched : n.Untouched c → n'.Untouched c := by
    rw [Net.Untouched, Net.Untouched, hserved, hcalls]
    exact id
  cases call with
  | request sel => exact ⟨fun hack => (holds_congr howned sel).mpr (h.1 hack), fun hnak => huntouched (h.2 hnak)⟩
  | release sel =>
    exact ⟨fun hack hholds => h.1 hack ((holdsKey_congr howned sel).mp hholds),
      fun hnak => huntouched (h.2 hnak)⟩
  | interrupt sel => trivial
  | status => trivial
  | getinterrupt => trivial

/-- The daemon acts on what the client in a call asked, and every answer on its way is true. -/
structure Truthful (n : Net) (c : ℤ) : Prop where
  requesting : ∀ sel, n.point = .requesting c sel →
    ∃ stale, (n.client c).phase = .busy (.request sel) stale
  releasing : ∀ sel, n.point = .releasing c sel →
    ∃ stale, (n.client c).phase = .busy (.release sel) stale
  answering : ∀ msg call stale, n.point = .answering c msg →
    (n.client c).phase = .busy call stale → n.Verdict c call msg
  waiting : ∀ call stale, (n.client c).phase = .busy call stale →
    ∀ m ∈ (n.client c).toClient, n.Verdict c call m.buf.msg

/-- A client whose message is not being served. -/
theorem Truthful.of_unserved {n : Net} {c : ℤ} (hstage : ∀ m, n.stage c ≠ .serving m)
    (hwaiting : ∀ call stale, (n.client c).phase = .busy call stale →
      ∀ m ∈ (n.client c).toClient, n.Verdict c call m.buf.msg) : Truthful n c where
  requesting sel hpoint := absurd (by simp [Net.stage, hpoint]) (hstage n.reading)
  releasing sel hpoint := absurd (by simp [Net.stage, hpoint]) (hstage n.reading)
  answering msg call stale hpoint _ := absurd (by simp [Net.stage, hpoint]) (hstage n.reading)
  waiting := hwaiting

/-- Answers on their way stay true while nothing happens to the client. -/
theorem Truthful.waiting_congr {n n' : Net} {c : ℤ} (h : Truthful n c)
    (hclient : n'.client c = n.client c)
    (howned : ownedEntries c n'.table = ownedEntries c n.table) :
    ∀ call stale, (n'.client c).phase = .busy call stale →
      ∀ m ∈ (n'.client c).toClient, n'.Verdict c call m.buf.msg := by
  intro call stale hphase m hm
  rw [hclient] at hphase hm
  exact (h.waiting call stale hphase m hm).congr howned (by rw [hclient]) (by rw [hclient])

/-- Messages arrive for a client that is not being served, and what they tell it is true. -/
theorem Truthful.delivered {n n' : Net} {c : ℤ} (h : Truthful n c) (hstage : ∀ m, n'.stage c ≠ .serving m)
    (htable : n'.table = n.table) (hphase : (n'.client c).phase = (n.client c).phase)
    (hserved : (n'.client c).served = (n.client c).served) (hcalls : (n'.client c).calls = (n.client c).calls)
    {new : List Message} (hqueue : (n'.client c).toClient = (n.client c).toClient ++ new)
    (hnew : ∀ call stale, (n.client c).phase = .busy call stale →
      ∀ m ∈ new, n.Verdict c call m.buf.msg) : Truthful n' c := by
  refine .of_unserved hstage fun call stale hbusy m hm => ?_
  rw [hphase] at hbusy
  rw [hqueue] at hm
  have hverdict : n.Verdict c call m.buf.msg := by
    rcases List.mem_append.mp hm with hm | hm
    · exact h.waiting call stale hbusy m hm
    · exact hnew call stale hbusy m hm
  exact hverdict.congr (by rw [htable]) hserved hcalls

/-- A client that is in no call is not being served. -/
theorem Paired.unserved {n : Net} {c : ℤ} (hpaired : Paired (n.view c))
    (hphase : ∀ call stale, (n.client c).phase ≠ .busy call stale) (m : Message) : n.stage c ≠ .serving m := by
  intro hstage
  obtain ⟨-, -, call, stale, hbusy, -⟩ := hpaired.of_serving hstage
  exact hphase call stale hbusy

/-- Nothing happens. -/
theorem Truthful.congr {n n' : Net} {c : ℤ} (h : Truthful n c) (hpoint : n'.point = n.point)
    (htable : n'.table = n.table) (hclient : n'.client c = n.client c) : Truthful n' c where
  requesting := by
    rw [hpoint, hclient]
    exact h.requesting
  releasing := by
    rw [hpoint, hclient]
    exact h.releasing
  answering msg call stale := by
    rw [hpoint, hclient]
    intro hanswering hphase
    exact (h.answering msg call stale hanswering hphase).congr (by rw [htable]) (by rw [hclient])
      (by rw [hclient])
  waiting := h.waiting_congr hclient (by rw [htable])

/-- What a table call decides for a client. -/
theorem Recorded.verdict {n : Net} {c ret : ℤ} (sel : V120irqdSelector) {call : Call} {r r' : Registry}
    (hr : n.table = r'.layout)
    (hserved : (n.client c).served.filter (fun t => t.number == (n.client c).calls) =
      [⟨(n.client c).calls, r.layout, r'.layout⟩])
    (h : (call = .request sel ∧ Recorded (.register c sel ret) r r') ∨
      (call = .release sel ∧ Recorded (.release c sel ret) r r')) :
    n.Verdict c call (if ret < 0 then .nak else .ack) := by
  have hrecorded : Recorded (.register c sel ret) r r' ∨ Recorded (.release c sel ret) r r' :=
    h.imp And.right And.right
  have hrefused : ret < 0 → n.Untouched c := by
    intro hneg
    rw [Recorded.eq_of_neg hrecorded hneg] at hserved
    exact ⟨_, hserved⟩
  have hack : (if ret < 0 then MessageSelect.nak else .ack) = .ack → ret = 0 := by
    intro hack
    rcases Recorded.ret_cases hrecorded with hzero | hneg
    · exact hzero
    · rw [if_pos hneg] at hack
      exact absurd hack (by decide)
  have hnak : (if ret < 0 then MessageSelect.nak else .ack) = .nak → ret < 0 := by
    intro hnak
    by_contra hneg
    rw [if_neg hneg] at hnak
    exact absurd hnak (by decide)
  rcases h with ⟨rfl, h⟩ | ⟨rfl, h⟩
  · refine ⟨fun hmsg => ?_, fun hmsg => hrefused (hnak hmsg)⟩
    rw [hack hmsg] at h
    exact hr ▸ h.holds
  · refine ⟨fun hmsg => ?_, fun hmsg => hrefused (hnak hmsg)⟩
    rw [hack hmsg] at h
    exact hr ▸ h.not_holdsKey

/-- A table call acts on what the client in a call asked. -/
theorem Truthful.tabled {n : Net} {e : Event} {c ret : ℤ} {sel : V120irqdSelector}
    {table : VectorTable} {r : Registry} (hr : n.table = r.layout)
    (hpaired : Paired (n.view c)) (haccounted : Accounted n c) (h : Truthful n c)
    (hevent : TableEvent e n.table table)
    (hcall : (n.point = .requesting c sel ∧ e = .register c sel ret) ∨
      (n.point = .releasing c sel ∧ e = .release c sel ret)) :
    Truthful { n with
      point := .answering c (if ret < 0 then .nak else .ack)
      table := table
      client := n.update c fun k =>
        { k with served := k.served ++ [⟨n.reading.number, n.table, table⟩] } } c := by
  rw [hr] at hevent
  obtain ⟨r', rfl, hrecorded⟩ := hevent.recorded
  have hstage : n.stage c = .serving n.reading := by
    rcases hcall with ⟨hpoint, -⟩ | ⟨hpoint, -⟩ <;> simp [Net.stage, hpoint]
  have hinHand : n.inHand c = [n.reading.number] := by
    rcases hcall with ⟨hpoint, -⟩ | ⟨hpoint, -⟩ <;> simp [Net.inHand, hpoint]
  obtain ⟨-, hempty, call, stale, hphase, hcalls⟩ := hpaired.of_serving hstage
  have hempty' : (n.client c).toClient = [] := hempty
  have hphase' : (n.client c).phase = .busy call stale := hphase
  have hnumber : n.reading.number = (n.client c).calls := hcalls.number
  -- every earlier table call was made for an earlier call of the client
  have hearlier : (n.client c).served.filter (fun t => t.number == (n.client c).calls) = [] := by
    rw [List.filter_eq_nil_iff]
    intro t ht
    have hlt := haccounted.served_lt hinHand t ht
    simpa [← hnumber] using Nat.ne_of_lt hlt
  constructor
  · exact fun _ hpoint' => absurd hpoint' (by simp)
  · exact fun _ hpoint' => absurd hpoint' (by simp)
  · intro msg other stale' hmsg hbusy
    simp only [ServerPoint.answering.injEq, true_and] at hmsg
    simp only [Net.update_self, hphase', Phase.busy.injEq] at hbusy
    obtain ⟨rfl, -⟩ := hbusy
    rw [← hmsg]
    refine Recorded.verdict (r := r) sel rfl ?_ ?_
    · simp [hearlier, hnumber, hr]
    · rcases hcall with ⟨hrequesting, rfl⟩ | ⟨hreleasing, rfl⟩
      · obtain ⟨_, hrequest⟩ := h.requesting sel hrequesting
        rw [hphase', Phase.busy.injEq] at hrequest
        exact Or.inl ⟨hrequest.1, hrecorded⟩
      · obtain ⟨_, hrelease⟩ := h.releasing sel hreleasing
        rw [hphase', Phase.busy.injEq] at hrelease
        exact Or.inr ⟨hrelease.1, hrecorded⟩
  · intro other stale' _ m hm
    simp only [Net.update_self, hempty'] at hm
    exact absurd hm (by simp)

/-- `process_client` does what the message of the client in a call says. -/
theorem Truthful.received (fake : Bool) {n : Net} {c : ℤ} {m : Message} {rest : List Message}
    (hpaired : Paired (n.view c)) (hpoint : n.point = .receiving c)
    (hqueue : (n.client c).toServer = m :: rest) :
    Truthful { n with
      point := .ofMessage fake c m.buf.msg m.buf.selector
      client := n.update c fun k => { k with toServer := rest }
      reading := m } c := by
  have hstage : n.stage c = .away := by simp [Net.stage, hpoint]
  obtain ⟨-, hempty, call, stale, hphase, hcalls⟩ := hpaired.of_unread hstage hqueue
  have hempty' : (n.client c).toClient = [] := hempty
  have hphase' : (n.client c).phase = .busy call stale := hphase
  have hmessage := hcalls.sent.message
  have hselector := hcalls.sent.selector
  constructor
  · intro sel hrequesting
    cases call <;> simp only [Call.message, Option.some.injEq, reduceCtorEq] at hmessage <;>
      simp only [← hmessage, ServerPoint.ofMessage, reduceCtorEq,
        ServerPoint.requesting.injEq, true_and] at hrequesting
    rw [hselector _ rfl] at hrequesting
    subst hrequesting
    exact ⟨stale, by simpa using hphase'⟩
  · intro sel hreleasing
    cases call <;> simp only [Call.message, Option.some.injEq, reduceCtorEq] at hmessage <;>
      simp only [← hmessage, ServerPoint.ofMessage, reduceCtorEq,
        ServerPoint.releasing.injEq, true_and] at hreleasing
    rw [hselector _ rfl] at hreleasing
    subst hreleasing
    exact ⟨stale, by simpa using hphase'⟩
  · intro msg other stale' hanswering hbusy
    simp only [Net.update_self, hphase', Phase.busy.injEq] at hbusy
    obtain ⟨rfl, -⟩ := hbusy
    cases call <;> simp only [Call.message, Option.some.injEq, reduceCtorEq] at hmessage <;>
      simp only [← hmessage, ServerPoint.ofMessage, reduceCtorEq] at hanswering <;> trivial
  · intro other stale' _ reply hreply
    simp only [Net.update_self, hempty'] at hreply
    exact absurd hreply (by simp)

/-- A step elsewhere keeps the answers for a client true. -/
theorem Elsewhere.truthful {c : ℤ} {n n' : Net} {r : Registry} (helsewhere : Elsewhere c n n')
    (hr : n.table = r.layout) (h : Truthful n c) : Truthful n' c := by
  cases helsewhere with
  | still hclient hpoint htable hreading hsignals => exact h.congr hpoint htable hclient
  | away hclient hbefore hafter htable =>
    have howned : ownedEntries c n'.table = ownedEntries c n.table := by
      rcases htable with hsame | ⟨e, d, sel, ret, hd, hevent, hcall⟩
      · rw [hsame]
      · rw [hr] at hevent
        obtain ⟨r', hr', hrecorded⟩ := hevent.recorded
        have hchanged : Recorded (.register d sel ret) r r' ∨ Recorded (.release d sel ret) r r' := by
          rcases hcall with rfl | rfl
          · exact Or.inl hrecorded
          · exact Or.inr hrecorded
        rw [hr, hr', ownedEntries_layout, ownedEntries_layout, Recorded.owned_of_ne hchanged hd]
    exact .of_unserved (by simp [hafter]) (h.waiting_congr hclient howned)

/-- A client's own steps keep the answers for it true. -/
theorem OwnStep.truthful {fake : Bool} {c : ℤ} {l : NetLabel} {n n' : Net} {r : Registry}
    (hstep : OwnStep fake c n l n') (hr : n.table = r.layout) (hpaired : Paired (n.view c))
    (haccounted : Accounted n c) (h : Truthful n c) : Truthful n' c := by
  cases hstep with
  | tabled hevent hcall => exact h.tabled hr hpaired haccounted hevent hcall
  | received hpoint hqueue => exact .received fake hpaired hpoint hqueue
  | @answered msg buf hpoint hmsg =>
    refine h.delivered (by simp [Net.stage]) rfl (by simp) (by simp) (by simp)
      (by simp only [Net.update_self]; rfl) fun call stale hphase reply hreply => ?_
    obtain rfl := List.mem_singleton.mp hreply
    exact hmsg ▸ h.answering msg call stale hpoint hphase
  | @signalled sel buf hpoint hmsg =>
    refine h.delivered (by simp [Net.stage]) rfl (by simp) (by simp) (by simp)
      (by simp only [Net.update_self]; rfl) fun call stale _ reply hreply => ?_
    obtain rfl := List.mem_singleton.mp hreply
    exact n.verdict_of_ne c call (by simp [hmsg]) (by simp [hmsg])
  | settled hpoint hqueue =>
    exact h.delivered (by simp [Net.stage]) rfl (by simp) (by simp) (by simp)
      (by simp only [Net.update_self, List.append_nil]) fun _ _ _ m hm => absurd hm List.not_mem_nil
  | call call stale hphase =>
    refine .of_unserved (hpaired.unserved fun call stale => by simp [hphase]) fun other stale' _ m hm => ?_
    simp only [Net.update_self, Client.call] at hm
    have hmsg := hpaired.of_idle hphase m hm
    exact Net.verdict_of_ne _ _ _ (by simp [hmsg]) (by simp [hmsg])
  | finish hphase hqueue =>
    refine .of_unserved ?_ fun other stale' hbusy m hm => ?_
    · intro m' hstage
      obtain ⟨-, hempty, -⟩ := hpaired.of_serving hstage
      exact absurd (hqueue.symm.trans hempty) (by simp)
    · simp only [Net.update_self, Client.finish] at hbusy
      split at hbusy <;> exact absurd hbusy (by simp)
  | answer answer stale hphase =>
    refine .of_unserved (hpaired.unserved fun call stale => by simp [hphase]) fun other stale' hbusy m hm => ?_
    simp only [Net.update_self, Client.answer] at hbusy
    exact absurd hbusy (by simp)

/-- Every step keeps the answers true. -/
theorem NetStep.truthful {fake : Bool} {l : NetLabel} {n n' : Net} {c : ℤ} {r : Registry}
    (hstep : NetStep fake l n n') (hr : n.table = r.layout) (hpaired : Paired (n.view c))
    (haccounted : Accounted n c) (h : Truthful n c) : Truthful n' c := by
  rcases hstep.own_or_elsewhere c with hown | helsewhere
  · exact hown.truthful hr hpaired haccounted h
  · exact helsewhere.truthful hr h

/-- In every run the answers are true. -/
theorem net_truthful {fake : Bool} {r : Registry} {ls : List NetLabel} {n : Net}
    (h : Run (NetStep fake) ls (.start r.layout) n) (c : ℤ) : Truthful n c := by
  have hstep : ∀ l n n', NetStep fake l n n' →
      ((∃ r' : Registry, n.table = r'.layout) ∧ Paired (n.view c) ∧ Accounted n c ∧ Truthful n c) →
      (∃ r' : Registry, n'.table = r'.layout) ∧ Paired (n'.view c) ∧ Accounted n' c ∧ Truthful n' c := by
    rintro l n n' hstep ⟨⟨r', hr'⟩, hpaired, haccounted, htruthful⟩
    exact ⟨hstep.layout ⟨r', hr'⟩, hstep.paired hpaired, (hstep.account c).accounted haccounted,
      hstep.truthful hr' hpaired haccounted htruthful⟩
  have hnil : Run (NetStep fake) [] (.start r.layout) (.start r.layout) := .nil _
  have hstart : Truthful (.start r.layout) c :=
    .of_unserved (fun m => by simp [Net.stage, Net.start]) fun call stale hphase => absurd hphase
      (by simp [Net.start, Client.start])
  exact (h.invariant hstep ⟨⟨r, rfl⟩, net_paired hnil c, net_accounted hnil c, hstart⟩).2.2.2

/-- What a client may conclude from the return code of a call. -/
structure Agrees (n : Net) (c : ℤ) (call : Call) (code : ℤ) : Prop where
  requested : ∀ sel, call = .request sel → code = 0 → Holds n.table c sel
  released : ∀ sel, call = .release sel → code = 0 → ¬ HoldsKey n.table c sel
  refused : ∀ sel, call = .request sel ∨ call = .release sel → code = -eperm → n.Untouched c

/-- Answers are read by what they answer: by the call in progress, and by the signal sent last. -/
structure AnswersMatched (n : Net) (c : ℤ) : Prop where
  call : ∀ call stale m rest, (n.client c).phase = .busy call stale →
    (n.client c).toClient = m :: rest → m.IsAnswer → m.number = (n.client c).calls
  signal : ∀ m rest, n.point = .awaiting c → (n.client c).toServer = m :: rest → m.IsAnswer →
    m.number = n.signals

/-- A call that reads a true answer returns a true code. -/
theorem Truthful.agrees {n : Net} {c : ℤ} (h : Truthful n c) {call : Call} {stale : ResponseBuffer}
    {m : Message} {rest : List Message} (hphase : (n.client c).phase = .busy call stale)
    (hqueue : (n.client c).toClient = m :: rest) : Agrees n c call (call.returns stale m.buf) := by
  have hverdict := h.waiting call stale hphase m (by simp [hqueue])
  obtain ⟨hzero, heperm⟩ := acknowledged_all m.buf
  rw [call.returns_eq]
  constructor
  · rintro sel rfl hcode
    exact hverdict.1 (hzero.mp hcode)
  · rintro sel rfl hcode
    exact hverdict.1 (hzero.mp hcode)
  · rintro sel (rfl | rfl) hcode
    · exact hverdict.2 (heperm.mp hcode)
    · exact hverdict.2 (heperm.mp hcode)

/-- **Clients and daemon agree.** However the calls of any number of clients interleave with the
signals the daemon sends, crossings included: when `v120irqd_request` returns 0 the table holds the
selector for the client, when `v120irqd_release` returns 0 it does not hold its key, when either
returns `-EPERM` the call left the table as it was, and no answer is read by a later call. -/
theorem calls_agree {fake : Bool} {r : Registry} {ls : List NetLabel} {n : Net}
    (h : Run (NetStep fake) ls (.start r.layout) n) (c : ℤ) :
    AnswersMatched n c ∧
      ∀ call code n', NetStep fake (.finish c call code) n n' → Agrees n' c call code := by
  have hpaired := net_paired h c
  refine ⟨⟨?_, ?_⟩, ?_⟩
  · rintro call stale m rest hphase hqueue hanswer
    rcases hpaired.of_reading hphase hqueue with hsignal | hnumber
    · rcases hanswer with hack | hnak
      · exact absurd (hsignal.symm.trans hack) (by decide)
      · exact absurd (hsignal.symm.trans hnak) (by decide)
    · exact hnumber
  · intro m rest hpoint hqueue hanswer
    have hstage : n.stage c = .awaiting n.signals := by simp [Net.stage, hpoint]
    exact hpaired.of_settling hstage hqueue hanswer
  · intro call code n' hstep
    cases hstep with
    | @finish _ _ _ stale m rest hphase hqueue =>
      have hagrees := (net_truthful h c).agrees hphase hqueue
      have huntouched : n.Untouched c → Net.Untouched { n with
          client := n.update c (Client.finish call (call.returns stale m.buf) m rest) } c := by
        intro hn
        simpa [Net.Untouched, Client.finish] using hn
      exact ⟨hagrees.requested, hagrees.released,
        fun sel hcall hcode => huntouched (hagrees.refused sel hcall hcode)⟩

/-- Client 5 requests line 1 of crate 0 from a daemon that has just started: the request returns 0,
and the table holds the selector. -/
theorem calls_agree_first :
    ∃ n n', NetStep false (.finish 5 (.request ⟨1, 2, anyVector, 7⟩) 0) n n' ∧ AnswersMatched n 5 ∧
      Holds n'.table 5 ⟨1, 2, anyVector, 7⟩ := by
  obtain ⟨ls, n, n', hrun, ⟨hfinish, -⟩, -⟩ := call_completes false (.start Registry.empty.layout) 5 0
    (.request ⟨1, 2, anyVector, 7⟩) ⟨0⟩ rfl rfl rfl rfl (Or.inl ⟨rfl, rfl, .moved fun _ => TableT.zero, rfl⟩)
  obtain ⟨hmatched, hagrees⟩ := calls_agree (hrun.mono fun _ _ _ hstep => hstep.1) 5
  exact ⟨n, n', hfinish, hmatched, (hagrees _ _ _ hfinish).requested _ rfl rfl⟩

end V120.Irqd
