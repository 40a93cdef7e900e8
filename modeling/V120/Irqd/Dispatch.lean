import V120.Common.BitFields
import V120.Irqd.Connections

/-!
# Who receives an interrupt

The events of a run say which registrations are present and in which order they were made. An
interrupt that `process_vme` serves goes to the earliest of them that names its crate, its line
and its vector, and to nobody else.
-/

namespace V120.Irqd

open V120.Common

/-- A registration and its place in the order in which registrations were accepted. -/
structure Stamped where
  stamp : ℕ
  owner : ℤ
  selector : V120irqdSelector
  deriving DecidableEq

/-- The registrations present after some events, and the next stamp. -/
structure Book where
  next : ℕ
  entries : List Stamped

namespace Book

/-- No registration yet. -/
def empty : Book := ⟨0, []⟩

/-- An accepted request is stamped, an accepted release withdraws what the client registered under
the same key, and a client that leaves withdraws everything. -/
def record (b : Book) : Event → Book
  | .register sd request ret =>
    if ret = 0 then ⟨b.next + 1, b.entries ++ [⟨b.next, sd, request⟩]⟩ else b
  | .release sd request ret =>
    if ret = 0 then
      { b with entries := b.entries.filter fun e =>
          !(decide (e.owner = sd) && decide (SameKey e.selector request)) }
    else b
  | .releaseAll sd => { b with entries := b.entries.filter fun e => e.owner != sd }
  | _ => b

/-- Events that are no table calls are not recorded. -/
theorem record_other (b : Book) {e : Event} (h : e.changesTable = false) : b.record e = b := by
  cases e <;> first | rfl | simp [Event.changesTable] at h

end Book

/-- The registrations present after a trace. -/
def book (trace : List Event) : Book := trace.foldl Book.record Book.empty

/-- A book lists a registry's entries, stamped in table order. -/
structure BookOf (r : Registry) (b : Book) : Prop where
  entries : r.entries.map Registration.entry = b.entries.map fun e => ⟨e.selector, e.owner⟩
  sorted : b.entries.Pairwise fun earlier later => earlier.stamp < later.stamp
  fresh : ∀ e ∈ b.entries, e.stamp < b.next

/-- Dropping entries by a test on owner and selector keeps a registry and its book together. -/
theorem BookOf.filter {r r' : Registry} {b : Book} (h : BookOf r b)
    (keep : ℤ → V120irqdSelector → Bool)
    (hentries : r'.entries = r.entries.filter fun reg => keep reg.owner reg.selector) :
    BookOf r' { b with entries := b.entries.filter fun e => keep e.owner e.selector } := by
  refine ⟨?_, h.sorted.filter _, fun e he => h.fresh e (List.mem_of_mem_filter he)⟩
  have hleft := List.filter_map (f := Registration.entry)
    (p := fun entry : TableT => keep entry.data entry.selector) (l := r.entries)
  have hright := List.filter_map (f := fun e : Stamped => (⟨e.selector, e.owner⟩ : TableT))
    (p := fun entry : TableT => keep entry.data entry.selector) (l := b.entries)
  rw [hentries]
  exact hleft.symm.trans ((congrArg _ h.entries).trans hright)

/-- A recorded event keeps a registry and its book together. -/
theorem Recorded.book {e : Event} {r r' : Registry} {b : Book} (hrecorded : Recorded e r r')
    (h : BookOf r b) : BookOf r' (b.record e) := by
  cases hrecorded with
  | @registered r r' sd request hlegal hfree hentries =>
    refine ⟨?_, ?_, ?_⟩
    · rw [hentries, List.map_append, h.entries, Book.record, if_pos rfl, List.map_append]
      rfl
    · refine List.pairwise_append.mpr ⟨h.sorted, List.pairwise_singleton _ _, ?_⟩
      rintro e he e' he'
      obtain rfl := List.mem_singleton.mp he'
      exact h.fresh e he
    · intro e he
      rw [Book.record, if_pos rfl] at he ⊢
      rcases List.mem_append.mp he with he | he
      · exact Nat.lt_succ_of_lt (h.fresh e he)
      · obtain rfl := List.mem_singleton.mp he
        exact Nat.lt_succ_self _
  | refused hret => rwa [Book.record, if_neg (by omega)]
  | released hfound hentries =>
    rw [Book.record, if_pos rfl]
    exact h.filter (fun owner selector => !(decide (owner = _) && decide (SameKey selector _))) hentries
  | kept hret => rwa [Book.record, if_neg (by omega)]
  | dropped sd r => exact h.filter (fun owner _ => owner != sd) rfl
  | other r hother => rwa [b.record_other hother]

/-- Recorded events keep a registry and its book together. -/
theorem run_book {es : List Event} {r r' : Registry} (hrun : Run Recorded es r r') {b : Book}
    (h : BookOf r b) : BookOf r' (es.foldl Book.record b) := by
  induction hrun generalizing b with
  | nil => exact h
  | cons head _ ih => exact ih (head.book h)

/-- The table of a reachable daemon stores the registrations of its trace. -/
theorem reachable_book {σ : Type*} {sys : System σ} {st : Startup} {d : Daemon}
    (hinit : initializeDaemon st = some d) {s : σ} {w : World σ} (hrun : DaemonRun sys ⟨d, s, []⟩ w) :
    ∃ r : Registry, w.daemon.vectorTable = r.layout ∧ BookOf r (book w.trace) := by
  obtain ⟨r, hlayout, hrecorded⟩ := reachable_registry hinit hrun
  exact ⟨r, hlayout, run_book hrecorded ⟨rfl, .nil, fun _ he => absurd he (by simp [Book.empty])⟩⟩

/-- A registration matches an interrupt when its masks contain the crate and the line and its
vector is the interrupt's or stands for any. -/
structure Stamped.Matches (e : Stamped) (n : Fin 16) (irq : ℕ) (vector : BitVec 32) : Prop where
  crate : e.selector.crate.getLsbD n.val = true
  irq : e.selector.irq.getLsbD irq = true
  vector : e.selector.vector = vector ∨ e.selector.vector = anyVector

/-- The lookup of `process_vme` matches exactly these registrations. -/
theorem covers_concrete_iff (e : Stamped) (n : Fin 16) {irq : ℕ} (hirq : irq ≤ 7)
    (vector payload : BitVec 32) :
    Covers e.selector (concrete n irq vector payload) ↔ e.Matches n irq vector := by
  have hcrate := maskIn_bit_iff e.selector.crate n.isLt
  have hline := maskIn_bit_iff e.selector.irq (i := irq) (by omega)
  exact ⟨fun h => ⟨hcrate.mp h.crate, hline.mp h.irq, h.vector.symm⟩,
    fun h => ⟨hcrate.mpr h.crate, hline.mpr h.irq, h.vector.symm⟩⟩

/-- The first match of a book is the earliest. -/
theorem find?_earliest {entries : List Stamped} {p : Stamped → Bool} {e : Stamped}
    (hsorted : entries.Pairwise fun earlier later => earlier.stamp < later.stamp)
    (h : entries.find? p = some e) :
    e ∈ entries ∧ p e = true ∧ ∀ e' ∈ entries, p e' = true → e.stamp ≤ e'.stamp := by
  obtain ⟨hp, before, after, rfl, hbefore⟩ := List.find?_eq_some_iff_append.mp h
  refine ⟨by simp, hp, fun e' he' hp' => ?_⟩
  rcases List.mem_append.mp he' with he' | he'
  · exact absurd hp' (by simpa using hbefore e' he')
  · rcases List.mem_cons.mp he' with rfl | he'
    · exact Nat.le_refl _
    · have htail := (List.pairwise_append.mp hsorted).2.1
      exact Nat.le_of_lt ((List.pairwise_cons.mp htail).1 e' he')

/-- `find_interrupt` finds the first registration of the book that covers the request. -/
theorem BookOf.findInterrupt {r : Registry} {b : Book} (h : BookOf r b)
    (request : V120irqdSelector) :
    findInterrupt request r.layout =
      match b.entries.find? fun e => decide (Covers e.selector request) with
      | none => .error einval
      | some e => .ok (e.owner, { request with payload := e.selector.payload }) := by
  have hleft := List.find?_map (f := Registration.entry)
    (p := fun entry : TableT => decide (Covers entry.selector request)) (l := r.entries)
  have hright := List.find?_map (f := fun e : Stamped => (⟨e.selector, e.owner⟩ : TableT))
    (p := fun entry : TableT => decide (Covers entry.selector request)) (l := b.entries)
  have hlookup : (r.lookup request).map Registration.entry =
      (b.entries.find? fun e => decide (Covers e.selector request)).map
        fun e => ⟨e.selector, e.owner⟩ := by
    exact hleft.symm.trans ((congrArg _ h.entries).trans hright)
  rw [r.findInterrupt_layout]
  cases hfound : b.entries.find? fun e => decide (Covers e.selector request) with
  | none =>
    rw [hfound, Option.map_none, Option.map_eq_none_iff] at hlookup
    rw [hlookup]
  | some e =>
    rw [hfound, Option.map_some, Option.map_eq_some_iff] at hlookup
    obtain ⟨reg, hreg, hentry⟩ := hlookup
    rw [hreg]
    simp only [Registration.owner, Registration.selector, hentry]

/-- Whether an event fetches a vector. -/
def Event.fetches : Event → Bool
  | .iackVector .. => true
  | _ => false

/-- The events that belong to the vector fetched just before them. -/
def serviceEvents (after : List Event) : List Event := after.takeWhile fun e => !e.fetches

/-- The lookups among some events. -/
def lookups (es : List Event) : List V120irqdSelector :=
  es.filterMap fun
    | .lookup request => some request
    | _ => none

/-- The messages sent among some events, with their receivers. -/
def messages (es : List Event) : List (ℤ × ResponseBuffer) :=
  es.filterMap fun
    | .write sock buf _ => some (sock, buf)
    | _ => none

/-- How an interrupt is dispatched: one lookup, and one `IRQ_SIGNAL` to the owner of the earliest
matching registration, naming the crate, the line and the vector, with the registration's
payload; or no message at all when no registration matches. -/
inductive Dispatched (entries : List Stamped) (n : Fin 16) (irq : ℕ) (vector : BitVec 32)
    (es : List Event) : Prop where
  | nobody (payload : BitVec 32) (hlookup : lookups es = [concrete n irq vector payload])
      (hmessages : messages es = []) (hnone : ∀ e ∈ entries, ¬ e.Matches n irq vector)
  | earliest (payload : BitVec 32) (e : Stamped) (buf : ResponseBuffer)
      (hlookup : lookups es = [concrete n irq vector payload])
      (hmessages : messages es = [(e.owner, buf)]) (hmsg : buf.msg = .irqSignal)
      (hselector : buf.selector = ⟨(1 : BitVec 16) <<< n.val, (1 : BitVec 16) <<< irq, vector,
        e.selector.payload⟩)
      (hentry : e ∈ entries) (hmatches : e.Matches n irq vector)
      (hearliest : ∀ e' ∈ entries, e'.Matches n irq vector → e.stamp ≤ e'.stamp)

/-- A notification for an interrupt dispatches it. -/
theorem Notified.dispatched {r : Registry} {b : Book} (hbook : BookOf r b) {n : Fin 16} {irq : ℕ}
    (hirq : irq ≤ 7) {vector payload : BitVec 32} {err : ℤ} {es service : List Event}
    (h : Notified r.layout (concrete n irq vector payload) err es)
    (hlookups : lookups service = lookups es) (hmessages : messages service = messages es) :
    Dispatched b.entries n irq vector service := by
  have hfind := hbook.findInterrupt (concrete n irq vector payload)
  have hsent {sock : ℤ} {buf : ResponseBuffer}
      (hfound : findInterrupt (concrete n irq vector payload) r.layout = .ok (sock, buf.selector))
      (hmsg : buf.msg = .irqSignal) (hlookup : lookups es = [concrete n irq vector payload])
      (hmessage : messages es = [(sock, buf)]) : Dispatched b.entries n irq vector service := by
    rw [hfind] at hfound
    cases hfirst : b.entries.find? fun e => decide (Covers e.selector (concrete n irq vector payload)) with
    | none => simp [hfirst] at hfound
    | some e =>
      rw [hfirst] at hfound
      simp only [Except.ok.injEq, Prod.mk.injEq] at hfound
      obtain ⟨hentry, hmatch, hearliest⟩ := find?_earliest hbook.sorted hfirst
      refine .earliest payload e buf (hlookups.trans hlookup) ?_ hmsg hfound.2.symm hentry
        ((covers_concrete_iff e n hirq vector payload).mp (of_decide_eq_true hmatch)) ?_
      · rw [hmessages, hmessage, hfound.1]
      · intro e' he' hmatches'
        exact hearliest e' he' (decide_eq_true
          ((covers_concrete_iff e' n hirq vector payload).mpr hmatches'))
  cases h with
  | unmatched hunmatched =>
    rw [hfind] at hunmatched
    cases hfirst : b.entries.find? fun e => decide (Covers e.selector (concrete n irq vector payload)) with
    | some e => simp [hfirst] at hunmatched
    | none =>
      refine .nobody payload hlookups hmessages fun e he hmatches => ?_
      have hcovers := List.find?_eq_none.mp hfirst e he
      exact hcovers (decide_eq_true ((covers_concrete_iff e n hirq vector payload).mpr hmatches))
  | unsent errno hfound hmsg => exact hsent hfound hmsg rfl rfl
  | answered received hfound hmsg => exact hsent hfound hmsg rfl rfl

/-- A notification fetches no vector. -/
theorem Notified.fetches {table : VectorTable} {sel : V120irqdSelector} {err : ℤ} {es : List Event}
    (h : Notified table sel err es) : ∀ e ∈ es, e.fetches = false := by
  cases h <;> simp [Event.fetches]

/-- Events that fetch nothing belong to the vector fetched before them. -/
theorem serviceEvents_append {es rest : List Event} (h : ∀ e ∈ es, e.fetches = false) :
    serviceEvents (es ++ rest) = es ++ serviceEvents rest :=
  List.takeWhile_append_of_pos fun e he => by simp [h e he]

/-- A search starts with readings only: no lookup and no message before the first vector. -/
theorem Services.before {table : VectorTable} {idx : ℕ} {n : Fin 16} {es : List Event}
    (h : Services table idx n es) :
    lookups (serviceEvents es) = [] ∧ messages (serviceEvents es) = [] := by
  cases h with
  | stopped => exact ⟨rfl, rfl⟩
  | nothing status => exact ⟨rfl, rfl⟩
  | service status hline hnotify hlast hrest => exact ⟨rfl, rfl⟩

/-- A fetch is not among events that fetch nothing. -/
theorem split_fetch {quiet rest before after : List Event} {fetch : Event}
    (hquiet : ∀ e ∈ quiet, e.fetches = false) (hfetch : fetch.fetches = true)
    (h : quiet ++ rest = before ++ fetch :: after) :
    ∃ before', rest = before' ++ fetch :: after := by
  have hnot : fetch ∉ quiet := fun hmem => absurd hfetch (by simp [hquiet fetch hmem])
  obtain ⟨before', -, hrest⟩ := split_append_cons hnot h
  exact ⟨before', hrest⟩

/-- In a search each fetched vector is dispatched. -/
theorem Services.dispatched {r : Registry} {b : Book} (hbook : BookOf r b) {idx : ℕ} {n : Fin 16}
    {es : List Event} (h : Services r.layout idx n es) {before after : List Event} {k irq : ℕ}
    {vector : BitVec 32} (hsplit : es = before ++ .iackVector k irq vector :: after) :
    k = idx ∧ Dispatched b.entries n irq vector (serviceEvents after) := by
  induction h generalizing before with
  | stopped => simp at hsplit
  | nothing status =>
    have hmem : Event.iackVector k irq vector ∈ [Event.irqstatus idx status] := by rw [hsplit]; simp
    simp at hmem
  | @service irq' vector' payload err notified last rest status hline hnotify hlast hrest ih =>
    have hlastFetches : ∀ e ∈ last, e.fetches = false := by
      rcases hlast with rfl | ⟨again, rfl⟩ <;> simp [Event.fetches]
    have hquiet : ∀ e ∈ notified ++ last, e.fetches = false :=
      List.forall_mem_append.mpr ⟨hnotify.fetches, hlastFetches⟩
    have hreading : lookups last = [] ∧ messages last = [] := by
      rcases hlast with rfl | ⟨again, rfl⟩ <;> exact ⟨rfl, rfl⟩
    cases before with
    | nil => simp at hsplit
    | cons e before =>
      rw [List.cons_append, List.cons.injEq] at hsplit
      cases before with
      | nil =>
        rw [List.nil_append, List.cons.injEq] at hsplit
        obtain ⟨-, hfetch, hafter⟩ := hsplit
        obtain ⟨rfl, rfl, rfl⟩ := Event.iackVector.inj hfetch
        obtain ⟨hlookups, hmessages⟩ := hrest.before
        refine ⟨rfl, hnotify.dispatched hbook hline.2 ?_ ?_⟩
        · rw [← hafter, serviceEvents_append hquiet, lookups, List.filterMap_append,
            List.filterMap_append]
          change lookups notified ++ lookups last ++ lookups (serviceEvents rest) = _
          rw [hreading.1, hlookups, List.append_nil, List.append_nil]
        · rw [← hafter, serviceEvents_append hquiet, messages, List.filterMap_append,
            List.filterMap_append]
          change messages notified ++ messages last ++ messages (serviceEvents rest) = _
          rw [hreading.2, hmessages, List.append_nil, List.append_nil]
      | cons e before =>
        rw [List.cons_append, List.cons.injEq] at hsplit
        obtain ⟨before', hrest'⟩ := split_fetch hquiet rfl hsplit.2.2
        exact ih hrest'

/-- **Interrupts are dispatched to the earliest matching registration.** In a reachable state,
however a call of `process_vme` ends, it sends nothing before its first vector; and every vector
it fetches is looked up once and dispatched by the registrations present. -/
theorem processVme_dispatches {σ : Type*} {sys : System σ} {st : Startup} {d : Daemon}
    (hinit : initializeDaemon st = some d) {s : σ} {w : World σ}
    (hrun : DaemonRun sys ⟨d, s, []⟩ w) {idx : ℕ} {info : V120Info}
    (hinfo : w.daemon.v120Info[idx]? = some info) (fuel : ℕ) :
    ∃ es, (processVme sys fuel idx w).world.trace = w.trace ++ es ∧
      lookups (serviceEvents es) = [] ∧ messages (serviceEvents es) = [] ∧
      ∀ before k irq vector after, es = before ++ .iackVector k irq vector :: after →
        k = idx ∧ Dispatched (book w.trace).entries info.cratenumber irq vector
          (serviceEvents after) := by
  obtain ⟨r, htable, hbook⟩ := reachable_book hinit hrun
  obtain ⟨received, es, irqen, hservices, -, htrace⟩ := processVme_spec sys hinfo fuel
  rw [htable] at hservices
  have hentry : ∀ e ∈ [Event.processVme (w.pollfd sys idx).fd,
      Event.read (w.pollfd sys idx).fd received], e.fetches = false := by simp [Event.fetches]
  refine ⟨_, htrace, ?_, ?_, fun before k irq vector after hsplit => ?_⟩
  · rw [serviceEvents_append hentry]
    exact hservices.before.1
  · rw [serviceEvents_append hentry]
    exact hservices.before.2
  · obtain ⟨before', hsplit'⟩ := split_fetch hentry rfl hsplit
    exact hservices.dispatched hbook hsplit'

/-- Crate 0 asserts line 1 once; client 3 was accepted and registered for it with payload 7. -/
theorem processVme_dispatches_one :
    let request := ((⟨0⟩ : ResponseBuffer).setMsg .requestIrq).setSelector ⟨1, 2, anyVector, 7⟩
    let sys : System ℕ := { System.silent with
      irqstatus := fun _ s => (if s = 0 then 2 else 0, s + 1)
      sockets := ⟨fun _ _ s => (none, s), fun _ s => (.data 20 request.bits, s), fun s => (⟨0⟩, s)⟩ }
    let d : Daemon := ⟨⟨[⟨5, pollin, 0⟩, ⟨4, pollin, 0⟩], 2⟩, [⟨0, 0⟩], [], false⟩
    let w := (serviceFd sys 0 2 (serviceFd sys 0 1 ⟨d, 0, []⟩).world).world
    (book w.trace).entries = [⟨0, 3, ⟨1, 2, anyVector, 7⟩⟩] ∧
      ∃ es, (processVme sys 2 0 w).world.trace = w.trace ++ es ∧
        lookups (serviceEvents es) = [] ∧ messages (serviceEvents es) = [] ∧
        ∀ before k irq vector after, es = before ++ .iackVector k irq vector :: after →
          k = 0 ∧ Dispatched (book w.trace).entries 0 irq vector (serviceEvents after) := by
  intro request sys d w
  have hinit : initializeDaemon ⟨fun crate => if crate = 0 then some (5, 0) else none, 4,
    fun _ => .moved fun _ => ⟨0, 0, 0⟩, .moved fun _ => ⟨0, 0, 0⟩, false, false⟩ = some d := rfl
  have haccepted : DaemonStep sys ⟨d, 0, []⟩ (serviceFd sys 0 1 ⟨d, 0, []⟩).world :=
    .serviced 0 1 (by decide) (Or.inl rfl)
  have hregistered : DaemonStep sys (serviceFd sys 0 1 ⟨d, 0, []⟩).world w :=
    .serviced 0 2 (by decide) (Or.inl rfl)
  have hinfo : w.daemon.v120Info[0]? = some ⟨0, 2⟩ := by decide +kernel
  exact ⟨by decide +kernel, processVme_dispatches hinit (.tail (.single haccepted) hregistered) hinfo 2⟩

end V120.Irqd
