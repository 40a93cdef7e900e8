import V120.Common.HighestBit
import V120.Irqd.DaemonRuns

/-!
# Bit indices of delivered interrupts

A delivered selector names its crate and its line by one bit each, and `v120irqd_ilog2f` turns the
masks back into numbers. It halves the word five times, so it finds the highest bit of any word;
for an interrupt fetched by `process_vme` that is the crate's number and the line.
-/

namespace V120.Irqd

open V120.Common

/-- `v120irqd_ilog2f`: each test but the last shifts the word down by what it counts. -/
def v120irqdIlog2f (x : BitVec 32) : ℤ :=
  if x = 0 then -1
  else
    let found := countShift 0xFFFF0000 16 (0, x)
    let found := countShift 0x0000FF00 8 found
    let found := countShift 0x000000F0 4 found
    let found := countShift 0x0000000C 2 found
    if found.2 &&& 0x00000002 ≠ 0 then found.1 + 1 else found.1

/-- The five masks are the upper halves of the windows of 32, 16, 8, 4 and 2 bits. -/
theorem ilog2f_masks :
    upperHalf 32 16 = 0xFFFF0000 ∧ upperHalf 32 8 = 0x0000FF00 ∧ upperHalf 32 4 = 0x000000F0 ∧
      upperHalf 32 2 = 0x0000000C ∧ upperHalf 32 1 = 0x00000002 := by
  decide

/-- The source does not shift in its last test, where only the count is still wanted. -/
theorem countShift_fst {w : ℕ} (mask : BitVec w) (s : ℕ) (found : ℤ × BitVec w) :
    (countShift mask s found).1 = if found.2 &&& mask ≠ 0 then found.1 + s else found.1 := by
  unfold countShift
  split <;> rfl

/-- `v120irqd_ilog2f` halves the word five times. -/
theorem v120irqdIlog2f_eq_halvings {x : BitVec 32} (h : x ≠ 0) :
    v120irqdIlog2f x = (halvings 5 (0, x)).1 := by
  obtain ⟨h16, h8, h4, h2, h1⟩ := ilog2f_masks
  rw [v120irqdIlog2f, if_neg h]
  simp only [halvings, Nat.reducePow]
  rw [h16, h8, h4, h2, h1]
  exact (countShift_fst _ 1 _).symm

/-- `v120irqd_ilog2f` is the logarithm of every word that is not 0. -/
theorem v120irqdIlog2f_eq_log2 {x : BitVec 32} (h : x ≠ 0) : v120irqdIlog2f x = x.toNat.log2 := by
  rw [v120irqdIlog2f_eq_halvings h]
  exact Searching.halvings 5 (.start h)

example : v120irqdIlog2f 1133549021 = 30 ∧ v120irqdIlog2f 311437 = 18 := by decide

/-- No word has a higher index than a greater word. -/
theorem v120irqdIlog2f_mono {x y : BitVec 32} (h : x ≤ y) : v120irqdIlog2f x ≤ v120irqdIlog2f y := by
  by_cases hy : y = 0
  · have hx : x = 0 := by
      apply BitVec.eq_of_toNat_eq
      have hle : x.toNat ≤ y.toNat := h
      rw [hy] at hle
      exact Nat.le_zero.mp hle
    rw [hx, hy]
  · rw [v120irqdIlog2f_eq_log2 hy]
    by_cases hx : x = 0
    · have hzero : v120irqdIlog2f x = -1 := by rw [v120irqdIlog2f, if_pos hx]
      omega
    · rw [v120irqdIlog2f_eq_log2 hx, Nat.log2_eq_log_two, Nat.log2_eq_log_two]
      exact Int.ofNat_le.mpr (Nat.log_mono_right h)

/-- The index of a word of one bit is that bit. -/
theorem v120irqdIlog2f_bit {i : ℕ} (hi : i < 32) : v120irqdIlog2f ((1 : BitVec 32) <<< i) = i := by
  have hvalue := toNat_bit hi
  have hne : (1 : BitVec 32) <<< i ≠ 0 := by
    intro hzero
    rw [hzero] at hvalue
    exact Nat.ne_of_lt (Nat.two_pow_pos i) hvalue
  rw [v120irqdIlog2f_eq_log2 hne, hvalue, Nat.log2_two_pow]

/-- The masks of a selector read as the numbers of a crate and of a line. The masks are widened to
32 bits in the call. -/
structure Decodes (sel : V120irqdSelector) (n irq : ℕ) : Prop where
  crate : v120irqdIlog2f (sel.crate.setWidth 32) = n
  irq : v120irqdIlog2f (sel.irq.setWidth 32) = irq

/-- The masks of one crate and of one line read as their numbers. -/
theorem decodes_bits {sel : V120irqdSelector} {n irq : ℕ} (hn : n < 16) (hirq : irq < 16)
    (hcrate : sel.crate = (1 : BitVec 16) <<< n) (hline : sel.irq = (1 : BitVec 16) <<< irq) :
    Decodes sel n irq := by
  constructor
  · rw [hcrate, setWidth_bit hn]
    exact v120irqdIlog2f_bit (Nat.lt_trans hn (by decide))
  · rw [hline, setWidth_bit hirq]
    exact v120irqdIlog2f_bit (Nat.lt_trans hirq (by decide))

variable {σ : Type*} {sys : System σ}

/-- The selector an event delivers to a client. -/
def Event.delivers : Event → Option V120irqdSelector
  | .write _ buf _ => if buf.msg = .irqSignal then some buf.selector else none
  | _ => none

/-- Where a delivered selector comes from: it is the single interrupt of a crate, a line and a vector
that was fetched there, or a client sent it and the daemon takes fake interrupts. -/
inductive Origin (crates : List (Fin 16)) (fake : Bool) (es : List Event) (sel : V120irqdSelector) :
    Prop where
  | fetched {idx : ℕ} {n : Fin 16} {irq : ℕ} {vector : BitVec 32} (payload : BitVec 32)
      (hcrate : crates[idx]? = some n) (hline : 1 ≤ irq ∧ irq ≤ 7)
      (hfetch : .iackVector idx irq vector ∈ es) (hsel : sel = concrete n irq vector payload)
  | faked {sock : ℤ} {received : Received} (stale : ResponseBuffer) (payload : BitVec 32)
      (hfake : fake = true) (hread : .read sock received ∈ es)
      (hmsg : (received.fill stale).msg = .irqSignal)
      (hsel : sel = { (received.fill stale).selector with payload := payload })

/-- Every selector delivered among some events has its origin there. -/
def Traced (crates : List (Fin 16)) (fake : Bool) (es : List Event) : Prop :=
  ∀ e ∈ es, ∀ sel, e.delivers = some sel → Origin crates fake es sel

variable {crates : List (Fin 16)} {fake : Bool}

/-- More events take no origin away. -/
theorem Origin.mono {es es' : List Event} {sel : V120irqdSelector} (h : Origin crates fake es sel)
    (hes : es ⊆ es') : Origin crates fake es' sel := by
  cases h with
  | fetched payload hcrate hline hfetch hsel => exact .fetched payload hcrate hline (hes hfetch) hsel
  | faked stale payload hfake hread hmsg hsel =>
    exact .faked stale payload hfake (hes hread) hmsg hsel

/-- Events that deliver nothing. -/
theorem traced_silent {es : List Event} (h : ∀ e ∈ es, e.delivers = none) :
    Traced crates fake es := by
  intro e he sel hsel
  rw [h e he] at hsel
  exact absurd hsel (by simp)

/-- Events one after the other. -/
theorem Traced.append {es es' : List Event} (h : Traced crates fake es)
    (h' : Traced crates fake es') : Traced crates fake (es ++ es') := by
  intro e he sel hsel
  rcases List.mem_append.mp he with he | he
  · exact (h e he sel hsel).mono (List.subset_append_left _ _)
  · exact (h' e he sel hsel).mono (List.subset_append_right _ _)

/-- The table only fills in the payload of what is looked up. -/
theorem findInterrupt_found {request found : V120irqdSelector} {table : VectorTable} {sock : ℤ}
    (h : findInterrupt request table = .ok (sock, found)) :
    ∃ payload, found = { request with payload := payload } := by
  unfold findInterrupt at h
  split at h
  · exact absurd h (by simp)
  · exact ⟨_, (Prod.mk.inj (Except.ok.inj h)).2.symm⟩

/-- A notification delivers what it was asked to, up to the payload. -/
theorem Notified.delivers {table : VectorTable} {request : V120irqdSelector} {err : ℤ}
    {es : List Event} (h : Notified table request err es) {e : Event} (he : e ∈ es)
    {sel : V120irqdSelector} (hsel : e.delivers = some sel) :
    ∃ payload, sel = { request with payload := payload } := by
  cases h with
  | unmatched hfind =>
    obtain rfl := List.mem_singleton.mp he
    exact absurd hsel (by simp [Event.delivers])
  | unsent errno hfind hmsg =>
    simp only [List.mem_cons, List.not_mem_nil, or_false] at he
    rcases he with rfl | rfl
    · exact absurd hsel (by simp [Event.delivers])
    · rw [Event.delivers, if_pos hmsg, Option.some.injEq] at hsel
      exact hsel ▸ findInterrupt_found hfind
  | answered received hfind hmsg =>
    simp only [List.mem_cons, List.not_mem_nil, or_false] at he
    rcases he with rfl | rfl | rfl
    · exact absurd hsel (by simp [Event.delivers])
    · rw [Event.delivers, if_pos hmsg, Option.some.injEq] at hsel
      exact hsel ▸ findInterrupt_found hfind
    · exact absurd hsel (by simp [Event.delivers])

/-- A search delivers what it fetched. -/
theorem Services.traced {table : VectorTable} {idx : ℕ} {n : Fin 16} {es : List Event}
    (h : Services table idx n es) (hcrate : crates[idx]? = some n) : Traced crates fake es := by
  induction h with
  | stopped => exact traced_silent (by simp)
  | nothing status => exact traced_silent (by simp [Event.delivers])
  | @service irq vector payload err es last rest status hline hnotify hlast hrest ih =>
    have hreading : Traced crates fake last := by
      rcases hlast with rfl | ⟨again, rfl⟩ <;> exact traced_silent (by simp [Event.delivers])
    have hservice : Traced crates fake (.irqstatus idx status :: .iackVector idx irq vector :: es) := by
      intro e he sel hsel
      simp only [List.mem_cons] at he
      rcases he with rfl | rfl | he
      · exact absurd hsel (by simp [Event.delivers])
      · exact absurd hsel (by simp [Event.delivers])
      · obtain ⟨filled, hfilled⟩ := hnotify.delivers he hsel
        have hfetch : Event.iackVector idx irq vector ∈
            .irqstatus idx status :: .iackVector idx irq vector :: es := by simp
        exact .fetched filled hcrate hline hfetch hfilled
    have hall := (hservice.append hreading).append ih
    rwa [List.append_assoc, List.cons_append, List.cons_append, ← List.append_assoc] at hall

/-- The answers to a client's message deliver nothing; only a faked interrupt is notified. -/
theorem Replied.delivers {sock : ℤ} {request : V120irqdSelector} {table table' : VectorTable}
    {msg : MessageSelect} {es : List Event} (h : Replied sock request fake table msg table' es) :
    (∀ e ∈ es, e.delivers = none) ∨
      (fake = true ∧ msg = .irqSignal ∧ ∃ answer err notified, answer.delivers = none ∧
        es = answer :: notified ∧ Notified table request err notified) := by
  have hresult {ret : ℤ} {buf : ResponseBuffer} (hmsg : buf.msg = if ret < 0 then .nak else .ack) :
      buf.msg ≠ .irqSignal := by
    rw [hmsg]
    split <;> simp
  cases h with
  | request realloc hregister hmsg => exact Or.inl (by simp [Event.delivers, hresult hmsg])
  | release hrelease hmsg => exact Or.inl (by simp [Event.delivers, hresult hmsg])
  | fakeNotified hfake hmsg hnotify =>
    exact Or.inr ⟨hfake, rfl, _, _, _, by simp [Event.delivers, hmsg], rfl, hnotify⟩
  | fakeUnanswered errno hfake hmsg => exact Or.inl (by simp [Event.delivers, hmsg])
  | fakeRefused hfake hmsg => exact Or.inl (by simp [Event.delivers, hmsg])
  | status hmsg => exact Or.inl (by simp [Event.delivers, hmsg])
  | ignored hmsg => exact Or.inl (by simp)

/-- The numbers of the open crates. -/
def Daemon.cratenumbers (d : Daemon) : List (Fin 16) := d.v120Info.map V120Info.cratenumber

/-- The daemon moved on with the crates and the options it had, and whatever it delivered meanwhile
has its origin there. -/
structure Delivering (w w' : World σ) : Prop where
  crates : w'.daemon.cratenumbers = w.daemon.cratenumbers
  allowFakeIrq : w'.daemon.allowFakeIrq = w.daemon.allowFakeIrq
  trace : ∃ es, w'.trace = w.trace ++ es ∧ Traced w.daemon.cratenumbers w.daemon.allowFakeIrq es

/-- An effect with traced events. -/
theorem Effect.delivering {w w' : World σ} {pollfds : PollList} {table : VectorTable}
    {es : List Event} (h : Effect w w' pollfds table es)
    (hes : Traced w.daemon.cratenumbers w.daemon.allowFakeIrq es) : Delivering w w' :=
  ⟨h.crates, h.allowFakeIrq, es, h.trace, hes⟩

/-- An effect that delivers nothing. -/
theorem Effect.silent {w w' : World σ} {pollfds : PollList} {table : VectorTable}
    {es : List Event} (h : Effect w w' pollfds table es) (hes : ∀ e ∈ es, e.delivers = none) :
    Delivering w w' :=
  h.delivering (traced_silent hes)

/-- One move after the other. -/
theorem Delivering.trans {w₁ w₂ w₃ : World σ} (h : Delivering w₁ w₂) (h' : Delivering w₂ w₃) :
    Delivering w₁ w₃ := by
  obtain ⟨es, htrace, htraced⟩ := h.trace
  obtain ⟨es', htrace', htraced'⟩ := h'.trace
  rw [h.crates, h.allowFakeIrq] at htraced'
  refine ⟨h'.crates.trans h.crates, h'.allowFakeIrq.trans h.allowFakeIrq, es ++ es', ?_,
    htraced.append htraced'⟩
  rw [htrace', htrace, List.append_assoc]

/-- A served client is delivered nothing but faked interrupts. -/
theorem ClientServed.delivering {w w' : World σ} {idx : ℕ} {sock : ℤ}
    (h : ClientServed w idx sock w') : Delivering w w' := by
  cases h with
  | unread received hlen heffect => exact heffect.silent (by simp [Event.delivers])
  | hungUp received beyond l hlen hremove heffect => exact heffect.silent (by simp [Event.delivers])
  | replied received stale table es hlen hreplied heffect =>
    apply heffect.delivering
    have hread : ∀ e ∈ [Event.processClient sock, .read sock received], e.delivers = none := by
      simp [Event.delivers]
    rcases hreplied.delivers with hsilent | ⟨hfake, hmsg, answer, err, notified, hanswer, rfl, hnotify⟩
    · exact traced_silent (List.forall_mem_append.mpr ⟨hread, hsilent⟩)
    · intro e he sel hsel
      rcases List.mem_append.mp he with hentry | hreply
      · exact absurd hsel (by simp [hread e hentry])
      · rcases List.mem_cons.mp hreply with rfl | hnotified
        · exact absurd hsel (by simp [hanswer])
        · obtain ⟨filled, hfilled⟩ := hnotify.delivers hnotified hsel
          have hmem : Event.read sock received ∈
              [.processClient sock, .read sock received] ++ answer :: notified := by simp
          exact .faked stale filled hfake hmem hmsg hfilled

/-- What a handler delivers has its origin in what it does. -/
theorem Serviced.delivering {w w' : World σ} {idx : ℕ} (h : Serviced sys w idx w') :
    Delivering w w' := by
  cases h with
  | vme info received es irqen hinfo hservices hdaemon htrace =>
    have hcrate : w.daemon.cratenumbers[idx]? = some info.cratenumber := by
      rw [Daemon.cratenumbers, List.getElem?_map, hinfo, Option.map_some]
    have hentry : Traced w.daemon.cratenumbers w.daemon.allowFakeIrq
        [.processVme (w.pollfd sys idx).fd, .read (w.pollfd sys idx).fd received] :=
      traced_silent (by simp [Event.delivers])
    constructor
    · rw [hdaemon]
      exact crates_setIrqen _ _ _
    · rw [hdaemon]
      rfl
    · exact ⟨_, htrace, hentry.append (hservices.traced hcrate)⟩
  | newclient hidx hserved =>
    cases hserved with
    | refused heffect => exact heffect.silent (by simp [Event.delivers])
    | added client stale heffect => exact heffect.silent (by simp [Event.delivers])
    | dropped client s hrealloc heffect => exact heffect.silent (by simp [Event.delivers])
  | client hidx hserved => exact hserved.delivering

/-- Along a run every delivered selector has its origin. -/
theorem DaemonRun.delivering {w w' : World σ} (h : DaemonRun sys w w') : Delivering w w' := by
  have hsilent : Traced w.daemon.cratenumbers w.daemon.allowFakeIrq [] := traced_silent (by simp)
  induction h with
  | refl => exact ⟨rfl, rfl, [], (List.append_nil _).symm, hsilent⟩
  | tail _ hstep ih =>
    cases hstep with
    | outside s => exact ⟨ih.crates, ih.allowFakeIrq, ih.trace⟩
    | polled revents => exact ⟨ih.crates, ih.allowFakeIrq, ih.trace⟩
    | serviced fuel idx hidx hrun => exact ih.trans (serviceFd_spec hrun).delivering

/-- **`v120irqd_ilog2f` finds the highest bit.** It is -1 for 0 and otherwise the only `r` with
`2 ^ r ≤ x < 2 ^ (r + 1)`; it undoes `1 << n` and keeps the order. In every run of the daemon a
delivered selector is the single interrupt that was fetched, unless a client faked it, and whenever
it names one crate and one line its masks read as these. -/
theorem v120irqdIlog2f_highest_bit :
    v120irqdIlog2f 0 = -1 ∧
      (∀ x : BitVec 32, x ≠ 0 → ∃ r : ℕ, v120irqdIlog2f x = r ∧
        ∀ r' : ℕ, 2 ^ r' ≤ x.toNat ∧ x.toNat < 2 ^ (r' + 1) ↔ r' = r) ∧
      (∀ n : ℕ, n < 32 → v120irqdIlog2f ((1 : BitVec 32) <<< n) = n) ∧
      (∀ (σ : Type*) (sys : System σ) (d : Daemon) (s : σ) (w : World σ),
        DaemonRun sys ⟨d, s, []⟩ w → ∀ e ∈ w.trace, ∀ sel, e.delivers = some sel →
          Origin d.cratenumbers d.allowFakeIrq w.trace sel ∧
            ∀ n irq : ℕ, n < 16 → irq < 16 → sel.crate = (1 : BitVec 16) <<< n →
              sel.irq = (1 : BitVec 16) <<< irq → Decodes sel n irq) ∧
      ∀ x y : BitVec 32, x ≤ y → v120irqdIlog2f x ≤ v120irqdIlog2f y := by
  refine ⟨rfl, ?_, fun n hn => v120irqdIlog2f_bit hn, ?_, fun x y hle => v120irqdIlog2f_mono hle⟩
  · intro x hx
    have hvalue : x.toNat ≠ 0 := fun hzero => hx (BitVec.eq_of_toNat_eq hzero)
    refine ⟨x.toNat.log2, v120irqdIlog2f_eq_log2 hx, fun r' => ?_⟩
    rw [← Nat.log2_eq_iff hvalue]
    exact eq_comm
  · intro σ sys d s w hrun e he sel hsel
    obtain ⟨es, htrace, htraced⟩ := hrun.delivering.trace
    rw [List.nil_append] at htrace
    rw [htrace] at he ⊢
    exact ⟨htraced e he sel hsel, fun n irq hn hirq => decodes_bits hn hirq⟩

/-- Crate 5 asserts line 3 once, and the client registered for it reads both numbers. -/
theorem v120irqdIlog2f_highest_bit_line3 :
    let sys : System ℕ := { System.silent with
      irqstatus := fun _ s => (if s = 0 then 8 else 0, s + 1) }
    let d : Daemon := ⟨⟨[⟨6, pollin, 0⟩, ⟨4, pollin, 0⟩], 2⟩, [⟨5, 8⟩],
      [⟨⟨32, 8, anyVector, 7⟩, 3⟩, TableT.zero], false⟩
    let w := (serviceFd sys 2 0 ⟨d, 0, []⟩).world
    w.trace.filterMap Event.delivers = [⟨32, 8, 0, 7⟩] ∧ Decodes ⟨32, 8, 0, 7⟩ 5 3 := by
  intro sys d w
  have hdelivers : w.trace.filterMap Event.delivers = [⟨32, 8, 0, 7⟩] := by decide +kernel
  have hreturns : (serviceFd sys 2 0 ⟨d, 0, []⟩).returns = true := by decide +kernel
  have hrun : DaemonRun sys ⟨d, 0, []⟩ w :=
    .single (.serviced 2 0 (by decide) (Or.inl (Outcome.eq_done hreturns)))
  obtain ⟨e, he, hsel⟩ : ∃ e ∈ w.trace, e.delivers = some ⟨32, 8, 0, 7⟩ :=
    List.mem_filterMap.mp (hdelivers ▸ List.mem_singleton_self _)
  have hread := v120irqdIlog2f_highest_bit.2.2.2.1 ℕ sys d 0 w hrun e he _ hsel
  exact ⟨hdelivers, hread.2 5 3 (by decide) (by decide) rfl rfl⟩

end V120.Irqd
