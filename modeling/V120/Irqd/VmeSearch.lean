import V120.Common.BitFields
import V120.Irqd.SocketIo

/-!
# The search loop of `process_vme`

One pass from the label `irqsearch` is characterised by its events, and `process_vme` by the
loop heads its passes lead through. Nothing is assumed of the hardware or of the clients: the
status readings, the vectors and the answers to notifications are whatever the outside gives.
-/

namespace V120.Irqd

open V120.Common

variable {σ : Type*} {sys : System σ}

/-- What one pass from `irqsearch` does and where it leads. -/
inductive SearchPass (idx : ℕ) (n : Fin 16) (locals : VmeLocals) (w : World σ) :
    VmeNext σ → Prop where
  | idle {w' : World σ} (status : BitVec 32) (hnone : status &&& locals.irqen = 0)
      (hio : Io w w' [.irqstatus idx status]) : SearchPass idx n locals w (.returned w')
  | illegal {w' : World σ} (status : BitVec 32) (hsome : status &&& locals.irqen ≠ 0)
      (hline : highestLine (status &&& locals.irqen) = none)
      (hio : Io w w' [.irqstatus idx status]) : SearchPass idx n locals w (.fatal w')
  | delivered {w' : World σ} (status vector : BitVec 32) (irq : ℕ) (es : List Event)
      (hline : highestLine (status &&& locals.irqen) = some irq)
      (hnotify : Notified w.daemon.vectorTable
        (concrete n irq vector locals.selector.payload) 0 es)
      (hio : Io w w' ([.irqstatus idx status, .iackVector idx irq vector] ++ es)) :
      SearchPass idx n locals w
        (.irqsearch ⟨locals.irqen, findInterruptRequest
          (concrete n irq vector locals.selector.payload) w.daemon.vectorTable⟩ w')
  | cleared {w' : World σ} (status vector again : BitVec 32) (irq : ℕ) (err : ℤ) (es : List Event)
      (hline : highestLine (status &&& locals.irqen) = some irq)
      (hnotify : Notified w.daemon.vectorTable
        (concrete n irq vector locals.selector.payload) err es)
      (herr : err ≠ 0) (hagain : again &&& ((1 : BitVec 32) <<< irq) = 0)
      (hio : Io w w' ([.irqstatus idx status, .iackVector idx irq vector] ++ es ++
        [.irqstatus idx again])) :
      SearchPass idx n locals w
        (.irqsearch ⟨locals.irqen, findInterruptRequest
          (concrete n irq vector locals.selector.payload) w.daemon.vectorTable⟩ w')
  | stuck {w' : World σ} (status vector again : BitVec 32) (irq : ℕ) (err : ℤ) (es : List Event)
      (hline : highestLine (status &&& locals.irqen) = some irq)
      (hnotify : Notified w.daemon.vectorTable
        (concrete n irq vector locals.selector.payload) err es)
      (herr : err ≠ 0) (hagain : again &&& ((1 : BitVec 32) <<< irq) ≠ 0)
      (hio : Io w w' ([.irqstatus idx status, .iackVector idx irq vector] ++ es ++
        [.irqstatus idx again])) :
      SearchPass idx n locals w
        (.irqsearch ⟨locals.irqen &&& ~~~((1 : BitVec 32) <<< irq), findInterruptRequest
            (concrete n irq vector locals.selector.payload) w.daemon.vectorTable⟩
          (w'.modify (·.setIrqen idx (locals.irqen &&& ~~~((1 : BitVec 32) <<< irq)))))

variable (sys) in
/-- Every pass is one of these. -/
theorem irqsearch_pass (idx : ℕ) (n : Fin 16) (locals : VmeLocals) (w : World σ) :
    SearchPass idx n locals w (irqsearch sys idx n locals w) := by
  have hstatus := io_irqstatus sys w idx
  unfold irqsearch
  generalize w.irqstatus sys idx = head at hstatus ⊢
  obtain ⟨status, w₁⟩ := head
  dsimp only at hstatus ⊢
  split
  · next hnone => exact .idle status hnone hstatus
  · next hsome =>
    cases hline : highestLine (status &&& locals.irqen) with
    | none => exact .illegal status hsome hline hstatus
    | some irq =>
      dsimp only
      have hvector := io_iackVector sys w₁ idx irq
      generalize w₁.iackVector sys idx irq = fetch at hvector ⊢
      obtain ⟨vector, w₂⟩ := fetch
      dsimp only at hvector ⊢
      obtain ⟨es, hnotify, hsent⟩ := notifyIrq_spec sys
        (concrete n irq vector locals.selector.payload) w₂
      generalize notifyIrq sys (concrete n irq vector locals.selector.payload) w₂ = notified
        at hnotify hsent ⊢
      obtain ⟨err, w₃⟩ := notified
      dsimp only at hnotify hsent ⊢
      rw [hvector.daemon, hstatus.daemon] at hnotify ⊢
      have hio := (hstatus.trans hvector).trans hsent
      split
      · next herr =>
        rw [herr] at hnotify
        exact .delivered status vector irq es hline hnotify hio
      · next herr =>
        have hagain := io_irqstatus sys w₃ idx
        generalize w₃.irqstatus sys idx = recheck at hagain ⊢
        obtain ⟨again, w₄⟩ := recheck
        dsimp only at hagain ⊢
        split
        · next hclear =>
          exact .cleared status vector again irq err es hline hnotify herr hclear (hio.trans hagain)
        · next hset =>
          exact .stuck status vector again irq err es hline hnotify herr hset (hio.trans hagain)

/-- The line loop finds the highest of the lines 7 to 1 whose bit is set. -/
theorem highestLine_eq_some {mask : BitVec 32} {irq : ℕ} (h : highestLine mask = some irq) :
    (1 ≤ irq ∧ irq ≤ 7) ∧ mask.getLsbD irq = true ∧
      ∀ j, irq < j → j ≤ 7 → mask.getLsbD j = false := by
  have hmem : irq ∈ [7, 6, 5, 4, 3, 2, 1] := List.mem_of_find?_eq_some h
  obtain ⟨hirq, before, after, hsplit, hbefore⟩ := List.find?_eq_some_iff_append.mp h
  have hdescending : List.Pairwise (· > ·) (before ++ irq :: after) := hsplit ▸ by decide
  refine ⟨by simp at hmem; omega, (and_bit_ne_zero_iff mask irq).mp (bne_iff_ne.mp hirq), ?_⟩
  intro j hlow hhigh
  have hj : j ∈ before ++ irq :: after := hsplit ▸ by simp; omega
  rcases List.mem_append.mp hj with hj | hj
  · have hunset := hbefore j hj
    by_contra hbit
    rw [Bool.not_eq_false, ← and_bit_ne_zero_iff, ← bne_iff_ne] at hbit
    rw [hbit] at hunset
    exact absurd hunset (by decide)
  · have htail := (List.pairwise_append.mp hdescending).2.1
    rcases List.mem_cons.mp hj with rfl | hj
    · omega
    · have hlt := (List.pairwise_cons.mp htail).1 j hj
      omega

/-- A mask that is not empty has a bit. -/
theorem exists_bit {mask : BitVec 32} (h : mask ≠ 0) : ∃ i, i < 32 ∧ mask.getLsbD i = true := by
  by_contra hnone
  apply h
  apply BitVec.eq_of_getLsbD_eq
  intro i hi
  simpa using fun hbit => hnone ⟨i, hi, hbit⟩

/-- The line loop only misses masks without a bit for one of the lines. -/
theorem highestLine_eq_none {mask : BitVec 32} (h : highestLine mask = none) {irq : ℕ}
    (hirq : 1 ≤ irq ∧ irq ≤ 7) : mask.getLsbD irq = false := by
  have hmem : irq ∈ [7, 6, 5, 4, 3, 2, 1] := by simp; omega
  have hunset := List.find?_eq_none.mp h irq hmem
  rw [bne_iff_ne, and_bit_ne_zero_iff, Bool.not_eq_true] at hunset
  exact hunset

/-- `process_vme` up to the label: the locals and the world at the first loop head. -/
def vmeEntry (sys : System σ) (idx : ℕ) (w : World σ) : VmeLocals × World σ :=
  let w := w.log (.processVme (w.pollfd sys idx).fd)
  let (_, w) := (World.sockets sys).read (w.pollfd sys idx).fd w
  let (uninitialised, w) := (World.sockets sys).stale w
  (⟨w.daemon.irqen idx, uninitialised.selector⟩, w)

/-- The states in which a call of `process_vme` comes to the label `irqsearch`. -/
inductive LoopHead (sys : System σ) (idx : ℕ) (n : Fin 16) (w : World σ) :
    VmeLocals → World σ → Prop where
  | enter : LoopHead sys idx n w (vmeEntry sys idx w).1 (vmeEntry sys idx w).2
  | again {locals locals' : VmeLocals} {w₁ w₂ : World σ} (head : LoopHead sys idx n w locals w₁)
      (pass : irqsearch sys idx n locals w₁ = .irqsearch locals' w₂) :
      LoopHead sys idx n w locals' w₂

/-- `process_vme` is its entry followed by the search. -/
theorem processVme_eq {idx : ℕ} {w : World σ} {info : V120Info}
    (hinfo : w.daemon.v120Info[idx]? = some info) (fuel : ℕ) :
    processVme sys fuel idx w = irqsearchLoop sys idx info.cratenumber fuel
      (vmeEntry sys idx w).1 (vmeEntry sys idx w).2 := by
  have hlog : (w.log (.processVme (w.pollfd sys idx).fd)).daemon.v120Info[idx]? = some info := hinfo
  unfold processVme
  simp only [hlog]
  rfl

variable (sys) in
/-- The entry reads the endpoint and leaves the daemon's globals alone. -/
theorem vmeEntry_io (idx : ℕ) (w : World σ) :
    ∃ received, Io w (vmeEntry sys idx w).2
      [.processVme (w.pollfd sys idx).fd, .read (w.pollfd sys idx).fd received] :=
  ⟨_, rfl, by
    rw [← List.singleton_append, ← List.append_assoc]
    rfl⟩

/-- The search returns, exits or runs out of fuel at a loop head. -/
theorem irqsearchLoop_heads {idx : ℕ} {n : Fin 16} {w : World σ} (fuel : ℕ) {locals : VmeLocals}
    {w₁ : World σ} (head : LoopHead sys idx n w locals w₁) :
    (∃ locals' w₂ w', irqsearchLoop sys idx n fuel locals w₁ = .done w' ∧
        LoopHead sys idx n w locals' w₂ ∧ irqsearch sys idx n locals' w₂ = .returned w') ∨
      (∃ locals' w₂ w', irqsearchLoop sys idx n fuel locals w₁ = .exited w' ∧
        LoopHead sys idx n w locals' w₂ ∧ irqsearch sys idx n locals' w₂ = .fatal w') ∨
      ∃ locals' w', irqsearchLoop sys idx n fuel locals w₁ = .unfinished w' ∧
        LoopHead sys idx n w locals' w' := by
  induction fuel generalizing locals w₁ with
  | zero => exact Or.inr (Or.inr ⟨locals, w₁, rfl, head⟩)
  | succ fuel ih =>
    rw [irqsearchLoop]
    cases hpass : irqsearch sys idx n locals w₁ with
    | irqsearch locals' w₂ => exact ih (head.again hpass)
    | returned w' => exact Or.inl ⟨locals, w₁, w', rfl, head, hpass⟩
    | fatal w' => exact Or.inr (Or.inl ⟨locals, w₁, w', rfl, head, hpass⟩)

/-- What holds whenever `process_vme` comes to its label: the cached mask is the register's, and
only the enable register of this crate has changed, and only by losing bits. -/
structure HeadInvariant (idx : ℕ) (d : Daemon) (locals : VmeLocals) (d₁ : Daemon) : Prop where
  lost : MaskIn locals.irqen (d.irqen idx)
  daemon : d₁ = d.setIrqen idx locals.irqen

/-- The cached mask is the register's. -/
theorem HeadInvariant.cached {idx : ℕ} {d d₁ : Daemon} {locals : VmeLocals}
    (h : HeadInvariant idx d locals d₁) (hidx : idx < d.v120Info.length) :
    d₁.irqen idx = locals.irqen := by
  rw [h.daemon, Daemon.irqen_setIrqen hidx]

/-- Clearing bits of a mask leaves a part of it. -/
theorem maskIn_and {w : ℕ} (mask other : BitVec w) : MaskIn (mask &&& other) mask := by
  intro i hi
  rw [BitVec.getLsbD_and, Bool.and_eq_true] at hi
  exact hi.1

/-- A pass keeps the invariant. -/
theorem SearchPass.invariant {idx : ℕ} {n : Fin 16} {d : Daemon} {locals locals' : VmeLocals}
    {w₁ w₂ : World σ} (hpass : SearchPass idx n locals w₁ (.irqsearch locals' w₂))
    (h : HeadInvariant idx d locals w₁.daemon) : HeadInvariant idx d locals' w₂.daemon := by
  cases hpass with
  | delivered status vector irq es hline hnotify hio =>
    exact ⟨h.lost, hio.daemon.trans h.daemon⟩
  | cleared status vector again irq err es hline hnotify herr hagain hio =>
    exact ⟨h.lost, hio.daemon.trans h.daemon⟩
  | stuck status vector again irq err es hline hnotify herr hagain hio =>
    refine ⟨fun i hi => h.lost i (maskIn_and _ _ i hi), ?_⟩
    rw [World.modify, hio.daemon, h.daemon, Daemon.setIrqen_setIrqen]

/-- Every loop head satisfies the invariant. -/
theorem LoopHead.invariant {idx : ℕ} {n : Fin 16} {w w₁ : World σ} {locals : VmeLocals}
    (head : LoopHead sys idx n w locals w₁) : HeadInvariant idx w.daemon locals w₁.daemon := by
  induction head with
  | enter => exact ⟨fun _ h => h, (w.daemon.setIrqen_irqen idx).symm⟩
  | @again locals locals' w₁ w₂ head pass ih =>
    have hpass := irqsearch_pass sys idx n locals w₁
    rw [pass] at hpass
    exact hpass.invariant ih

/-- How a pass ends once the client was notified: it succeeded, or it failed and a fresh reading
shows the line withdrawn, or still asserted, and then the line is disabled. -/
inductive PassEnd (idx irq : ℕ) (err : ℤ) (irqen irqen' : BitVec 32) : List Event → Prop where
  | delivered (herr : err = 0) (hkept : irqen' = irqen) : PassEnd idx irq err irqen irqen' []
  | cleared (again : BitVec 32) (herr : err ≠ 0) (hagain : again.getLsbD irq = false)
      (hkept : irqen' = irqen) : PassEnd idx irq err irqen irqen' [.irqstatus idx again]
  | disabled (again : BitVec 32) (herr : err ≠ 0) (hagain : again.getLsbD irq = true)
      (hlost : irqen' = irqen &&& ~~~((1 : BitVec 32) <<< irq)) :
      PassEnd idx irq err irqen irqen' [.irqstatus idx again]

/-- A pass that returns to the label: it takes a status snapshot, fetches the vector of the
highest line that is set in the snapshot and in the enable register, and notifies once. -/
structure SafePass (idx : ℕ) (n : Fin 16) (w₁ w₂ : World σ) (status vector : BitVec 32)
    (irq : ℕ) : Prop where
  line : 1 ≤ irq ∧ irq ≤ 7
  pending : (status &&& w₁.daemon.irqen idx).getLsbD irq = true
  highest : ∀ j, irq < j → j ≤ 7 → (status &&& w₁.daemon.irqen idx).getLsbD j = false
  events : ∃ payload err es last,
    Notified w₁.daemon.vectorTable (concrete n irq vector payload) err es ∧
      PassEnd idx irq err (w₁.daemon.irqen idx) (w₂.daemon.irqen idx) last ∧
      w₂.trace = w₁.trace ++ ([.irqstatus idx status, .iackVector idx irq vector] ++ es ++ last)

/-- A pass from a head that returns to the label is safe. -/
theorem SearchPass.safe {idx : ℕ} {n : Fin 16} {locals locals' : VmeLocals} {w₁ w₂ : World σ}
    (hpass : SearchPass idx n locals w₁ (.irqsearch locals' w₂))
    (hidx : idx < w₁.daemon.v120Info.length) (hcached : w₁.daemon.irqen idx = locals.irqen) :
    ∃ status vector irq, SafePass idx n w₁ w₂ status vector irq := by
  have hunset {again : BitVec 32} {irq : ℕ} (h : again &&& ((1 : BitVec 32) <<< irq) = 0) :
      again.getLsbD irq = false := by
    by_contra hbit
    rw [Bool.not_eq_false, ← and_bit_ne_zero_iff] at hbit
    exact hbit h
  cases hpass with
  | delivered status vector irq es hline hnotify hio =>
    obtain ⟨hrange, hpending, hhighest⟩ := highestLine_eq_some hline
    rw [← hcached] at hpending hhighest
    exact ⟨status, vector, irq, hrange, hpending, hhighest, _, _, es, [], hnotify,
      .delivered rfl (by rw [hio.daemon]), by rw [hio.trace, List.append_nil]⟩
  | cleared status vector again irq err es hline hnotify herr hagain hio =>
    obtain ⟨hrange, hpending, hhighest⟩ := highestLine_eq_some hline
    rw [← hcached] at hpending hhighest
    exact ⟨status, vector, irq, hrange, hpending, hhighest, _, _, es, _, hnotify,
      .cleared again herr (hunset hagain) (by rw [hio.daemon]), hio.trace⟩
  | @stuck w₂ status vector again irq err es hline hnotify herr hagain hio =>
    obtain ⟨hrange, hpending, hhighest⟩ := highestLine_eq_some hline
    rw [← hcached] at hpending hhighest
    have hlost : (w₂.modify (·.setIrqen idx (locals.irqen &&& ~~~((1 : BitVec 32) <<< irq)))).daemon.irqen
        idx = w₁.daemon.irqen idx &&& ~~~((1 : BitVec 32) <<< irq) := by
      rw [World.modify, hio.daemon, Daemon.irqen_setIrqen hidx, hcached]
    exact ⟨status, vector, irq, hrange, hpending, hhighest, _, _, es, _, hnotify,
      .disabled again herr ((and_bit_ne_zero_iff _ _).mp hagain) hlost, hio.trace⟩

/-- The enable registers keep their number and their crates. -/
theorem length_setIrqen (d : Daemon) (idx : ℕ) (value : BitVec 32) :
    (d.setIrqen idx value).v120Info.length = d.v120Info.length :=
  List.length_modify _ _ _

/-- A safe call of `process_vme`. At every loop head the enable register is the cached mask and has
only lost bits since the call, and the passes between loop heads are safe. When the call returns,
its last reading shows no line that is still enabled. -/
structure SafeCall (sys : System σ) (idx : ℕ) (n : Fin 16) (w : World σ) : Prop where
  register : ∀ locals w₁, LoopHead sys idx n w locals w₁ →
    w₁.daemon.irqen idx = locals.irqen ∧ MaskIn (w₁.daemon.irqen idx) (w.daemon.irqen idx)
  passes : ∀ locals w₁ locals' w₂, LoopHead sys idx n w locals w₁ →
    irqsearch sys idx n locals w₁ = .irqsearch locals' w₂ →
      MaskIn (w₂.daemon.irqen idx) (w₁.daemon.irqen idx) ∧
        ∃ status vector irq, SafePass idx n w₁ w₂ status vector irq
  running : ∀ fuel w', processVme sys fuel idx w = .unfinished w' →
    ∃ locals, LoopHead sys idx n w locals w'
  returned : ∀ fuel w', processVme sys fuel idx w = .done w' →
    ∃ locals w₁ status, LoopHead sys idx n w locals w₁ ∧ w'.daemon = w₁.daemon ∧
      w'.trace = w₁.trace ++ [.irqstatus idx status] ∧ status &&& w'.daemon.irqen idx = 0

/-- **`process_vme` is safe against any hardware and any clients.** -/
theorem processVme_safe (sys : System σ) (idx : ℕ) (w : World σ) (info : V120Info)
    (hinfo : w.daemon.v120Info[idx]? = some info) : SafeCall sys idx info.cratenumber w := by
  have hidx : idx < w.daemon.v120Info.length := (List.getElem?_eq_some_iff.mp hinfo).1
  refine ⟨fun locals w₁ head => ?_, fun locals w₁ locals' w₂ head pass => ?_,
    fun fuel w' hrun => ?_, fun fuel w' hdone => ?_⟩
  · have hcached := head.invariant.cached hidx
    exact ⟨hcached, hcached ▸ head.invariant.lost⟩
  · have hidx₁ : idx < w₁.daemon.v120Info.length := by
      rw [head.invariant.daemon, length_setIrqen]
      exact hidx
    have hpass := irqsearch_pass sys idx info.cratenumber locals w₁
    rw [pass] at hpass
    obtain ⟨status, vector, irq, hsafe⟩ := hpass.safe hidx₁ (head.invariant.cached hidx)
    refine ⟨?_, status, vector, irq, hsafe⟩
    obtain ⟨payload, err, es, last, -, hend, -⟩ := hsafe.events
    cases hend with
    | delivered herr hkept => exact hkept ▸ fun _ h => h
    | cleared again herr hagain hkept => exact hkept ▸ fun _ h => h
    | disabled again herr hagain hlost => exact hlost ▸ maskIn_and _ _
  · rw [processVme_eq hinfo] at hrun
    rcases irqsearchLoop_heads fuel (LoopHead.enter : LoopHead sys idx info.cratenumber w _ _) with
      ⟨_, _, _, hend, -⟩ | ⟨_, _, _, hend, -⟩ | ⟨locals, w₁, hend, head⟩
    · exact absurd (hend.symm.trans hrun) (by simp)
    · exact absurd (hend.symm.trans hrun) (by simp)
    · obtain rfl := Outcome.unfinished.inj (hend.symm.trans hrun)
      exact ⟨locals, head⟩
  · rw [processVme_eq hinfo] at hdone
    rcases irqsearchLoop_heads fuel (LoopHead.enter : LoopHead sys idx info.cratenumber w _ _) with
      ⟨locals, w₁, w₂, hend, head, hret⟩ | ⟨_, _, _, hend, -⟩ | ⟨_, _, hend, -⟩
    · obtain rfl := Outcome.done.inj (hend.symm.trans hdone)
      have hpass := irqsearch_pass sys idx info.cratenumber locals w₁
      rw [hret] at hpass
      cases hpass with
      | idle status hnone hio =>
        refine ⟨locals, w₁, status, head, hio.daemon, hio.trace, ?_⟩
        rw [hio.daemon, head.invariant.cached hidx]
        exact hnone
    · exact absurd (hend.symm.trans hdone) (by simp)
    · exact absurd (hend.symm.trans hdone) (by simp)

/-- An outside where an interrupter holds line 1, whatever is read, with the vector `0x40`. -/
def heldLine : System Unit :=
  { System.silent with irqstatus := fun _ s => (2, s), iackVector := fun _ _ s => (0x40, s) }

/-- The daemon with the last crate, whose line 1 is enabled, and no client. -/
def oneLine : World Unit := ⟨⟨⟨[⟨3, pollin, 1⟩], 1⟩, [⟨Fin.last 15, 2⟩], [], false⟩, (), []⟩

/-- On a line that is stuck, the vector is fetched, nobody takes the interrupt, and the line is disabled. -/
theorem processVme_safe_stuck :
    SafeCall heldLine 0 (Fin.last 15) oneLine ∧ ∃ w', processVme heldLine 2 0 oneLine = .done w' ∧
      w'.trace = [.processVme 3, .read 3 .ended, .irqstatus 0 2, .iackVector 0 1 0x40,
        .lookup ⟨0x8000, 2, 0x40, 0⟩, .irqstatus 0 2, .irqstatus 0 2] ∧ w'.daemon.irqen 0 = 0 :=
  ⟨processVme_safe heldLine 0 oneLine ⟨Fin.last 15, 2⟩ rfl, _, rfl, rfl, rfl⟩

end V120.Irqd
