import V120.Irqd.ServerSteps
import Mathlib.Data.List.Induction

/-!
# Reads of the daemon

The daemon reads from a descriptor when a handler was called for it, and `notify_irq` reads the
answer of the client it has just notified. Whom it notifies is told by the interrupt and by the
vector table at that moment, and the table by the calls before.
-/

namespace V120.Irqd

open V120.Common

/-- The descriptor an event hands to a handler. -/
def Event.handled : Event → Option ℤ
  | .processVme fd => some fd
  | .processNewclient fd => some fd
  | .processClient fd => some fd
  | _ => none

/-- The descriptors given to handlers, in order. -/
def handled (es : List Event) : List ℤ := es.filterMap Event.handled

@[simp] theorem handled_append (es es' : List Event) : handled (es ++ es') = handled es ++ handled es' :=
  List.filterMap_append

/-- Handlers called early in a history have been called in it. -/
theorem handled_mem_append {es : List Event} {fd : ℤ} (h : fd ∈ handled es) (es' : List Event) :
    fd ∈ handled (es ++ es') := by
  rw [handled_append]
  exact List.mem_append_left _ h

/-- The new chunk of the table holds zeros, whatever `realloc` left in it. -/
theorem memset_grow (table : VectorTable) (stale : Fin interruptVectorIncr → TableT) :
    memset (table ++ List.ofFn stale) table.length interruptVectorIncr TableT.zero =
      table ++ List.replicate interruptVectorIncr TableT.zero := by
  have hend : (table ++ List.ofFn stale).drop (table.length + interruptVectorIncr) = [] := by
    apply List.drop_of_length_le
    rw [List.length_append, List.length_ofFn]
  rw [memset, List.take_left, hend, List.append_nil]

/-- The answer to a request tells what the request left behind in the table. -/
theorem registerInterrupt_unique {realloc realloc' : Realloc} {sd ret : ℤ}
    {request : V120irqdSelector} {table table₁ table₂ : VectorTable}
    (h₁ : registerInterrupt realloc sd request table = (ret, table₁))
    (h₂ : registerInterrupt realloc' sd request table = (ret, table₂)) : table₁ = table₂ := by
  unfold registerInterrupt at h₁ h₂
  by_cases hsd : sd = 0
  · rw [if_pos hsd] at h₁ h₂
    exact (Prod.mk.inj h₁).2.symm.trans (Prod.mk.inj h₂).2
  by_cases hcrate : request.crate = 0
  · rw [if_neg hsd, if_pos hcrate] at h₁ h₂
    exact (Prod.mk.inj h₁).2.symm.trans (Prod.mk.inj h₂).2
  by_cases hirq : request.irq = 0 ∨ request.irq &&& ~~~anyIrq ≠ 0
  · rw [if_neg hsd, if_neg hcrate, if_pos hirq] at h₁ h₂
    exact (Prod.mk.inj h₁).2.symm.trans (Prod.mk.inj h₂).2
  rw [if_neg hsd, if_neg hcrate, if_neg hirq] at h₁ h₂
  cases hlocate : locateInterrupt request table 0 with
  | some ptr =>
    rw [hlocate] at h₁ h₂
    exact (Prod.mk.inj h₁).2.symm.trans (Prod.mk.inj h₂).2
  | none =>
    rw [hlocate] at h₁ h₂
    dsimp only at h₁ h₂
    by_cases hfull : (foreachVectorSt (fun _ => false) table 0).1 = table.length
    · rw [if_pos hfull] at h₁ h₂
      -- a refusal has a negative code, and a grown table has the code zero
      cases realloc with
      | failed errno =>
        obtain ⟨hret₁, htable₁⟩ := Prod.mk.inj h₁
        cases realloc' with
        | failed errno' => exact htable₁.symm.trans (Prod.mk.inj h₂).2
        | moved stale' =>
          have hpositive := errno.property
          have hret₂ := (Prod.mk.inj h₂).1
          omega
      | moved stale =>
        obtain ⟨hret₁, htable₁⟩ := Prod.mk.inj h₁
        cases realloc' with
        | failed errno' =>
          have hpositive := errno'.property
          have hret₂ := (Prod.mk.inj h₂).1
          omega
        | moved stale' =>
          have htable₂ := (Prod.mk.inj h₂).2
          rw [memset_grow] at htable₁ htable₂
          exact htable₁.symm.trans htable₂
    · rw [if_neg hfull] at h₁ h₂
      exact (Prod.mk.inj h₁).2.symm.trans (Prod.mk.inj h₂).2

/-- An event says what it does to the vector table. -/
theorem TableEvent.unique {e : Event} {table table₁ table₂ : VectorTable}
    (h₁ : TableEvent e table table₁) (h₂ : TableEvent e table table₂) : table₁ = table₂ := by
  cases h₁ with
  | register realloc hregister =>
    cases h₂ with
    | register realloc' hregister' => exact registerInterrupt_unique hregister hregister'
    | other table h => exact absurd h (by simp [Event.changesTable])
  | release hrelease =>
    cases h₂ with
    | release hrelease' => exact (Prod.mk.inj (hrelease.symm.trans hrelease')).2
    | other table h => exact absurd h (by simp [Event.changesTable])
  | releaseAll sd table =>
    cases h₂ with
    | releaseAll sd table => rfl
    | other table h => exact absurd h (by simp [Event.changesTable])
  | other table h =>
    cases h₂ with
    | register realloc' hregister' => exact absurd h (by simp [Event.changesTable])
    | release hrelease' => exact absurd h (by simp [Event.changesTable])
    | releaseAll sd table => exact absurd h (by simp [Event.changesTable])
    | other table h => rfl

/-- What an event of the daemon does to the vector table. -/
theorem ServerStep.table {fake : Bool} {e : Event} {s t : ServerPoint × VectorTable}
    (h : ServerStep fake e s t) : TableEvent e s.2 t.2 := by
  cases h with
  | @internal e table h =>
    refine .other table ?_
    cases e <;> first | rfl | exact absurd h Bool.false_ne_true
  | processVme fd table => exact .other table rfl
  | entered fd received table => exact .other table rfl
  | processClient sock table => exact .other table rfl
  | unread hlen => exact .other _ rfl
  | hungUp hlen => exact .other _ rfl
  | message stale hlen => exact .other _ rfl
  | dropped sock table => exact .releaseAll sock table
  | registered realloc h => exact .register realloc h
  | released h => exact .release h
  | answered result hmsg => exact .other _ rfl
  | unmatched hfind => exact .other _ rfl
  | matched hfind => exact .other _ rfl
  | unsent errno hmsg hsel => exact .other _ rfl
  | signalled hmsg hsel => exact .other _ rfl
  | settled sock received table => exact .other table rfl

/-- The vector table along the events of the daemon. -/
theorem serverRun_table {fake : Bool} {es : List Event} {s t : ServerPoint × VectorTable}
    (h : Run (ServerStep fake) es s t) : Run TableEvent es s.2 t.2 := by
  induction h with
  | nil s => exact .nil s.2
  | cons head _ ih => exact .cons head.table ih

/-- The last event is an interrupt that comes up, and it belongs to the client. -/
def ComesUp (table : VectorTable) (es : List Event) (sock : ℤ) : Prop :=
  ∃ before request found table', es = before ++ [.lookup request] ∧
    Run TableEvent before table table' ∧ findInterrupt request table' = .ok (sock, found)

/-- What must have happened for the daemon to be where it reads, or will read: a handler was called
for the descriptor, or an interrupt of the client came up, and the client has been told. -/
def LeadsTo (table : VectorTable) (es : List Event) : ServerPoint → Prop
  | .entering fd => fd ∈ handled es
  | .receiving sock => sock ∈ handled es
  | .signalling sock _ => ComesUp table es sock
  | .awaiting sock => ∃ before buf, es = before ++ [.write sock buf none] ∧ ComesUp table before sock
  | _ => True

/-- Behind a message the daemon reads nothing more before it is ready again. -/
theorem leadsTo_ofMessage (table : VectorTable) (es : List Event) (fake : Bool) (sock : ℤ)
    (msg : MessageSelect) (sel : V120irqdSelector) :
    LeadsTo table es (.ofMessage fake sock msg sel) := by
  cases msg <;> trivial

/-- The daemon gets where it reads in no other way. -/
theorem serverRun_leadsTo {fake : Bool} {es : List Event} {table table' : VectorTable}
    {point : ServerPoint} (h : Run (ServerStep fake) es (.ready, table) (point, table')) :
    LeadsTo table es point := by
  induction es using List.reverseRecOn generalizing point table' with
  | nil =>
    cases h with
    | nil => trivial
  | append_singleton es e ih =>
    obtain ⟨middle, hes, hlast⟩ := h.split
    cases hlast with
    | cons head tail =>
      cases tail
      cases head with
      | internal h => trivial
      | processVme fd table =>
        change fd ∈ handled (es ++ [.processVme fd])
        rw [handled_append]
        exact List.mem_append_right _ List.mem_cons_self
      | entered fd received table => trivial
      | processClient sock table =>
        change sock ∈ handled (es ++ [.processClient sock])
        rw [handled_append]
        exact List.mem_append_right _ List.mem_cons_self
      | unread hlen => trivial
      | hungUp hlen => trivial
      | message stale hlen => exact leadsTo_ofMessage _ _ _ _ _ _
      | dropped sock table => trivial
      | registered realloc h => trivial
      | released h => trivial
      | answered result hmsg => trivial
      | unmatched hfind => trivial
      | matched hfind => exact ⟨es, _, _, _, rfl, serverRun_table hes, hfind⟩
      | unsent errno hmsg hsel => trivial
      | signalled hmsg hsel => exact ⟨es, _, rfl, ih hes⟩
      | settled sock received table => trivial

/-- The interrupts that come up belong, each at its moment, to nobody, to one of the listed clients,
or to a client whose socket does not take the message. -/
def NoticesReported (ready : List ℤ) (table : VectorTable) (es : List Event) : Prop :=
  ∀ before request after table' sock found, es = before ++ .lookup request :: after →
    Run TableEvent before table table' → findInterrupt request table' = .ok (sock, found) →
      sock ∈ ready ∨ ∃ buf errno rest, after = .write sock buf (some errno) :: rest

/-- The daemon reads from no others when those it notifies are among the handled descriptors. -/
theorem NoticesReported.reads {fake : Bool} {ready : List ℤ} {es : List Event}
    {s : ServerPoint × VectorTable} {table : VectorTable}
    (h : NoticesReported ready table es) (hrun : Run (ServerStep fake) es (.ready, table) s)
    (hhandled : ∀ fd ∈ handled es, fd ∈ ready) {fd : ℤ} {received : Received}
    (hread : .read fd received ∈ es) : fd ∈ ready := by
  obtain ⟨before, after, rfl⟩ := List.append_of_mem hread
  obtain ⟨⟨point, table'⟩, hbefore, hrest⟩ := hrun.split
  have hled := serverRun_leadsTo hbefore
  cases hrest with
  | cons head tail =>
    cases head with
    | internal h => cases h
    | entered => exact hhandled fd (handled_mem_append hled _)
    | unread hlen => exact hhandled fd (handled_mem_append hled _)
    | hungUp hlen => exact hhandled fd (handled_mem_append hled _)
    | message stale hlen => exact hhandled fd (handled_mem_append hled _)
    | settled =>
      obtain ⟨earlier, buf, rfl, first, request, found, table₁, rfl, htable, hfind⟩ := hled
      have hsplit : first ++ [.lookup request] ++ [.write fd buf none] ++ .read fd received :: after =
          first ++ .lookup request :: .write fd buf none :: .read fd received :: after := by
        rw [List.append_assoc, List.append_assoc]
        rfl
      rcases h first request _ table₁ fd found hsplit htable hfind with hready | ⟨_, errno, _, hunsent⟩
      · exact hready
      · cases hunsent

/-- A client that is notified, and whose socket takes the message, is read from. -/
theorem noticesReported_of_reads {fake : Bool} {ready : List ℤ} {es : List Event}
    {table table' : VectorTable} (hrun : Run (ServerStep fake) es (.ready, table) (.ready, table'))
    (hreads : ∀ fd received, .read fd received ∈ es → fd ∈ ready) :
    NoticesReported ready table es := by
  rintro before request after table₁ sock found rfl htable hfind
  obtain ⟨⟨point, table₂⟩, hbefore, hrest⟩ := hrun.split
  have hmoment : Run TableEvent before table table₂ := serverRun_table hbefore
  obtain rfl : table₁ = table₂ := by
    apply Run.unique _ htable hmoment
    exact fun _ _ _ _ h h' => h.unique h'
  cases hrest with
  | cons head tail =>
    cases head with
    | internal h => cases h
    | unmatched hnone =>
      rw [hnone] at hfind
      cases hfind
    | matched hmatched =>
      obtain ⟨rfl, rfl⟩ := Prod.mk.inj (Except.ok.inj (hmatched.symm.trans hfind))
      -- the daemon cannot be ready again before the message was written and answered
      cases tail with
      | cons head tail =>
        cases head with
        | unsent errno hmsg hsel => exact Or.inr ⟨_, errno, _, rfl⟩
        | signalled hmsg hsel =>
          cases tail with
          | cons head tail =>
            cases head with
            | settled sock received table => exact Or.inl (hreads _ received (by simp))

end V120.Irqd
