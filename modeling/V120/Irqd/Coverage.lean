import V120.Irqd.RoundTrip

/-!
# Which accepted registrations can fire

A registration asks for a set of single interrupts, one crate, one line and one vector each, and
the first entry covering an interrupt takes it. `locate_interrupt` compares a request with one entry
at a time, so it misses that several entries together take everything the request asks for. Such a
request is accepted and its entry is never reached.
-/

namespace V120.Irqd

open V120.Common

/-- A single interrupt a request asks for: one of its crates, one of its lines from 1 to 7, and any
vector under the wildcard. -/
structure Concrete (request interrupt : V120irqdSelector) : Prop where
  crate : ∃ c, request.crate.getLsbD c = true ∧ interrupt.crate = (1 : BitVec 16) <<< c
  line : ∃ l, 1 ≤ l ∧ l ≤ 7 ∧ request.irq.getLsbD l = true ∧ interrupt.irq = (1 : BitVec 16) <<< l
  vector : request.vector = anyVector ∨ interrupt.vector = request.vector

/-- An entry takes one crate and line of a request, for every vector the request asks for. -/
def TakesPair (sel request : V120irqdSelector) (c l : ℕ) : Prop :=
  sel.crate.getLsbD c = true ∧ sel.irq.getLsbD l = true ∧
    (sel.vector = anyVector ∨ sel.vector = request.vector)

/-- Every crate and line of a request is taken by some entry, not all by the same one. -/
def AllTaken (table : VectorTable) (request : V120irqdSelector) : Prop :=
  ∀ c l, 1 ≤ l → l ≤ 7 → request.crate.getLsbD c = true → request.irq.getLsbD l = true →
    ∃ entry ∈ foreachVector table, TakesPair entry.selector request c l

/-- One entry takes everything a request asks for. -/
def SinglyCovered (table : VectorTable) (request : V120irqdSelector) : Prop :=
  ∃ entry ∈ foreachVector table, Covers entry.selector request

/-- Some single interrupt of an accepted request is resolved to its new entry, which is the one
behind all entries of the table before. -/
def Fires (realloc : Realloc) (sd : ℤ) (request : V120irqdSelector) (table : VectorTable) : Prop :=
  ∃ interrupt, Concrete request interrupt ∧
    locateInterrupt interrupt (registerInterrupt realloc sd request table).2 0 =
      some (countRegisteredInterrupts table) ∧
    findInterrupt interrupt (registerInterrupt realloc sd request table).2 =
      .ok (sd, { interrupt with payload := request.payload })

/-- An accepted request can fire, whatever `realloc` does. -/
def AcceptedFires (sd : ℤ) (request : V120irqdSelector) (table : VectorTable) : Prop :=
  ∀ realloc, (registerInterrupt realloc sd request table).1 = 0 → Fires realloc sd request table

/-- A request that asks for nothing unassigned is refused as in use, whatever `realloc` does. -/
def AssignedRefused (sd : ℤ) (request : V120irqdSelector) (table : VectorTable) : Prop :=
  (∀ interrupt, Concrete request interrupt → ∃ found, findInterrupt interrupt table = .ok found) →
    ∀ realloc, (registerInterrupt realloc sd request table).1 = -eaddrinuse

/-- An entry takes a pair of a request exactly when it covers each single interrupt made of it. -/
theorem takesPair_iff_covers {sel request : V120irqdSelector} (interrupt : V120irqdSelector) {c l : ℕ}
    (hc : request.crate.getLsbD c = true) (hl : request.irq.getLsbD l = true)
    (hcrate : interrupt.crate = (1 : BitVec 16) <<< c) (hirq : interrupt.irq = (1 : BitVec 16) <<< l)
    (hvector : interrupt.vector = request.vector) :
    TakesPair sel request c l ↔ Covers sel interrupt := by
  have hcrates := maskIn_bit_iff sel.crate (BitVec.lt_of_getLsbD hc)
  have hlines := maskIn_bit_iff sel.irq (BitVec.lt_of_getLsbD hl)
  constructor
  · rintro ⟨hselc, hsell, hselv⟩
    exact ⟨hcrate ▸ hcrates.mpr hselc, hirq ▸ hlines.mpr hsell, hvector ▸ hselv⟩
  · intro hcovers
    exact ⟨hcrates.mp (hcrate ▸ hcovers.crate), hlines.mp (hirq ▸ hcovers.irq), hvector ▸ hcovers.vector⟩

/-- Under the wildcard an entry that takes a pair is itself a wildcard, so the vector of the interrupt
does not matter. -/
theorem TakesPair.covers {sel request interrupt : V120irqdSelector} {c l : ℕ}
    (htakes : TakesPair sel request c l) (hcrate : interrupt.crate = (1 : BitVec 16) <<< c)
    (hirq : interrupt.irq = (1 : BitVec 16) <<< l) (hc : request.crate.getLsbD c = true)
    (hl : request.irq.getLsbD l = true)
    (hvector : request.vector = anyVector ∨ interrupt.vector = request.vector) :
    Covers sel interrupt := by
  rcases hvector with hany | hsame
  · have hwild : sel.vector = anyVector := htakes.2.2.elim id fun heq => heq.trans hany
    have hpair := (takesPair_iff_covers { interrupt with vector := request.vector } hc hl hcrate hirq
      rfl).mp htakes
    exact ⟨hpair.crate, hpair.irq, Or.inl hwild⟩
  · exact (takesPair_iff_covers interrupt hc hl hcrate hirq hsame).mp htakes

/-- An entry that covers a request covers each single interrupt of it. -/
theorem Covers.concrete {sel request interrupt : V120irqdSelector} (h : Covers sel request)
    (hconcrete : Concrete request interrupt) : Covers sel interrupt := by
  obtain ⟨c, hc, hcrate⟩ := hconcrete.crate
  obtain ⟨l, -, -, hl, hirq⟩ := hconcrete.line
  exact TakesPair.covers ⟨h.crate c hc, h.irq l hl, h.vector⟩ hcrate hirq hc hl hconcrete.vector

namespace Registry

/-- The entries the loops of the source visit are the registrations. -/
theorem exists_entry_iff (r : Registry) (p : V120irqdSelector → Prop) :
    (∃ entry ∈ foreachVector r.layout, p entry.selector) ↔ ∃ reg ∈ r.entries, p reg.selector := by
  rw [r.foreachVector_layout]
  simp only [List.mem_map, exists_exists_and_eq_and]
  rfl

/-- A look-up succeeds exactly when some registration covers the request. -/
theorem lookup_isSome_iff (r : Registry) (request : V120irqdSelector) :
    (∃ reg, r.lookup request = some reg) ↔ ∃ reg ∈ r.entries, Covers reg.selector request := by
  rw [← Option.isSome_iff_exists, lookup, List.find?_isSome]
  simp only [decide_eq_true_eq]

/-- Everything a request asks for is taken exactly when every single interrupt of it is found. -/
theorem allTaken_iff (r : Registry) (request : V120irqdSelector) :
    AllTaken r.layout request ↔
      ∀ interrupt, Concrete request interrupt → ∃ reg, r.lookup interrupt = some reg := by
  constructor
  · intro htaken interrupt hconcrete
    obtain ⟨c, hc, hcrate⟩ := hconcrete.crate
    obtain ⟨l, hlow, hhigh, hl, hirq⟩ := hconcrete.line
    obtain ⟨reg, hreg, hpair⟩ := (r.exists_entry_iff fun sel => TakesPair sel request c l).mp
      (htaken c l hlow hhigh hc hl)
    exact (r.lookup_isSome_iff interrupt).mpr
      ⟨reg, hreg, hpair.covers hcrate hirq hc hl hconcrete.vector⟩
  · intro hfound c l hlow hhigh hc hl
    -- the hardest interrupt of the pair carries the request's own vector, wildcard or not
    let interrupt : V120irqdSelector := ⟨(1 : BitVec 16) <<< c, (1 : BitVec 16) <<< l, request.vector, 0⟩
    obtain ⟨reg, hreg, hcovers⟩ := (r.lookup_isSome_iff interrupt).mp
      (hfound interrupt ⟨⟨c, hc, rfl⟩, ⟨l, hlow, hhigh, hl, rfl⟩, Or.inr rfl⟩)
    have hpair : TakesPair reg.selector request c l :=
      (takesPair_iff_covers interrupt hc hl rfl rfl rfl).mpr hcovers
    exact (r.exists_entry_iff fun sel => TakesPair sel request c l).mpr ⟨reg, hreg, hpair⟩

/-- `find_interrupt` answers exactly when the look-up does. -/
theorem findInterrupt_ok_iff (r : Registry) (request : V120irqdSelector) :
    (∃ found, findInterrupt request r.layout = .ok found) ↔ ∃ reg, r.lookup request = some reg := by
  rw [r.findInterrupt_layout]
  cases r.lookup request <;> simp

/-- An interrupt that finds nothing is resolved to the entry appended next. -/
theorem fires_of_not_found {r : Registry} {realloc : Realloc} {sd : ℤ}
    {request interrupt : V120irqdSelector} (hret : (r.register realloc sd request).1 = 0)
    (hconcrete : Concrete request interrupt) (hfree : r.lookup interrupt = none) :
    Fires realloc sd request r.layout := by
  rcases r.register_cases realloc sd request with ⟨hneg, -⟩ | ⟨hlegal, -, -, hentries⟩
  · exact absurd hret (Int.ne_of_lt hneg)
  · have hcovers : Covers (Registration.ofRequest sd request hlegal).selector interrupt :=
      SameKey.covers ⟨rfl, rfl, rfl⟩ |>.concrete hconcrete
    have hnone : r.entries.findIdx? (fun reg => decide (Covers reg.selector interrupt)) = none :=
      List.findIdx?_eq_none_iff.mpr fun reg hreg => by
        simpa using not_covers_of_lookup hfree hreg
    have hlookup : (r.register realloc sd request).2.lookup interrupt =
        some (.ofRequest sd request hlegal) := by
      rw [lookup, hentries, List.find?_append, ← lookup, hfree, Option.none_or]
      exact List.find?_cons_of_pos (decide_eq_true hcovers)
    refine ⟨interrupt, hconcrete, ?_, ?_⟩
    · rw [r.registerInterrupt_layout, locateInterrupt_layout, hentries, List.findIdx?_append, hnone,
        Option.none_or, r.countRegisteredInterrupts_layout, List.findIdx?_cons, decide_eq_true hcovers]
      simp
    · rw [r.registerInterrupt_layout, findInterrupt_layout, hlookup]
      rfl

/-- A registration whose single interrupts are all found before it is never reached. -/
theorem not_fires_of_found {r : Registry} {realloc : Realloc} {sd : ℤ} {request : V120irqdSelector}
    (hret : (r.register realloc sd request).1 = 0)
    (hfound : ∀ interrupt, Concrete request interrupt → ∃ reg, r.lookup interrupt = some reg) :
    ¬ Fires realloc sd request r.layout := by
  rintro ⟨interrupt, hconcrete, hlocate, -⟩
  rcases r.register_cases realloc sd request with ⟨hneg, -⟩ | ⟨hlegal, -, -, hentries⟩
  · exact absurd hret (Int.ne_of_lt hneg)
  · obtain ⟨reg, hreg, hcovers⟩ := (r.lookup_isSome_iff interrupt).mp (hfound interrupt hconcrete)
    rw [r.registerInterrupt_layout, locateInterrupt_layout, hentries, List.findIdx?_append,
      r.countRegisteredInterrupts_layout] at hlocate
    cases hidx : r.entries.findIdx? fun reg => decide (Covers reg.selector interrupt) with
    | none =>
      rw [List.findIdx?_eq_none_iff] at hidx
      exact of_decide_eq_false (hidx reg hreg) hcovers
    | some i =>
      obtain ⟨hi, -⟩ := List.findIdx?_eq_some_iff_getElem.mp hidx
      rw [hidx, Option.some_or, Option.some.injEq] at hlocate
      omega

/-- A request that is legal and free is accepted when memory can be had. -/
theorem register_free {r : Registry} {sd : ℤ} {request : V120irqdSelector} (hlegal : Legal sd request)
    (hfree : r.lookup request = none) (stale : Fin interruptVectorIncr → TableT) :
    (r.register (.moved stale) sd request).1 = 0 := by
  rw [register, dif_pos hlegal, dif_pos hfree]
  split <;> rfl

/-- The two halves of what the table promises hold exactly when everything a request asks for is taken
only by a single entry, and then only for a request that passes the checks. -/
theorem fires_iff (r : Registry) (sd : ℤ) (request : V120irqdSelector) :
    (AcceptedFires sd request r.layout ∧ AssignedRefused sd request r.layout) ↔
      (AllTaken r.layout request → Legal sd request ∧ SinglyCovered r.layout request) := by
  have hsingle : SinglyCovered r.layout request ↔ ∃ reg, r.lookup request = some reg :=
    (r.exists_entry_iff fun sel => Covers sel request).trans (r.lookup_isSome_iff request).symm
  rw [r.allTaken_iff, hsingle]
  constructor
  · rintro ⟨hfires, hrefused⟩ hfound
    have hinuse := hrefused fun interrupt hconcrete =>
      (r.findInterrupt_ok_iff interrupt).mpr (hfound interrupt hconcrete)
    by_contra hnot
    rw [not_and_or] at hnot
    rcases hnot with hillegal | hfree
    · have hret := hinuse (.moved fun _ => TableT.zero)
      rw [registerInterrupt_illegal _ _ _ _ hillegal] at hret
      exact absurd hret (by decide : ¬ -einval = -eaddrinuse)
    · by_cases hlegal : Legal sd request
      · have hret := register_free hlegal (Option.eq_none_iff_forall_ne_some.mpr
          (not_exists.mp hfree)) fun _ => TableT.zero
        refine not_fires_of_found hret hfound (hfires _ ?_)
        rw [r.registerInterrupt_layout]
        exact hret
      · have hret := hinuse (.moved fun _ => TableT.zero)
        rw [registerInterrupt_illegal _ _ _ _ hlegal] at hret
        exact absurd hret (by decide : ¬ -einval = -eaddrinuse)
  · intro hcond
    refine ⟨fun realloc hret => ?_, fun hfound realloc => ?_⟩
    · rw [r.registerInterrupt_layout] at hret
      rcases r.register_cases realloc sd request with ⟨hneg, -⟩ | ⟨-, -, hfree, -⟩
      · exact absurd hret (Int.ne_of_lt hneg)
      · -- an accepted request is covered by no single entry, so one of its interrupts is free
        have hopen : ¬ ∀ interrupt, Concrete request interrupt → ∃ reg, r.lookup interrupt = some reg := by
          intro htaken
          obtain ⟨reg, hreg⟩ := (hcond htaken).2
          rw [hfree] at hreg
          exact absurd hreg.symm (Option.some_ne_none reg)
        simp only [not_forall] at hopen
        obtain ⟨interrupt, hconcrete, hnone⟩ := hopen
        exact fires_of_not_found hret hconcrete (Option.eq_none_iff_forall_ne_some.mpr
          (not_exists.mp hnone))
    · obtain ⟨hlegal, reg, hreg⟩ := hcond fun interrupt hconcrete =>
        (r.findInterrupt_ok_iff interrupt).mp (hfound interrupt hconcrete)
      have htaken : ¬ r.lookup request = none := by
        rw [hreg]
        exact Option.some_ne_none reg
      rw [r.registerInterrupt_layout, register, dif_pos hlegal, dif_neg htaken]

end Registry

/-- **When an accepted registration can fire.** For every reachable table, owner and request, the two
promises hold (an accepted request has a single interrupt that is resolved to its new entry, and a
request whose single interrupts are all assigned is refused with `-EADDRINUSE`) exactly when the
request is not wholly taken, or passes the argument checks and is covered by one entry alone. -/
theorem registration_fires_iff {table : VectorTable} (hreach : ReachableTable table) (sd : ℤ)
    (request : V120irqdSelector) :
    (AcceptedFires sd request table ∧ AssignedRefused sd request table) ↔
      (AllTaken table request → Legal sd request ∧ SinglyCovered table request) := by
  obtain ⟨r, rfl⟩ := hreach.exists_registry
  exact r.fires_iff sd request

/-- The empty table keeps both promises for line 1 of crate 0. -/
theorem registration_fires_first :
    AcceptedFires 5 ⟨1, 2, anyVector, 7⟩ [] ∧ AssignedRefused 5 ⟨1, 2, anyVector, 7⟩ [] := by
  refine (registration_fires_iff ⟨[], rfl⟩ 5 ⟨1, 2, anyVector, 7⟩).mpr fun htaken => ?_
  obtain ⟨entry, hentry, -⟩ := htaken 0 1 le_rfl (by decide) rfl rfl
  exact absurd hentry List.not_mem_nil

/-- Clients 5 and 6 hold lines 1 and 2 of crate 0. -/
def twoLines : VectorTable :=
  (runOps TableOp.onTable
    [.register (.moved fun _ => TableT.zero) 5 ⟨1, 2, anyVector, 0⟩,
      .register (.moved fun _ => TableT.zero) 6 ⟨1, 4, anyVector, 0⟩] []).2

/-- Client 7 asks for both lines: the request passes the checks, and the promises do not hold. -/
theorem registration_never_fires :
    ReachableTable twoLines ∧ Legal 7 ⟨1, 6, anyVector, 9⟩ ∧
      ¬ (AcceptedFires 7 ⟨1, 6, anyVector, 9⟩ twoLines ∧
        AssignedRefused 7 ⟨1, 6, anyVector, 9⟩ twoLines) := by
  have hreach : ReachableTable twoLines := ⟨_, rfl⟩
  have hentries : foreachVector twoLines = [⟨⟨1, 2, anyVector, 0⟩, 5⟩, ⟨⟨1, 4, anyVector, 0⟩, 6⟩] := by
    decide
  have hpairs : ∀ c l : Fin 16, (1 : BitVec 16).getLsbD c = true → (6 : BitVec 16).getLsbD l = true →
      ∃ entry ∈ foreachVector twoLines, entry.selector.crate.getLsbD c = true ∧
        entry.selector.irq.getLsbD l = true ∧ entry.selector.vector = anyVector := by
    rw [hentries]
    decide
  have hsingle : ¬ ∃ entry ∈ foreachVector twoLines, Covers entry.selector ⟨1, 6, anyVector, 9⟩ := by
    rw [hentries]
    decide
  refine ⟨hreach, by decide, ?_⟩
  obtain ⟨r, hr⟩ := hreach.exists_registry
  rw [hr] at hpairs hsingle ⊢
  rw [r.fires_iff]
  intro hcond
  refine hsingle (hcond fun c l _ _ hc hl => ?_).2
  obtain ⟨entry, hentry, hcrate, hirq, hvector⟩ :=
    hpairs ⟨c, BitVec.lt_of_getLsbD hc⟩ ⟨l, BitVec.lt_of_getLsbD hl⟩ hc hl
  exact ⟨entry, hentry, hcrate, hirq, Or.inl hvector⟩

end V120.Irqd
