import V120.Irqd.TableRuns

/-!
# Registering, looking up and releasing

Whatever the owners of other registrations do, and whatever its own owner does short of releasing
it, an accepted registration is found by a look-up of its own key, keeps its key from being
registered again, and can be released. The order of the table carries this: an entry that
covered a later one would take its look-ups and its release.
-/

namespace V120.Irqd

open V120.Common

/-- No entry covers a later one, so no two have the same key. -/
theorem Registry.entries_pairwise (r : Registry) :
    (r.entries.map Registration.entry).Pairwise fun earlier later =>
      ¬ Covers earlier.selector later.selector ∧ ¬ SameKey earlier.selector later.selector := by
  rw [List.pairwise_map]
  exact r.exclusive.imp fun hcovers => ⟨hcovers, fun hkey => hcovers hkey.covers⟩

/-- A registration is found by its own key. -/
theorem Registry.lookup_key (r : Registry) {reg : Registration} (hreg : reg ∈ r.entries)
    {request : V120irqdSelector} (hkey : SameKey reg.selector request) :
    r.lookup request = some reg := by
  refine find?_of_pairwise hreg (by simpa using hkey.covers) r.exclusive fun earlier hearlier => ?_
  rw [not_not]
  exact (of_decide_eq_true hearlier).congr_key hkey.symm

/-- A key that is registered is refused. -/
theorem Registry.register_key (r : Registry) {reg : Registration} (hreg : reg ∈ r.entries)
    {request : V120irqdSelector} (hkey : SameKey reg.selector request) (realloc : Realloc) {sd : ℤ}
    (hsd : sd ≠ 0) : r.register realloc sd request = (-eaddrinuse, r) := by
  have hlegal : Legal sd request :=
    ⟨hsd, hkey.crate ▸ reg.legal.crate, hkey.irq ▸ reg.legal.irq, hkey.irq ▸ reg.legal.lines⟩
  have htaken : ¬ r.lookup request = none := by
    rw [r.lookup_key hreg hkey]
    exact Option.some_ne_none reg
  rw [Registry.register, dif_pos hlegal, dif_neg htaken]

/-- A registration is released by its owner, and only it is. -/
theorem Registry.release_key (r : Registry) {reg : Registration} (hreg : reg ∈ r.entries)
    {request : V120irqdSelector} (hkey : SameKey reg.selector request) :
    (r.release reg.owner request).1 = 0 ∧
      ∃ before after, r.entries = before ++ reg :: after ∧
        (r.release reg.owner request).2.entries = before ++ after := by
  have hfind : (r.entries.find? fun reg => decide (SameKey reg.selector request)) = some reg := by
    refine find?_of_pairwise hreg (by simpa using hkey) (r.pairwise_key request) fun earlier hearlier => ?_
    rw [not_not]
    exact ⟨of_decide_eq_true hearlier, hkey⟩
  obtain ⟨-, before, after, hentries, hbefore⟩ := List.find?_eq_some_iff_append.mp hfind
  have hrelease : r.release reg.owner request =
      (0, r.eraseP fun other => decide (SameKey other.selector request)) := by
    rw [Registry.release, hfind]
    exact if_pos rfl
  have hnone : ∀ other ∈ before, ¬ decide (SameKey other.selector request) = true := by
    intro other hother
    simpa using hbefore other hother
  refine ⟨by rw [hrelease], before, after, hentries, ?_⟩
  rw [hrelease, Registry.entries_eraseP, hentries, List.eraseP_append_right _ hnone,
    List.eraseP_cons_of_pos (by simpa using hkey)]

/-- A call that takes a registration of a client out of the table: a release of its key that
succeeds, or the release of everything the client has. -/
def TableOp.drops (sd : ℤ) (sel : V120irqdSelector) : TableOp → TableResult → Prop
  | .release other request, .code ret => other = sd ∧ SameKey request sel ∧ ret = 0
  | .releaseAll other, _ => other = sd
  | _, _ => False

instance (sd : ℤ) (sel : V120irqdSelector) (op : TableOp) (result : TableResult) :
    Decidable (op.drops sd sel result) := by
  unfold TableOp.drops
  split <;> infer_instance

/-- Every other call keeps the registration. -/
theorem TableOp.keeps {sd : ℤ} {sel : V120irqdSelector} (op : TableOp) {r : Registry} {reg : Registration}
    (hdrops : ¬ op.drops sd sel (op.onRegistry r).1) (howner : reg.owner = sd) (hsel : reg.selector = sel)
    (hreg : reg ∈ r.entries) : reg ∈ (op.onRegistry r).2.entries := by
  cases op with
  | register realloc other request =>
    simp only [TableOp.onRegistry]
    rcases Registry.register_cases realloc other request r with ⟨-, hsame⟩ | ⟨_, -, -, hentries⟩
    · rwa [hsame]
    · rw [hentries]
      exact List.mem_append_left _ hreg
  | release other request =>
    simp only [TableOp.onRegistry] at hdrops ⊢
    rcases Registry.release_cases other request r with ⟨-, hsame⟩ | ⟨hret, -, hentries⟩
    · rwa [hsame]
    · rw [hentries, List.mem_filter]
      refine ⟨hreg, ?_⟩
      by_contra hdropped
      simp only [Bool.not_eq_true', Bool.and_eq_false_imp, decide_eq_true_eq, decide_eq_false_iff_not,
        not_forall, not_not] at hdropped
      obtain ⟨hother, hkey⟩ := hdropped
      exact hdrops ⟨hother.symm.trans howner, hsel ▸ hkey.symm, hret⟩
  | releaseAll other =>
    have hne : other ≠ sd := hdrops
    simp only [TableOp.onRegistry, Registry.releaseAll, Registry.entries_filter, List.mem_filter]
    exact ⟨hreg, by simpa [howner] using hne.symm⟩
  | find request => exact hreg
  | count => exact hreg
  | list => exact hreg

/-- **Registering, looking up and releasing, over whole runs.** In every reachable table no entry
covers a later one or has its key. After an accepted registration and any calls that do not drop it,
a look-up of its key gives its owner and payload, another registration of the key is refused with
`-EADDRINUSE`, and releasing it returns 0 and removes exactly its entry. -/
theorem registration_round_trip {table : VectorTable} (hreach : ReachableTable table) :
    ((foreachVector table).Pairwise fun earlier later =>
      ¬ Covers earlier.selector later.selector ∧ ¬ SameKey earlier.selector later.selector) ∧
    ∀ realloc sd sel, (registerInterrupt realloc sd sel table).1 = 0 →
      ∀ ops, (∀ p ∈ ops.zip (runOps TableOp.onTable ops (registerInterrupt realloc sd sel table).2).1,
          ¬ p.1.drops sd sel p.2) →
        let last := (runOps TableOp.onTable ops (registerInterrupt realloc sd sel table).2).2
        (∀ request, SameKey sel request →
          findInterrupt request last = .ok (sd, { request with payload := sel.payload }) ∧
          (∀ realloc' sd', sd' ≠ 0 →
            registerInterrupt realloc' sd' request last = (-eaddrinuse, last)) ∧
          (releaseInterrupt sd request last).1 = 0 ∧
          ∃ before after, foreachVector last = before ++ ⟨sel, sd⟩ :: after ∧
            foreachVector (releaseInterrupt sd request last).2 = before ++ after) := by
  obtain ⟨r, rfl⟩ := hreach.exists_registry
  rw [r.foreachVector_layout]
  refine ⟨r.entries_pairwise, ?_⟩
  intro realloc sd sel hregister ops
  rw [r.registerInterrupt_layout] at hregister ⊢
  simp only [(runTable_layout ops _).1, (runTable_layout ops _).2]
  intro hops request hkey
  rcases Registry.register_cases realloc sd sel r with ⟨hret, -⟩ | ⟨hlegal, -, -, hentries⟩
  · simp only at hregister
    omega
  have hadded : Registration.ofRequest sd sel hlegal ∈ (r.register realloc sd sel).2.entries := by
    rw [hentries]
    exact List.mem_append_right _ (List.mem_singleton_self _)
  have hkept := runOps_invariant_answers TableOp.onRegistry
    (fun r' => Registration.ofRequest sd sel hlegal ∈ r'.entries) (fun op result => ¬ op.drops sd sel result)
    (fun op r' hop hreg => op.keeps hop rfl rfl hreg) ops _ hops hadded
  generalize (runOps TableOp.onRegistry ops (r.register realloc sd sel).2).2 = last at hkept
  have hkey' : SameKey (Registration.ofRequest sd sel hlegal).selector request := hkey
  obtain ⟨hreleased, before, after, hbefore, hafter⟩ := last.release_key hkept hkey'
  refine ⟨?_, ?_, ?_, before.map Registration.entry, after.map Registration.entry, ?_, ?_⟩
  · rw [last.findInterrupt_layout, last.lookup_key hkept hkey']
    rfl
  · intro realloc' sd' hsd'
    rw [last.registerInterrupt_layout, last.register_key hkept hkey' realloc' hsd']
  · rw [last.releaseInterrupt_layout]
    exact hreleased
  · rw [last.foreachVector_layout, hbefore, List.map_append, List.map_cons]
    rfl
  · rw [last.releaseInterrupt_layout, Registry.foreachVector_layout]
    exact (congrArg (List.map Registration.entry) hafter).trans List.map_append

/-- Client 5 registers line 1 of crate 0. Client 6 registers another line, cannot release the line of
client 5, and leaves: the line is still found, refused to others, and can be released. -/
theorem registration_round_trip_others :
    let registered := (registerInterrupt (.moved fun _ => TableT.zero) 5 ⟨1, 2, anyVector, 7⟩ []).2
    let last := (runOps TableOp.onTable [.register (.moved fun _ => TableT.zero) 6 ⟨1, 4, 9, 8⟩,
      .release 6 ⟨1, 2, anyVector, 0⟩, .releaseAll 6] registered).2
    findInterrupt ⟨1, 2, anyVector, 0⟩ last = .ok (5, ⟨1, 2, anyVector, 7⟩) ∧
      (releaseInterrupt 5 ⟨1, 2, anyVector, 0⟩ last).1 = 0 := by
  intro registered last
  have hreach : ReachableTable [] := ⟨[], rfl⟩
  obtain ⟨hfind, -, hrelease, -⟩ := (registration_round_trip hreach).2 (.moved fun _ => TableT.zero) 5
    ⟨1, 2, anyVector, 7⟩ rfl [.register (.moved fun _ => TableT.zero) 6 ⟨1, 4, 9, 8⟩,
      .release 6 ⟨1, 2, anyVector, 0⟩, .releaseAll 6] (by decide) ⟨1, 2, anyVector, 0⟩ ⟨rfl, rfl, rfl⟩
  exact ⟨hfind, hrelease⟩

end V120.Irqd
