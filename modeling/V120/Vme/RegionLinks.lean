import Mathlib.Data.List.Infix
import Mathlib.Logic.Function.Basic
import Mathlib.Tactic.SplitIfs
import V120.Common.LinkedLists
import V120.Common.Texts

/-!
# The list of regions in memory

A handle has a list of regions that are linked to each other, and a region belongs to the user. What is put at the
head of the list links to the old head, even when it is in the list already: then the links lead back to it. To
delete the list takes the links out on the way and so comes to an end, while the search for a tag goes around.
-/

namespace V120.Vme

open V120.Common

/-- Regions by their addresses, as far as they are linked, and the head of the list. -/
structure RegionLinks (P : Type*) where
  next : P → Option P
  listHead : Option P

/-- What is done with the list. -/
inductive RegionOp (P : Type*) where
  | add (data : P)
  | delete

variable {P : Type*} [DecidableEq P]

namespace RegionLinks

/-- `v120_add_vme_region`. -/
def addVmeRegion (data : P) (s : RegionLinks P) : RegionLinks P where
  next := Function.update s.next data s.listHead
  listHead := some data

/-- The loop of `v120_delete_vme_list`, for so many turns at most. -/
def deleteLoop : ℕ → Option P → (P → Option P) → Option (P → Option P)
  | _, none, next => some next
  | 0, some _, _ => none
  | turns + 1, some head, next => deleteLoop turns (next head) (Function.update next head none)

/-- `v120_delete_vme_list`. -/
def deleteVmeList (turns : ℕ) (s : RegionLinks P) : Option (RegionLinks P) :=
  (deleteLoop turns s.listHead s.next).map fun next => ⟨next, none⟩

/-- The loop of `v120_get_vme_region`, for so many turns at most. -/
def searchLoop (tag : P → Option (List Octet)) (next : P → Option P) (name : List Octet) :
    ℕ → Option P → Option (Option P)
  | _, none => some none
  | 0, some _ => none
  | turns + 1, some p => if tag p = some name then some (some p) else searchLoop tag next name turns (next p)

/-- `v120_get_vme_region`. -/
def getVmeRegion (tag : P → Option (List Octet)) (name : List Octet) (turns : ℕ) (s : RegionLinks P) :
    Option (Option P) := searchLoop tag s.next name turns s.listHead

/-- What an operation leaves, when it comes to its end. -/
def Does (s : RegionLinks P) : RegionOp P → RegionLinks P → Prop
  | .add data, t => t = s.addVmeRegion data
  | .delete, t => ∃ turns, s.deleteVmeList turns = some t

/-- One operation after another. -/
inductive Run (s : RegionLinks P) : List (RegionOp P) → RegionLinks P → Prop where
  | nil : Run s [] s
  | snoc {t u : RegionLinks P} {ops : List (RegionOp P)} {op : RegionOp P} (h : Run s ops t)
      (hop : t.Does op u) : Run s (ops ++ [op]) u

end RegionLinks

/-- The regions that were added since the list was deleted, the last one first. -/
def regionsSince (ops : List (RegionOp P)) : List P :=
  ops.foldl (fun added op => match op with
    | .add data => data :: added
    | .delete => []) []

namespace RegionLinks

variable {s t : RegionLinks P} {added : List P}

/-- The links of the regions that were added: each of them leads to what was the head when it was added last. -/
structure Lists (s : RegionLinks P) (added : List P) : Prop where
  head : s.listHead = added.head?
  links : ∀ before p after, added = before ++ p :: after → p ∉ before → s.next p = after.head?

/-- Another region. -/
theorem Lists.addVmeRegion (h : Lists s added) (data : P) : Lists (s.addVmeRegion data) (data :: added) where
  head := rfl
  links before p after hsplit hp := by
    cases before with
    | nil =>
      obtain ⟨rfl, rfl⟩ := List.cons.inj hsplit
      exact (Function.update_self _ _ _).trans h.head
    | cons q before =>
      obtain ⟨rfl, hrest⟩ := List.cons.inj hsplit
      obtain ⟨hne, hnew⟩ := not_or.mp (fun hor => hp (List.mem_cons.mpr hor))
      exact (Function.update_of_ne hne _ _).trans (h.links before p after hrest hnew)

/-- The loop that takes the links out comes to an end: where it comes to a region again there is no link. -/
theorem exists_deleteLoop (h : Lists s added) {before after : List P} {next : P → Option P}
    (hsplit : added = before ++ after) (hgone : ∀ p ∈ before, next p = none)
    (hkept : ∀ p, p ∉ before → next p = s.next p) :
    ∃ turns next', deleteLoop turns after.head? next = some next' := by
  induction after generalizing before next with
  | nil => exact ⟨0, next, rfl⟩
  | cons p after ih =>
    by_cases hp : p ∈ before
    · refine ⟨1, Function.update next p none, ?_⟩
      rw [List.head?_cons, deleteLoop, hgone p hp]
      rfl
    · have hnext : next p = after.head? := (hkept p hp).trans (h.links before p after hsplit hp)
      have hsplit' : added = (before ++ [p]) ++ after := by rw [hsplit, List.append_assoc]; rfl
      have hgone' : ∀ q ∈ before ++ [p], Function.update next p none q = none := by
        intro q hq
        by_cases hqp : q = p
        · exact hqp ▸ Function.update_self _ _ _
        · rw [Function.update_of_ne hqp]
          exact hgone q ((List.mem_append.mp hq).resolve_right fun hin => hqp (List.mem_singleton.mp hin))
      have hkept' : ∀ q, q ∉ before ++ [p] → Function.update next p none q = s.next q := by
        intro q hq
        have hqp : q ≠ p := fun heq => hq (heq ▸ List.mem_append_right _ List.mem_cons_self)
        rw [Function.update_of_ne hqp]
        exact hkept q fun hin => hq (List.mem_append_left _ hin)
      obtain ⟨turns, next', hloop⟩ := ih hsplit' hgone' hkept'
      refine ⟨turns + 1, next', ?_⟩
      rw [List.head?_cons, deleteLoop, hnext]
      exact hloop

/-- The list can be deleted always, and it is empty then. -/
theorem Lists.exists_deleteVmeList (h : Lists s added) : ∃ turns t, s.deleteVmeList turns = some t := by
  obtain ⟨turns, next', hloop⟩ := exists_deleteLoop h (List.nil_append _).symm
    (fun p hp => absurd hp List.not_mem_nil) fun p _ => rfl
  refine ⟨turns, ⟨next', none⟩, ?_⟩
  rw [deleteVmeList, h.head, hloop, Option.map_some]

/-- An empty list has no links. -/
theorem lists_nil (hempty : s.listHead = none) : Lists s [] where
  head := hempty
  links before p after hsplit := by
    have hlength := congrArg List.length hsplit
    rw [List.length_append, List.length_cons, List.length_nil] at hlength
    omega

/-- The links after a run. -/
theorem Run.lists {ops : List (RegionOp P)} (h : Run s ops t) (hempty : s.listHead = none) :
    Lists t (regionsSince ops) := by
  induction h with
  | nil => exact lists_nil hempty
  | @snoc t u ops op h hop ih =>
    rw [regionsSince, List.foldl_append]
    cases op with
    | add data =>
      obtain rfl : u = t.addVmeRegion data := hop
      exact ih.addVmeRegion data
    | delete =>
      obtain ⟨turns, hturns⟩ := hop
      obtain ⟨next, -, rfl⟩ := Option.map_eq_some_iff.mp hturns
      exact lists_nil rfl

section Search

variable {tag : P → Option (List Octet)} {name : List Octet}

omit [DecidableEq P] in
/-- A search that goes around in regions with other tags does not end. -/
theorem searchLoop_around {next : P → Option P} {seen : List P}
    (hround : ∀ q ∈ seen, tag q ≠ some name ∧ ∃ r ∈ seen, next q = some r) (turns : ℕ) {q : P} (hq : q ∈ seen) :
    searchLoop tag next name turns (some q) = none := by
  induction turns generalizing q with
  | zero => rfl
  | succ turns ih =>
    obtain ⟨hother, r, hr, hnext⟩ := hround q hq
    rw [searchLoop, if_neg hother, hnext]
    exact ih hr

omit [DecidableEq P] in
/-- A region behind a search is one it goes around in, when it comes to a region that it was at before. -/
theorem Lists.around (h : Lists s added) {before after : List P} {p : P} (hsplit : added = before ++ p :: after)
    (hnodup : before.Nodup) (hp : p ∈ before) {q : P} (hq : q ∈ before) : ∃ r ∈ before, s.next q = some r := by
  obtain ⟨first, rest, rfl⟩ := List.append_of_mem hq
  have hnew : q ∉ first := fun hin =>
    (List.nodup_append.mp hnodup).2.2 q hin q List.mem_cons_self rfl
  have hnext := h.links first q (rest ++ p :: after) (by rw [hsplit, List.append_assoc]; rfl) hnew
  cases rest with
  | nil => exact ⟨p, hp, hnext⟩
  | cons r rest => exact ⟨r, List.mem_append_right _ (List.mem_cons_of_mem _ List.mem_cons_self), hnext⟩

/-- A region with the tag was added, and none of those that were added later was added twice. -/
def Reachable (tag : P → Option (List Octet)) (name : List Octet) (added : List P) : Prop :=
  ∃ before p after, added = before ++ p :: after ∧ (before ++ [p]).Nodup ∧ tag p = some name

/-- What a search finds that was at some regions already. -/
theorem Lists.search (h : Lists s added) {before after : List P} (hsplit : added = before ++ after)
    (hnodup : before.Nodup) (hother : ∀ q ∈ before, tag q ≠ some name) :
    ((∃ turns found, searchLoop tag s.next name turns after.head? = some found) ↔
      added.Nodup ∨ Reachable tag name added) ∧
    ∀ turns found, searchLoop tag s.next name turns after.head? = some found →
      found = after.find? fun p => tag p == some name := by
  induction after generalizing before with
  | nil =>
    rw [List.append_nil] at hsplit
    refine ⟨iff_of_true ⟨0, none, rfl⟩ (Or.inl (hsplit ▸ hnodup)), fun turns found hfound => ?_⟩
    cases turns <;> exact (Option.some.inj hfound).symm
  | cons p after ih =>
    rw [List.head?_cons]
    by_cases htag : tag p = some name
    · have hnew : p ∉ before := fun hin => hother p hin htag
      have hreachable : Reachable tag name added := by
        refine ⟨before, p, after, hsplit, ?_, htag⟩
        rw [List.nodup_append]
        refine ⟨hnodup, List.nodup_singleton p, fun q hq r hr heq => hnew ?_⟩
        exact List.mem_singleton.mp hr ▸ heq ▸ hq
      refine ⟨iff_of_true ⟨1, some p, ?_⟩ (Or.inr hreachable), fun turns found hfound => ?_⟩
      · rw [searchLoop, if_pos htag]
      · rw [List.find?_cons_of_pos (p := fun p => tag p == some name) (beq_iff_eq.mpr htag)]
        cases turns with
        | zero => cases hfound
        | succ turns =>
          rw [searchLoop, if_pos htag] at hfound
          exact (Option.some.inj hfound).symm
    · rw [List.find?_cons_of_neg (p := fun p => tag p == some name) fun heq => htag (beq_iff_eq.mp heq)]
      by_cases hp : p ∈ before
      · have hnever (turns : ℕ) : searchLoop tag s.next name turns (some p) = none :=
          searchLoop_around (fun q hq => ⟨hother q hq, h.around hsplit hnodup hp hq⟩) turns hp
        refine ⟨iff_of_false ?_ ?_, fun turns found hfound => ?_⟩
        · rintro ⟨turns, found, hfound⟩
          cases (hnever turns).symm.trans hfound
        · have htwice : ¬ (before ++ [p]).Nodup := fun hn =>
            (List.nodup_append.mp hn).2.2 p hp p List.mem_cons_self rfl
          have hprefix : before ++ [p] <+: added := ⟨after, by rw [hsplit, List.append_assoc]; rfl⟩
          rintro (hall | ⟨first, q, rest, hadded, hfirst, hq⟩)
          · exact htwice (hall.sublist hprefix.sublist)
          · have hprefix' : first ++ [q] <+: added := ⟨rest, by rw [hadded, List.append_assoc]; rfl⟩
            rcases List.prefix_or_prefix_of_prefix hprefix hprefix' with hshort | hshort
            · exact htwice (hfirst.sublist hshort.sublist)
            · rcases List.mem_append.mp (hshort.subset (List.mem_append_right _ List.mem_cons_self)) with hin | hin
              · exact hother q hin hq
              · exact htag (List.mem_singleton.mp hin ▸ hq)
        · cases (hnever turns).symm.trans hfound
      · have hnext : s.next p = after.head? := h.links before p after hsplit hp
        have hsplit' : added = (before ++ [p]) ++ after := by rw [hsplit, List.append_assoc]; rfl
        have hnodup' : (before ++ [p]).Nodup := List.nodup_append.mpr
          ⟨hnodup, List.nodup_singleton p, fun q hq r hr heq => hp (List.mem_singleton.mp hr ▸ heq ▸ hq)⟩
        obtain ⟨hiff, hvalue⟩ := ih hsplit' hnodup' fun q hq =>
          (List.mem_append.mp hq).elim (hother q) fun hin => List.mem_singleton.mp hin ▸ htag
        refine ⟨Iff.trans ⟨?_, ?_⟩ hiff, fun turns found hfound => ?_⟩
        · rintro ⟨turns, found, hfound⟩
          cases turns with
          | zero => cases hfound
          | succ turns =>
            rw [searchLoop, if_neg htag, hnext] at hfound
            exact ⟨turns, found, hfound⟩
        · rintro ⟨turns, found, hfound⟩
          refine ⟨turns + 1, found, ?_⟩
          rw [searchLoop, if_neg htag, hnext]
          exact hfound
        · cases turns with
          | zero => cases hfound
          | succ turns =>
            rw [searchLoop, if_neg htag, hnext] at hfound
            exact hvalue turns found hfound

end Search

omit [DecidableEq P] in
/-- The links lead through the regions in the order in which they were added, the last one first, and end behind
them, exactly when none was added twice. -/
theorem Lists.linkedList_iff (h : Lists s added) :
    LinkedList (fun p => some (s.next p)) s.listHead added ↔ added.Nodup := by
  refine ⟨LinkedList.nodup, fun hnodup => ?_⟩
  have hsegment {before after : List P} (hsplit : added = before ++ after) :
      LinkedList (fun p => some (s.next p)) after.head? after := by
    induction after generalizing before with
    | nil => exact rfl
    | cons p after ih =>
      have hnew : p ∉ before := fun hin =>
        (List.nodup_append.mp (hsplit ▸ hnodup)).2.2 p hin p List.mem_cons_self rfl
      refine ⟨rfl, s.next p, rfl, ?_⟩
      have hsplit' : added = (before ++ [p]) ++ after := by rw [hsplit, List.append_assoc]; rfl
      rw [h.links before p after hsplit hnew]
      exact ih hsplit'
  rw [h.head]
  exact hsegment (List.nil_append _).symm

/-- After any regions were added, with the list deleted at any times, it can be deleted; its links are those of a
list that ends exactly when no region was added twice since it was deleted; a search for a tag ends exactly
when it does, or when a region with the tag comes before any that was added twice; and what a search finds is the
region with the tag that was added last. -/
theorem region_links_run {ops : List (RegionOp P)} (h : Run s ops t) (hempty : s.listHead = none)
    (tag : P → Option (List Octet)) (name : List Octet) :
    (∃ turns u, t.deleteVmeList turns = some u ∧ u.listHead = none) ∧
      (LinkedList (fun p => some (t.next p)) t.listHead (regionsSince ops) ↔ (regionsSince ops).Nodup) ∧
      ((∃ turns found, t.getVmeRegion tag name turns = some found) ↔
        (regionsSince ops).Nodup ∨ Reachable tag name (regionsSince ops)) ∧
      ∀ turns found, t.getVmeRegion tag name turns = some found →
        found = (regionsSince ops).find? fun p => tag p == some name := by
  have hlists := h.lists hempty
  obtain ⟨turns, u, hdeleted⟩ := hlists.exists_deleteVmeList
  have hgone : u.listHead = none := by
    obtain ⟨next, -, rfl⟩ := Option.map_eq_some_iff.mp hdeleted
    rfl
  have hsearch : ((∃ turns found, searchLoop tag t.next name turns (regionsSince ops).head? = some found) ↔
      (regionsSince ops).Nodup ∨ Reachable tag name (regionsSince ops)) ∧
      ∀ turns found, searchLoop tag t.next name turns (regionsSince ops).head? = some found →
        found = (regionsSince ops).find? fun p => tag p == some name :=
    hlists.search (List.nil_append _).symm List.nodup_nil fun q hq => absurd hq List.not_mem_nil
  rw [← hlists.head] at hsearch
  exact ⟨⟨turns, u, hdeleted, hgone⟩, hlists.linkedList_iff, hsearch.1, hsearch.2⟩

/-- Three regions of which the first is added again: the third one is lost behind it. -/
theorem region_links_run_twice :
    ∃ t : RegionLinks ℕ, Run ⟨fun _ => none, none⟩ [.add 3, .add 1, .add 2, .add 1] t ∧
      (∃ turns u, t.deleteVmeList turns = some u ∧ u.listHead = none) ∧
      (LinkedList (fun p => some (t.next p)) t.listHead [1, 2, 1, 3] ↔ [1, 2, 1, 3].Nodup) ∧
      ((∃ turns found, t.getVmeRegion (fun p => if p = 3 then some [] else none) [] turns = some found) ↔
        [1, 2, 1, 3].Nodup ∨ Reachable (fun p => if p = 3 then some [] else none) [] [1, 2, 1, 3]) ∧
      ∀ turns found, t.getVmeRegion (fun p => if p = 3 then some [] else none) [] turns = some found →
        found = [1, 2, 1, 3].find? fun p => (if p = 3 then some [] else none) == some ([] : List Octet) := by
  let start : RegionLinks ℕ := ⟨fun _ => none, none⟩
  let t := (((start.addVmeRegion 3).addVmeRegion 1).addVmeRegion 2).addVmeRegion 1
  have hthree : Run start ([] ++ [.add 3]) (start.addVmeRegion 3) := .snoc .nil rfl
  have hone : Run start ([] ++ [.add 3] ++ [.add 1]) ((start.addVmeRegion 3).addVmeRegion 1) := .snoc hthree rfl
  have htwo : Run start ([] ++ [.add 3] ++ [.add 1] ++ [.add 2])
      (((start.addVmeRegion 3).addVmeRegion 1).addVmeRegion 2) := .snoc hone rfl
  have hrun : Run start [.add 3, .add 1, .add 2, .add 1] t := .snoc htwo rfl
  exact ⟨t, hrun, region_links_run hrun rfl (fun p => if p = 3 then some [] else none) []⟩

end RegionLinks

end V120.Vme
