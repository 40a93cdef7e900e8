import Mathlib.Data.List.Nodup
import Mathlib.Data.Nat.Notation

/-!
# Singly linked lists

Nodes stand under addresses and each holds the address of the next one. A segment is what is met when
the links are followed from one pointer to another, and a list is a segment that ends at the null
pointer. Pushing a node, unlinking one and exchanging the first two each change one or two links, and
lists are carried over such a change by comparing the links before and after it.
-/

namespace V120.Common

variable {P : Type*}

/-- The addresses met when the links are followed from one pointer to another. There is no link under an
address without a node. -/
def Segment (next : P → Option (Option P)) : Option P → List P → Option P → Prop
  | start, [], stop => start = stop
  | start, p :: nodes, stop => start = some p ∧ ∃ link, next p = some link ∧ Segment next link nodes stop

/-- The nodes of a list. -/
abbrev LinkedList (next : P → Option (Option P)) (head : Option P) (nodes : List P) : Prop :=
  Segment next head nodes none

variable {next next' : P → Option (Option P)} {start stop : Option P} {nodes nodes' : List P}

/-- Segments are joined where one ends and the other begins. -/
theorem segment_append :
    Segment next start (nodes ++ nodes') stop ↔
      ∃ middle, Segment next start nodes middle ∧ Segment next middle nodes' stop := by
  induction nodes generalizing start with
  | nil => simp [Segment]
  | cons p nodes ih =>
    simp only [List.cons_append, Segment, ih]
    constructor
    · rintro ⟨rfl, link, hlink, middle, hnodes, hnodes'⟩
      exact ⟨middle, ⟨rfl, link, hlink, hnodes⟩, hnodes'⟩
    · rintro ⟨middle, ⟨rfl, link, hlink, hnodes⟩, hnodes'⟩
      exact ⟨rfl, link, hlink, middle, hnodes, hnodes'⟩

namespace Segment

/-- A segment is still there when its links are. -/
theorem congr (h : Segment next start nodes stop) (hnext : ∀ p ∈ nodes, next' p = next p) :
    Segment next' start nodes stop := by
  induction nodes generalizing start with
  | nil => exact h
  | cons p nodes ih =>
    obtain ⟨rfl, link, hlink, hrest⟩ := h
    refine ⟨rfl, link, ?_, ih hrest fun q hq => hnext q (List.mem_cons_of_mem p hq)⟩
    rw [hnext p List.mem_cons_self, hlink]

/-- There is a node at every address of a segment. -/
theorem exists_link (h : Segment next start nodes stop) {p : P} (hp : p ∈ nodes) :
    ∃ link, next p = some link := by
  induction nodes generalizing start with
  | nil => exact absurd hp List.not_mem_nil
  | cons q nodes ih =>
    obtain ⟨-, link, hlink, hrest⟩ := h
    rcases List.mem_cons.mp hp with rfl | hp
    · exact ⟨link, hlink⟩
    · exact ih hrest hp

end Segment

namespace LinkedList

/-- The links lead from one pointer to one list only. -/
theorem unique (h : LinkedList next start nodes) (h' : LinkedList next start nodes') : nodes = nodes' := by
  induction nodes generalizing start nodes' with
  | nil =>
    obtain rfl : start = none := h
    cases nodes' with
    | nil => rfl
    | cons p nodes' => exact absurd h'.1 (Option.some_ne_none p).symm
  | cons p nodes ih =>
    obtain ⟨rfl, link, hlink, hrest⟩ := h
    cases nodes' with
    | nil => exact absurd h' (Option.some_ne_none p)
    | cons q nodes' =>
      obtain ⟨hq, link', hlink', hrest'⟩ := h'
      obtain rfl := Option.some.inj hq
      rw [hlink] at hlink'
      obtain rfl := Option.some.inj hlink'
      rw [ih hrest hrest']

/-- No address occurs twice in a list that ends. -/
theorem nodup (h : LinkedList next start nodes) : nodes.Nodup := by
  induction nodes generalizing start with
  | nil => exact List.nodup_nil
  | cons p nodes ih =>
    obtain ⟨rfl, link, hlink, hrest⟩ := h
    refine List.nodup_cons.mpr ⟨fun hp => ?_, ih hrest⟩
    -- from its second occurrence on the list would be a shorter list from the same address
    obtain ⟨before, after, rfl⟩ := List.append_of_mem hp
    obtain ⟨middle, -, hmiddle⟩ := segment_append.mp hrest
    have hlater : LinkedList next (some p) (p :: after) := ⟨rfl, hmiddle.2⟩
    have hshorter : p :: after = p :: (before ++ p :: after) := unique hlater ⟨rfl, link, hlink, hrest⟩
    have hlength := congrArg List.length hshorter
    simp only [List.length_cons, List.length_append] at hlength
    omega

/-- A list with a head has a first node. -/
theorem exists_cons {p : P} (h : LinkedList next (some p) nodes) : ∃ rest, nodes = p :: rest := by
  cases nodes with
  | nil => exact absurd h (Option.some_ne_none p)
  | cons q rest =>
    obtain rfl := Option.some.inj h.1
    exact ⟨rest, rfl⟩

/-- A new node that links to the head of a list. -/
theorem push {p : P} (h : LinkedList next start nodes) (hp : next' p = some start)
    (hnext : ∀ q ∈ nodes, next' q = next q) : LinkedList next' (some p) (p :: nodes) :=
  ⟨rfl, start, hp, h.congr hnext⟩

/-- The first two nodes change places when the second links to the first, and the first to what was
behind the second. -/
theorem swap {p q : P} (h : LinkedList next start (p :: q :: nodes)) (hp : next' p = next q)
    (hq : next' q = some (some p)) (hnext : ∀ r ∈ nodes, next' r = next r) :
    LinkedList next' (some q) (q :: p :: nodes) := by
  obtain ⟨-, -, -, -, link, hlink, hrest⟩ := h
  exact ⟨rfl, some p, hq, rfl, link, hp.trans hlink, hrest.congr hnext⟩

/-- A node is out of the list when the one before it links to what was behind it. -/
theorem unlink {before after : List P} {p q : P}
    (h : LinkedList next start (before ++ p :: q :: after)) (hp : next' p = next q)
    (hnext : ∀ r ∈ before ++ after, next' r = next r) :
    LinkedList next' start (before ++ p :: after) := by
  obtain ⟨middle, hbefore, rfl, -, -, -, link, hlink, hafter⟩ := segment_append.mp h
  refine segment_append.mpr ⟨some p, hbefore.congr fun r hr => hnext r (List.mem_append_left _ hr), rfl, link,
    hp.trans hlink, hafter.congr fun r hr => hnext r (List.mem_append_right _ hr)⟩

end LinkedList

/-- Following so many links from a pointer; a null pointer is not followed any further, and there is no
way on from an address without a node. -/
def walk (next : P → Option (Option P)) : ℕ → Option P → Option (Option P)
  | 0, p => some p
  | _ + 1, none => some none
  | k + 1, some p => (next p).bind (walk next k)

/-- In a list the walk comes to the node at that position, or to the end. -/
theorem LinkedList.walk_eq (h : LinkedList next start nodes) (k : ℕ) :
    walk next k start = some nodes[k]? := by
  induction k generalizing start nodes with
  | zero =>
    cases nodes with
    | nil => exact congrArg some h
    | cons p nodes => exact congrArg some h.1
  | succ k ih =>
    cases nodes with
    | nil =>
      obtain rfl : start = none := h
      rfl
    | cons p nodes =>
      obtain ⟨rfl, link, hlink, hrest⟩ := h
      rw [walk, hlink, Option.bind_some, ih hrest, List.getElem?_cons_succ]

/-- The search for the node before another one, from a node on and for so many links at most. The answer
is the node at which the search stops and the link it holds. -/
def findBefore [DecidableEq P] (next : P → Option (Option P)) (target : P) : ℕ → P → Option (P × Option P)
  | 0, _ => none
  | fuel + 1, p =>
    (next p).bind fun link =>
      match link with
      | none => some (p, none)
      | some q => if q = target then some (p, some q) else findBefore next target fuel q

/-- A node that is not the first of its list is behind another one. -/
theorem LinkedList.exists_before {q : P} (h : LinkedList next start nodes) (hq : q ∈ nodes)
    (hne : start ≠ some q) : ∃ before p after, nodes = before ++ p :: q :: after := by
  obtain ⟨before, after, rfl⟩ := List.append_of_mem hq
  rcases List.eq_nil_or_concat before with rfl | ⟨before, p, rfl⟩
  · exact absurd h.1 hne
  · exact ⟨before, p, after, by rw [List.concat_eq_append, ← List.append_cons]⟩

/-- A node behind another one is not the first of its list. -/
theorem LinkedList.head_ne {p q : P} {before after : List P}
    (h : LinkedList next start (before ++ p :: q :: after)) : start ≠ some q := by
  have hnodup := nodup h
  cases before with
  | nil =>
    rw [List.nil_append] at h hnodup
    rintro rfl
    obtain rfl := Option.some.inj h.1
    exact (List.nodup_cons.mp hnodup).1 List.mem_cons_self
  | cons r before =>
    rintro rfl
    obtain rfl := Option.some.inj h.1
    exact (List.nodup_cons.mp hnodup).1
      (List.mem_append_right _ (List.mem_cons_of_mem _ List.mem_cons_self))

/-- The search finds the node before another one of the list, with as much fuel as there are nodes. -/
theorem LinkedList.findBefore_eq [DecidableEq P] {p q first : P} {before after : List P}
    (h : LinkedList next (some first) (before ++ p :: q :: after)) {fuel : ℕ}
    (hfuel : (before ++ p :: q :: after).length ≤ fuel) :
    findBefore next q fuel first = some (p, some q) := by
  induction fuel generalizing before first with
  | zero =>
    rw [List.length_append, List.length_cons] at hfuel
    omega
  | succ fuel ih =>
    cases before with
    | nil =>
      obtain ⟨hp, link, hlink, rfl, -⟩ := h
      obtain rfl := Option.some.inj hp
      rw [findBefore, hlink, Option.bind_some]
      exact if_pos rfl
    | cons r before =>
      obtain ⟨hr, link, hlink, hrest⟩ := h
      obtain rfl := Option.some.inj hr
      obtain ⟨s, rfl⟩ : ∃ s, link = some s := by
        cases before with
        | nil => exact ⟨p, hrest.1⟩
        | cons s before => exact ⟨s, hrest.1⟩
      have hne : s ≠ q := fun hs => head_ne hrest (congrArg some hs)
      rw [findBefore, hlink, Option.bind_some]
      simp only [if_neg hne]
      exact ih hrest (Nat.le_of_succ_le_succ hfuel)

end V120.Common
