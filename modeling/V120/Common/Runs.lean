import Mathlib.Data.List.Basic

/-!
# Runs of machines

A machine answers each operation and moves to its next state. Two machines whose answers
agree step by step, while a relation between their states is kept, agree over every run. A
machine with a choice is a labelled step relation, and its runs are sequences of labels.
-/

namespace V120.Common

variable {S T Op R : Type*}

/-- The answers of a sequence of operations in order, and the last state. -/
def runOps (step : Op → S → R × S) : List Op → S → List R × S
  | [], s => ([], s)
  | op :: ops, s =>
    let (answer, next) := step op s
    let (answers, last) := runOps step ops next
    (answer :: answers, last)

/-- An invariant of every permitted operation holds after every run of permitted operations. -/
theorem runOps_invariant (step : Op → S → R × S) (inv : S → Prop) (permitted : Op → Prop)
    (hstep : ∀ op s, permitted op → inv s → inv (step op s).2) (ops : List Op)
    (hops : ∀ op ∈ ops, permitted op) (s : S) (hs : inv s) : inv (runOps step ops s).2 := by
  induction ops generalizing s with
  | nil => exact hs
  | cons op ops ih =>
    exact ih (fun other h => hops other (List.mem_cons_of_mem _ h)) _
      (hstep op s (hops op List.mem_cons_self) hs)

/-- An invariant of every operation whose answer is permitted holds after every run of such answers. -/
theorem runOps_invariant_answers (step : Op → S → R × S) (inv : S → Prop) (permitted : Op → R → Prop)
    (hstep : ∀ op s, permitted op (step op s).1 → inv s → inv (step op s).2) (ops : List Op) (s : S)
    (hops : ∀ p ∈ ops.zip (runOps step ops s).1, permitted p.1 p.2) (hs : inv s) :
    inv (runOps step ops s).2 := by
  induction ops generalizing s with
  | nil => exact hs
  | cons op ops ih =>
    simp only [runOps, List.zip_cons_cons, List.forall_mem_cons] at hops
    exact ih _ hops.2 (hstep op s hops.1 hs)

/-- A step-by-step simulation with equal answers is a simulation of runs. -/
theorem runOps_simulation (step : Op → S → R × S) (step' : Op → T → R × T) (rel : S → T → Prop)
    (hstep : ∀ op s t, rel s t → (step op s).1 = (step' op t).1 ∧ rel (step op s).2 (step' op t).2)
    (ops : List Op) (s : S) (t : T) (hrel : rel s t) :
    (runOps step ops s).1 = (runOps step' ops t).1 ∧
      rel (runOps step ops s).2 (runOps step' ops t).2 := by
  induction ops generalizing s t with
  | nil => exact ⟨rfl, hrel⟩
  | cons op ops ih =>
    obtain ⟨hanswer, hnext⟩ := hstep op s t hrel
    obtain ⟨hanswers, hlast⟩ := ih _ _ hnext
    exact ⟨congrArg₂ List.cons hanswer hanswers, hlast⟩

/-- What is not among the first events of a history stands among the later ones. -/
theorem split_append_cons {A : Type*} {l l' before after : List A} {a : A} (ha : a ∉ l)
    (h : l ++ l' = before ++ a :: after) :
    ∃ before', before = l ++ before' ∧ l' = before' ++ a :: after := by
  rcases List.append_eq_append_iff.mp h with ⟨before', hbefore, hrest⟩ | ⟨middle, hl, hafter⟩
  · exact ⟨before', hbefore, hrest⟩
  · cases middle with
    | nil => exact ⟨[], by simpa using hl.symm, hafter.symm⟩
    | cons b middle =>
      obtain ⟨rfl, -⟩ := List.cons.inj hafter
      exact absurd (by rw [hl]; simp) ha

/-- What holds in every state that a run reaches, when a step that is not permitted loses it and every other
step keeps it: it holds in all of them exactly when every step of the run is permitted. -/
theorem foldlM_kept_iff (step : S → Op → Option S) (kept inv : S → Prop) (permitted : Op → S → Prop)
    (hinv : ∀ s, inv s → kept s)
    (hkeep : ∀ op s t, inv s → permitted op s → step s op = some t → inv t)
    (hlose : ∀ op s, inv s → ¬permitted op s → ∃ t, step s op = some t ∧ ¬kept t)
    (ops : List Op) (s : S) (hs : inv s) :
    (∀ before t, before <+: ops → before.foldlM step s = some t → kept t) ↔
      ∀ before op t, before ++ [op] <+: ops → before.foldlM step s = some t → permitted op t := by
  induction ops generalizing s with
  | nil =>
    refine ⟨fun _ before op t h => ?_, fun _ before t h hrun => ?_⟩
    · exact absurd (List.prefix_nil.mp h) (List.append_ne_nil_of_right_ne_nil before (List.cons_ne_nil op []))
    · obtain rfl := List.prefix_nil.mp h
      obtain rfl := Option.some.inj hrun
      exact hinv _ hs
  | cons op ops ih =>
    have hcons (before : List Op) (t : S) :
        (op :: before).foldlM step s = some t ↔ ∃ u, step s op = some u ∧ before.foldlM step u = some t := by
      rw [List.foldlM_cons]
      exact Option.bind_eq_some_iff
    constructor
    · intro hkept before other t h hrun
      -- a first step that is not permitted would already lead to a state without the property
      have hpermitted : permitted op s := by
        by_contra hnot
        obtain ⟨u, hstep, hlost⟩ := hlose op s hs hnot
        exact hlost (hkept [op] u ⟨ops, rfl⟩ ((hcons [] u).mpr ⟨u, hstep, rfl⟩))
      cases before with
      | nil =>
        obtain rfl := Option.some.inj hrun
        obtain ⟨rfl, -⟩ := List.cons_prefix_cons.mp h
        exact hpermitted
      | cons first before =>
        obtain ⟨rfl, hrest⟩ := List.cons_prefix_cons.mp h
        obtain ⟨u, hstep, hrun⟩ := (hcons before t).mp hrun
        exact (ih u (hkeep _ s u hs hpermitted hstep)).mp
          (fun later v hlater hv => hkept (first :: later) v (List.cons_prefix_cons.mpr ⟨rfl, hlater⟩)
            ((hcons later v).mpr ⟨u, hstep, hv⟩)) before other t hrest hrun
    · intro hpermitted before t h hrun
      cases before with
      | nil =>
        obtain rfl := Option.some.inj hrun
        exact hinv _ hs
      | cons first before =>
        obtain ⟨rfl, hrest⟩ := List.cons_prefix_cons.mp h
        obtain ⟨u, hstep, hrun⟩ := (hcons before t).mp hrun
        have hfirst : permitted first s := hpermitted [] first s ⟨ops, rfl⟩ rfl
        exact (ih u (hkeep _ s u hs hfirst hstep)).mpr
          (fun later other v hlater hv => hpermitted (first :: later) other v
            (List.cons_prefix_cons.mpr ⟨rfl, hlater⟩) ((hcons later v).mpr ⟨u, hstep, hv⟩)) before t hrest hrun

variable {L : Type*}

/-- A run of a labelled step relation, with its labels in order. -/
inductive Run (step : L → S → S → Prop) : List L → S → S → Prop where
  | nil (s : S) : Run step [] s s
  | cons {l : L} {ls : List L} {s t u : S} (head : step l s t) (tail : Run step ls t u) :
      Run step (l :: ls) s u

namespace Run

variable {step : L → S → S → Prop}

/-- A run of one step. -/
theorem single {l : L} {s t : S} (h : step l s t) : Run step [l] s t := .cons h (.nil t)

/-- Runs compose. -/
theorem append {ls ls' : List L} {s t u : S} (h : Run step ls s t) (h' : Run step ls' t u) :
    Run step (ls ++ ls') s u := by
  induction h with
  | nil => exact h'
  | cons head _ ih => exact .cons head (ih h')

/-- A run over one sequence of labels and another stops between the two. -/
theorem split {ls ls' : List L} {s u : S} (h : Run step (ls ++ ls') s u) :
    ∃ t, Run step ls s t ∧ Run step ls' t u := by
  induction ls generalizing s with
  | nil => exact ⟨s, .nil s, h⟩
  | cons l ls ih =>
    cases h with
    | cons head tail =>
      obtain ⟨t, hfirst, hlast⟩ := ih tail
      exact ⟨t, .cons head hfirst, hlast⟩

/-- A machine without a choice has one run over the same labels. -/
theorem unique (hstep : ∀ l s t t', step l s t → step l s t' → t = t') {ls : List L} {s t t' : S}
    (h : Run step ls s t) (h' : Run step ls s t') : t = t' := by
  induction h with
  | nil =>
    cases h' with
    | nil => rfl
  | cons head _ ih =>
    cases h' with
    | cons head' tail' =>
      obtain rfl := hstep _ _ _ _ head head'
      exact ih tail'

/-- A run of steps that are also steps of another machine. -/
theorem mono {step' : L → S → S → Prop} (hstep : ∀ l s t, step l s t → step' l s t) {ls : List L}
    {s t : S} (h : Run step ls s t) : Run step' ls s t := by
  induction h with
  | nil s => exact .nil s
  | cons head _ ih => exact .cons (hstep _ _ _ head) ih

/-- What every step keeps, every run keeps. -/
theorem invariant {inv : S → Prop} (hstep : ∀ l s t, step l s t → inv s → inv t) {ls : List L}
    {s t : S} (h : Run step ls s t) (hs : inv s) : inv t := by
  induction h with
  | nil => exact hs
  | cons head _ ih => exact ih (hstep _ _ _ head hs)

end Run

end V120.Common
