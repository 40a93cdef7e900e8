import V120.Common.Texts
import V120.Tool.StdinRegion
import V120.Vme.Renumbering
import V120.Vme.Resources

/-!
# Commands that are run for each crate

The commands with an option `-m` hand a function to `do_for_each_crate`, which opens the crate that was asked for,
or the first one, or all of them one after the other, and calls the function on each. It returns what the last call
returned.
-/

namespace V120.Tool

open V120.Common V120.Vme

/-- What the function makes of a crate: what it returns, what it prints, and what it leaves. -/
structure CrateResult (σ : Type*) where
  ret : ℤ
  stdout : List Octet
  left : Vme.World σ

/-- A call of the function, with what it found. -/
structure CrateCall (σ : Type*) where
  world : Vme.World σ
  result : CrateResult σ

/-- `DFEC_INTERM` and `DFEC_NOTALL`. -/
structure DfecFlags where
  interm : Bool
  notAll : Bool

/-- What is said on standard error before a failure. -/
inductive CrateError where
  | allNotAllowed
  | noCrate
  deriving DecidableEq

/-- What becomes of a command: what it returns, what it prints, the calls of the function, and what is left. -/
structure ForEachRun (σ : Type*) where
  ret : ℤ
  stdout : List Octet
  error : Option CrateError
  calls : List (CrateCall σ)
  left : Unopened σ

/-- The line between the reports on two crates. -/
def crateSeparator : List Octet := List.replicate 21 0x2d ++ [0x0a]

section Commands

variable {σ : Type*} (os : Os σ) (fn : Vme.World σ → CrateResult σ)

/-- The call of the function on a crate that was opened. -/
def crateCall (h : V120Handle) (u : Unopened σ) : CrateCall σ :=
  ⟨⟨h, u.errno, u.outside⟩, fn ⟨h, u.errno, u.outside⟩⟩

/-- What a call leaves, beside the handle. -/
def CrateCall.after (call : CrateCall σ) : Unopened σ := ⟨call.result.left.errno, call.result.left.outside⟩

/-- The failure without a crate. -/
def noCrate (u : Unopened σ) : ForEachRun σ := ⟨exitFailure, [], some .noCrate, [], u⟩

/-- A call before the others. -/
def ForEachRun.prepend (separator : List Octet) (call : CrateCall σ) (run : ForEachRun σ) : ForEachRun σ :=
  { run with
    stdout := separator ++ call.result.stdout ++ run.stdout
    calls := call :: run.calls }

/-- The loop over all crates behind `count` of them, for so many turns at most. -/
def crateLoop (interm : Bool) : ℕ → ℕ → ℤ → Option V120Handle → Unopened σ → Option (ForEachRun σ)
  | 0, _, _, _, _ => none
  | turns + 1, count, ret, v120, u =>
    match v120Next os v120 u with
    | (none, u) => some (if count = 0 then noCrate u else ⟨ret, [], none, [], u⟩)
    | (some h, u) =>
      let call := crateCall fn h u
      (crateLoop interm turns (count + 1) call.result.ret (some call.result.left.handle) call.after).map
        (ForEachRun.prepend (if 0 < count ∧ !interm then crateSeparator else []) call)

/-- `do_for_each_crate`. There are 16 crates, so the loop is left in its seventeenth turn. -/
def doForEachCrate (crate : ℤ) (flags : DfecFlags) (u : Unopened σ) : Option (ForEachRun σ) :=
  if crate = allCrates then
    if flags.notAll then some ⟨exitFailure, [], some .allNotAllowed, [], u⟩
    else crateLoop os fn flags.interm 17 0 exitFailure none u
  else
    match openCrate os crate u with
    | (none, u) => some (noCrate u)
    | (some h, u) =>
      let call := crateCall fn h u
      some ⟨call.result.ret, call.result.stdout, none, [call], v120Close os call.result.left.handle call.after⟩

end Commands

/-- How many crates are left to try behind a handle. -/
def cratesLeft (v120 : Option V120Handle) : ℕ :=
  match v120 with
  | none => 16
  | some h => (16 - (h.crateno + 1)).toNat

/-- The numbers of the last crates. -/
def cratesFrom : ℕ → List ℤ
  | 0 => []
  | left + 1 => (15 - left) :: cratesFrom left

section Next

variable {σ : Type*} {os : Os σ}

/-- A crate that is found is one of those that were left to try, and is fresh. -/
theorem nextCrate_some {left : ℕ} (hleft : left ≤ 16) {u : Unopened σ} {h : V120Handle}
    (hopen : (nextCrate os left u).1 = some h) :
    h.Fresh ∧ cratesLeft (some h) < left ∧ h.crateno = 15 - cratesLeft (some h) := by
  refine ⟨nextCrate_fresh hopen, ?_⟩
  induction left generalizing u with
  | zero => exact absurd hopen (Option.some_ne_none h).symm
  | succ left ih =>
    rw [nextCrate] at hopen
    cases htried : (v120Open os (15 - left) u).1 with
    | some h' =>
      rw [htried] at hopen
      obtain rfl := Option.some.inj hopen
      have hcrateno := (v120Open_some htried).2.1
      rw [cratesLeft, hcrateno]
      omega
    | none =>
      rw [htried] at hopen
      obtain ⟨hless, hcrateno⟩ := ih (Nat.le_of_succ_le hleft) hopen
      exact ⟨hless.trans (Nat.lt_succ_self left), hcrateno⟩

/-- The crates that can be opened, whatever else is done. -/
def Attached (os : Os σ) (attached : ℤ → Bool) : Prop := ∀ n s, os.opens n s = attached n

/-- A crate is opened exactly when it can be. -/
theorem v120Open_opens (hpointers : os.MapsPointers) {unitId : ℤ} (hunit : unitId ≤ 15) (u : Unopened σ) :
    (v120Open os unitId u).1.isSome = os.opens unitId u.outside := by
  unfold v120Open Os.opens
  rw [if_neg (Int.not_lt.mpr hunit)]
  dsimp only
  cases (os.malloc u.outside).1 with
  | false => rfl
  | true =>
    rw [if_pos rfl, Bool.true_and]
    generalize os.openDevice .ctrl unitId (os.malloc u.outside).2 = answer
    obtain ⟨errno | fd, outside⟩ := answer
    · rfl
    · have hpointer := hpointers v120MmapSize fd 0 outside
      dsimp only
      generalize os.mmap v120MmapSize fd 0 outside = answer at hpointer
      obtain ⟨errno | ptr, outside⟩ := answer
      · rfl
      · dsimp only
        rw [if_neg (not_or.mpr (hpointer ptr rfl))]
        rfl

/-- The next crate is the first of those left that can be opened. -/
theorem nextCrate_attached (hpointers : os.MapsPointers) {attached : ℤ → Bool} (hattached : Attached os attached)
    {left : ℕ} (hleft : left ≤ 16) (u : Unopened σ) :
    (cratesFrom left).filter attached =
      match (nextCrate os left u).1 with
      | none => []
      | some h => h.crateno :: (cratesFrom (cratesLeft (some h))).filter attached := by
  induction left generalizing u with
  | zero => rfl
  | succ left ih =>
    have hopens := v120Open_opens hpointers (show (15 : ℤ) - left ≤ 15 by omega) u
    rw [hattached] at hopens
    rw [nextCrate, cratesFrom]
    cases htried : (v120Open os (15 - left) u).1 with
    | some h =>
      rw [htried, Option.isSome_some] at hopens
      have hcrateno := (v120Open_some htried).2.1
      have hbehind : cratesLeft (some h) = left := by
        rw [cratesLeft, hcrateno]
        omega
      dsimp only
      rw [List.filter_cons_of_pos hopens.symm, hbehind, hcrateno]
    | none =>
      rw [htried, Option.isSome_none] at hopens
      rw [List.filter_cons_of_neg (Bool.eq_false_iff.mp hopens.symm)]
      exact ih (Nat.le_of_succ_le hleft) _

end Next

section Views

variable {σ ρ : Type*} {os : Os σ} {view : σ → ρ} {fn : Vme.World σ → CrateResult σ}

/-- Each call finds a part of the outside as the call before it left it. -/
inductive Chained (view : σ → ρ) : ρ → List (CrateCall σ) → ρ → Prop where
  | nil (v : ρ) : Chained view v [] v
  | call (call : CrateCall σ) {calls : List (CrateCall σ)} {v : ρ}
      (h : Chained view (view call.result.left.outside) calls v) : Chained view (view call.world.outside) (call :: calls) v

/-- The calls of the loop. -/
theorem crateLoop_chained (hview : os.KeepsView view) {interm : Bool} {turns count : ℕ} {ret : ℤ}
    {v120 : Option V120Handle} {u : Unopened σ} {run : ForEachRun σ}
    (hrun : crateLoop os fn interm turns count ret v120 u = some run) :
    Chained view (view u.outside) run.calls (view run.left.outside) := by
  induction turns generalizing count ret v120 u run with
  | zero => exact absurd hrun (Option.some_ne_none run).symm
  | succ turns ih =>
    have hkept := v120Next_view hview v120 u
    rw [crateLoop] at hrun
    generalize v120Next os v120 u = found at hkept hrun
    obtain ⟨_ | h, after⟩ := found
    · obtain rfl := Option.some.inj hrun
      rw [← hkept]
      dsimp only
      split_ifs
      · exact .nil _
      · exact .nil _
    · obtain ⟨rest, hrest, rfl⟩ := Option.map_eq_some_iff.mp hrun
      rw [← hkept]
      exact .call (crateCall fn h after) (ih hrest)

/-- The calls of a command. -/
theorem doForEachCrate_chained (hview : os.KeepsView view) {crate : ℤ} {flags : DfecFlags} {u : Unopened σ}
    {run : ForEachRun σ} (hrun : doForEachCrate os fn crate flags u = some run) :
    Chained view (view u.outside) run.calls (view run.left.outside) := by
  unfold doForEachCrate at hrun
  split_ifs at hrun
  · obtain rfl := Option.some.inj hrun
    exact .nil _
  · exact crateLoop_chained hview hrun
  · have hkept : view (openCrate os crate u).2.outside = view u.outside := by
      rw [openCrate]
      split_ifs
      · exact nextCrate_view hview 16 u
      · exact v120Open_view hview crate u
    generalize openCrate os crate u = found at hkept hrun
    obtain ⟨_ | h, after⟩ := found
    · obtain rfl := Option.some.inj hrun
      rw [← hkept]
      exact .nil _
    · obtain rfl := Option.some.inj hrun
      rw [← hkept]
      apply Chained.call (crateCall fn h after)
      rw [v120Close_view hview]
      exact .nil _

end Views

/-- What the reports on the crates come to: a line between each two of them, unless they are terse. -/
def cratesOutput (interm : Bool) (outputs : List (List Octet)) : List Octet :=
  List.intercalate (if interm then [] else crateSeparator) outputs

/-- A report before the others. -/
theorem cratesOutput_cons (interm : Bool) (output : List Octet) (outputs : List (List Octet)) :
    cratesOutput interm (output :: outputs) =
      output ++ outputs.flatMap ((if interm then [] else crateSeparator) ++ ·) := by
  unfold cratesOutput
  generalize (if interm then [] else crateSeparator) = separator
  induction outputs generalizing output with
  | nil => rw [List.intercalate_singleton, List.flatMap_nil, List.append_nil]
  | cons next outputs ih =>
    rw [List.intercalate_cons_cons, ih, List.flatMap_cons, List.append_assoc, List.append_assoc]

/-- The status of the last call, if there was one. -/
def lastRet {σ : Type*} (ret : ℤ) (calls : List (CrateCall σ)) : ℤ :=
  (calls.getLast?.map fun call => call.result.ret).getD ret

/-- The number of the crate that a call is for. -/
def CrateCall.crateno {σ : Type*} (call : CrateCall σ) : ℤ := call.world.handle.crateno

section Runs

variable {σ : Type*} {os : Os σ} {fn : Vme.World σ → CrateResult σ}

/-- The function is called on fresh handles, in the order of their crates. -/
structure CallsInOrder (fn : Vme.World σ → CrateResult σ) (run : ForEachRun σ) : Prop where
  result : ∀ call ∈ run.calls, call.result = fn call.world
  fresh : ∀ call ∈ run.calls, call.world.handle.Fresh
  order : (run.calls.map CrateCall.crateno).Pairwise (· < ·)

/-- Nothing is called. -/
theorem CallsInOrder.none {run : ForEachRun σ} (h : run.calls = []) : CallsInOrder fn run := by
  refine ⟨?_, ?_, ?_⟩
  all_goals rw [h]
  · exact List.forall_mem_nil _
  · exact List.forall_mem_nil _
  · exact .nil

/-- What is printed and returned behind `count` crates. -/
structure Reports (interm : Bool) (count : ℕ) (ret : ℤ) (run : ForEachRun σ) : Prop where
  stdout : run.stdout =
    if count = 0 then cratesOutput interm (run.calls.map (CrateResult.stdout ∘ CrateCall.result))
    else (run.calls.map (CrateResult.stdout ∘ CrateCall.result)).flatMap
      ((if interm then [] else crateSeparator) ++ ·)
  ret : run.ret = lastRet (if count = 0 then exitFailure else ret) run.calls
  error : run.error = if count = 0 ∧ run.calls = [] then some .noCrate else none

/-- There is no other crate. -/
theorem Reports.none (interm : Bool) (count : ℕ) (ret : ℤ) (u : Unopened σ) :
    Reports interm count ret (if count = 0 then noCrate u else ⟨ret, [], .none, [], u⟩) := by
  by_cases hcount : count = 0
  · subst hcount
    exact ⟨rfl, rfl, rfl⟩
  · rw [if_neg hcount]
    exact ⟨(if_neg hcount).symm, congrArg (lastRet · []) (if_neg hcount).symm,
      (if_neg fun hnone => hcount hnone.1).symm⟩

/-- The call before the others is printed before them. -/
theorem Reports.prepend {interm : Bool} {count : ℕ} {ret : ℤ} {call : CrateCall σ} {run : ForEachRun σ}
    (h : Reports interm (count + 1) call.result.ret run) :
    Reports interm count ret (run.prepend (if 0 < count ∧ !interm then crateSeparator else []) call) := by
  have hstdout := h.stdout
  have hret := h.ret
  have herror := h.error
  rw [if_neg (Nat.succ_ne_zero count)] at hstdout hret
  rw [if_neg fun hnone => Nat.succ_ne_zero count hnone.1] at herror
  refine ⟨?_, ?_, ?_⟩
  · change _ ++ call.result.stdout ++ run.stdout = _
    rw [hstdout, ForEachRun.prepend, List.map_cons, cratesOutput_cons, List.flatMap_cons]
    cases count with
    | zero => rfl
    | succ count =>
      rw [if_neg (Nat.succ_ne_zero count), Function.comp_apply]
      congr 2
      cases interm with
      | true => rfl
      | false => rfl
  · change run.ret = lastRet _ (call :: run.calls)
    rw [hret, lastRet, lastRet, List.getLast?_cons]
    cases run.calls.getLast? with
    | none => rfl
    | some last => rfl
  · change run.error = if count = 0 ∧ call :: run.calls = [] then _ else _
    rw [if_neg fun hnone => List.cons_ne_nil _ _ hnone.2]
    exact herror

variable (os) in
/-- The handle that was closed is of no crate that is left to try. -/
theorem exists_v120Next (v120 : Option V120Handle) (u : Unopened σ) :
    ∃ u', v120Next os v120 u = nextCrate os (cratesLeft v120) u' := by
  cases v120 with
  | none => exact ⟨u, rfl⟩
  | some h => exact ⟨v120Close os h u, rfl⟩

/-- There are 16 crates. -/
theorem cratesLeft_le {v120 : Option V120Handle} (hcrateno : ∀ h, v120 = some h → 0 ≤ h.crateno) :
    cratesLeft v120 ≤ 16 := by
  cases v120 with
  | none => exact Nat.le_refl 16
  | some h =>
    have hnonneg := hcrateno h rfl
    rw [cratesLeft]
    omega

/-- The loop comes to its end, with the crates behind a handle. -/
theorem crateLoop_crates (hpointers : os.MapsPointers)
    (hfn : ∀ w, (fn w).left.handle.crateno = w.handle.crateno) (interm : Bool) {turns : ℕ} (count : ℕ) (ret : ℤ)
    {v120 : Option V120Handle} (hcrateno : ∀ h, v120 = some h → 0 ≤ h.crateno) (hturns : cratesLeft v120 < turns)
    (u : Unopened σ) :
    ∃ run, crateLoop os fn interm turns count ret v120 u = some run ∧ CallsInOrder fn run ∧
      Reports interm count ret run ∧
      (∀ call ∈ run.calls, 16 - (cratesLeft v120 : ℤ) ≤ call.crateno) ∧
      ∀ attached, Attached os attached →
        run.calls.map CrateCall.crateno = (cratesFrom (cratesLeft v120)).filter attached := by
  induction turns generalizing count ret v120 u with
  | zero => exact absurd hturns (Nat.not_lt_zero _)
  | succ turns ih =>
    have hle := cratesLeft_le hcrateno
    obtain ⟨u', hnext⟩ := exists_v120Next os v120 u
    have hfound (h : V120Handle) (hopen : (nextCrate os (cratesLeft v120) u').1 = some h) := nextCrate_some hle hopen
    have hattached (attached : ℤ → Bool) (h : Attached os attached) := nextCrate_attached hpointers h hle u'
    rw [crateLoop, hnext]
    generalize nextCrate os (cratesLeft v120) u' = found at hfound hattached
    obtain ⟨_ | h, after⟩ := found
    · -- no crate is left
      have hnone : (if count = 0 then noCrate after else ⟨ret, [], none, [], after⟩ : ForEachRun σ).calls = [] := by
        split_ifs
        · rfl
        · rfl
      refine ⟨_, rfl, .none hnone, .none interm count ret after, ?_, fun attached h => ?_⟩
      · rw [hnone]
        exact List.forall_mem_nil _
      · rw [hnone]
        exact (hattached attached h).symm
    · -- the function is called on the next crate
      obtain ⟨hfresh, hless, hnumber⟩ := hfound h rfl
      have hsame : (crateCall fn h after).result.left.handle.crateno = h.crateno := hfn _
      have hleft : cratesLeft (some (crateCall fn h after).result.left.handle) = cratesLeft (some h) := by
        rw [cratesLeft, cratesLeft, hsame]
      have hnext' : ∀ h', some (crateCall fn h after).result.left.handle = some h' → 0 ≤ h'.crateno := by
        intro h' hh'
        obtain rfl := Option.some.inj hh'
        omega
      obtain ⟨run, hrun, hinorder, hreports, hbehind, hcrates⟩ :=
        ih (count + 1) (crateCall fn h after).result.ret hnext' (by omega) (crateCall fn h after).after
      rw [hleft] at hbehind hcrates
      have hhere : (crateCall fn h after).crateno = 15 - cratesLeft (some h) := hnumber
      refine ⟨_, congrArg (Option.map _) hrun, ⟨?_, ?_, ?_⟩, hreports.prepend, ?_, fun attached h => ?_⟩
      · exact List.forall_mem_cons.mpr ⟨rfl, hinorder.result⟩
      · exact List.forall_mem_cons.mpr ⟨hfresh, hinorder.fresh⟩
      · refine List.pairwise_cons.mpr ⟨fun number hnumber => ?_, hinorder.order⟩
        obtain ⟨call, hcall, rfl⟩ := List.mem_map.mp hnumber
        have hlater := hbehind call hcall
        omega
      · refine List.forall_mem_cons.mpr ⟨by omega, fun call hcall => ?_⟩
        have hlater := hbehind call hcall
        omega
      · rw [hattached attached h]
        exact congrArg (List.cons _) (hcrates attached h)

/-- The crates that a command is for: all of them, the first one, or the one that was asked for. -/
def wantedCrates (crate : ℤ) (notAll : Bool) (attached : ℤ → Bool) : List ℤ :=
  let all := ((List.range 16).map fun n => (n : ℤ)).filter attached
  if crate = allCrates then (if notAll then [] else all)
  else if crate < 0 then all.take 1
  else if crate ≤ 15 then [crate].filter attached
  else []

/-- The crate that is opened when all are not asked for. -/
theorem openCrate_wanted (hpointers : os.MapsPointers) {crate : ℤ} (hcrate : crate ≠ allCrates) (notAll : Bool)
    (u : Unopened σ) {attached : ℤ → Bool} (hattached : Attached os attached) :
    wantedCrates crate notAll attached = ((openCrate os crate u).1.map V120Handle.crateno).toList := by
  rw [wantedCrates, if_neg hcrate, openCrate]
  by_cases hfirst : crate < 0
  · rw [if_pos hfirst, if_pos hfirst]
    have hnext := nextCrate_attached hpointers hattached (Nat.le_refl 16) u
    change (List.filter attached (cratesFrom 16)).take 1 = ((nextCrate os 16 u).1.map V120Handle.crateno).toList
    rw [hnext]
    cases (nextCrate os 16 u).1 with
    | none => rfl
    | some h => rfl
  · rw [if_neg hfirst, if_neg hfirst]
    by_cases hunit : crate ≤ 15
    · have hopens := v120Open_opens hpointers hunit u
      rw [hattached] at hopens
      rw [if_pos hunit]
      cases hopened : (v120Open os crate u).1 with
      | none =>
        rw [hopened] at hopens
        exact List.filter_cons_of_neg (Bool.eq_false_iff.mp hopens.symm)
      | some h =>
        rw [hopened] at hopens
        rw [List.filter_cons_of_pos hopens.symm, Option.map_some, (v120Open_some hopened).2.1]
        rfl
    · rw [if_neg hunit, v120Open, if_pos (Int.not_le.mp hunit)]
      rfl

/-- A command comes to its end, and the function is called on each crate that it is for. -/
theorem doForEachCrate_crates (fn : Vme.World σ → CrateResult σ) (hpointers : os.MapsPointers)
    (hfn : ∀ w, (fn w).left.handle.crateno = w.handle.crateno) (crate : ℤ) (flags : DfecFlags) (u : Unopened σ) :
    ∃ run, doForEachCrate os fn crate flags u = some run ∧ CallsInOrder fn run ∧
      run.stdout = cratesOutput flags.interm (run.calls.map (CrateResult.stdout ∘ CrateCall.result)) ∧
      run.ret = lastRet exitFailure run.calls ∧
      (run.error = none ↔ run.calls ≠ []) ∧
      ∀ attached, Attached os attached →
        run.calls.map CrateCall.crateno = wantedCrates crate flags.notAll attached := by
  by_cases hall : crate = allCrates
  · unfold doForEachCrate wantedCrates
    simp only [if_pos hall]
    cases hallowed : flags.notAll with
    | true =>
      exact ⟨_, if_pos rfl, .none rfl, rfl, rfl, iff_of_false (Option.some_ne_none _) fun hsome => hsome rfl,
        fun _ _ => rfl⟩
    | false =>
      obtain ⟨run, hrun, hinorder, hreports, -, hcrates⟩ :=
        crateLoop_crates hpointers hfn flags.interm 0 exitFailure
          (show ∀ h : V120Handle, none = some h → 0 ≤ h.crateno from fun _ h => absurd h (Option.some_ne_none _).symm)
          (Nat.lt_succ_self 16) u
      refine ⟨run, hrun, hinorder, hreports.stdout, hreports.ret, ?_, hcrates⟩
      rw [hreports.error]
      by_cases hnone : run.calls = []
      · rw [if_pos ⟨rfl, hnone⟩]
        exact iff_of_false (Option.some_ne_none _) fun hsome => hsome hnone
      · rw [if_neg fun h => hnone h.2]
        exact iff_of_true rfl hnone
  · have hwanted (attached : ℤ → Bool) (h : Attached os attached) :=
      openCrate_wanted hpointers hall flags.notAll u h
    have hfresh (h : V120Handle) (hopen : (openCrate os crate u).1 = some h) := openCrate_fresh hopen
    unfold doForEachCrate
    rw [if_neg hall]
    generalize openCrate os crate u = found at hwanted hfresh ⊢
    obtain ⟨_ | h, u⟩ := found
    · exact ⟨_, rfl, .none rfl, rfl, rfl, iff_of_false (Option.some_ne_none _) fun hsome => hsome rfl,
        fun attached h => (hwanted attached h).symm⟩
    · refine ⟨_, rfl, ⟨List.forall_mem_singleton.mpr rfl, List.forall_mem_singleton.mpr (hfresh h rfl),
        List.pairwise_singleton _ _⟩, ?_, rfl, iff_of_true rfl (List.cons_ne_nil _ _),
        fun attached h => (hwanted attached h).symm⟩
      exact (cratesOutput_cons _ _ []).symm ▸ (List.append_nil _).symm

end Runs

section Accounts

variable {σ : Type*} {os : Os σ} {fn : Vme.World (σ × List ResourceEvent) → CrateResult (σ × List ResourceEvent)}

/-- The function is called when nothing but its crate is held, and nothing is held at the end. -/
structure OneAtATime (run : ForEachRun (σ × List ResourceEvent)) : Prop where
  holds : ∀ call ∈ run.calls, Holds call.world.outside call.world.handle.resources
  closed : Balanced run.left.outside.2

/-- Nothing is called, and nothing is held. -/
theorem OneAtATime.none {run : ForEachRun (σ × List ResourceEvent)} (hcalls : run.calls = [])
    (h : Holds run.left.outside 0) : OneAtATime run := by
  refine ⟨?_, h⟩
  rw [hcalls]
  exact List.forall_mem_nil _

/-- What a call holds at its end. -/
theorem crateCall_holds (hfn : ∀ w, KeepsAccount w (fn w).left) {h : V120Handle}
    {u : Unopened (σ × List ResourceEvent)} (hholds : Holds u.outside h.resources) :
    Holds (crateCall fn h u).after.outside (crateCall fn h u).result.left.handle.resources := by
  have hkept := (hfn ⟨h, u.errno, u.outside⟩).holds 0
  rw [Multiset.add_zero, Multiset.add_zero] at hkept
  exact hkept hholds

/-- The loop goes from one crate to the next. -/
theorem crateLoop_holds (hpointers : os.MapsPointers) (hfn : ∀ w, KeepsAccount w (fn w).left) {interm : Bool}
    {turns count : ℕ} {ret : ℤ} {v120 : Option V120Handle} {u : Unopened (σ × List ResourceEvent)}
    (hholds : Holds u.outside (openedResources v120)) {run : ForEachRun (σ × List ResourceEvent)}
    (hrun : crateLoop os.accounted fn interm turns count ret v120 u = some run) : OneAtATime run := by
  induction turns generalizing count ret v120 u run with
  | zero => exact absurd hrun (Option.some_ne_none run).symm
  | succ turns ih =>
    rw [← Multiset.add_zero (openedResources v120 : Multiset Resource)] at hholds
    have hheld := v120Next_holds hpointers v120 hholds
    rw [crateLoop] at hrun
    generalize v120Next os.accounted v120 u = found at hheld hrun
    obtain ⟨_ | h, after⟩ := found
    · obtain rfl := Option.some.inj hrun
      split_ifs
      · exact .none rfl hheld
      · exact .none rfl hheld
    · obtain ⟨rest, hrest, rfl⟩ := Option.map_eq_some_iff.mp hrun
      rw [Multiset.add_zero, openedResources, Option.toList_some, List.flatMap_singleton] at hheld
      have hafter := crateCall_holds hfn hheld
      have hothers : OneAtATime rest := by
        apply ih _ hrest
        rw [openedResources, Option.toList_some, List.flatMap_singleton]
        exact hafter
      exact ⟨List.forall_mem_cons.mpr ⟨hheld, hothers.holds⟩, hothers.closed⟩

/-- What is held when a crate was to be opened. -/
theorem openCrate_holds (hpointers : os.MapsPointers) (crate : ℤ) {u : Unopened (σ × List ResourceEvent)}
    (h : Holds u.outside 0) :
    Holds (openCrate os.accounted crate u).2.outside (openedResources (openCrate os.accounted crate u).1) := by
  rw [← Multiset.add_zero (openedResources _ : Multiset Resource), openCrate]
  split_ifs
  · exact nextCrate_holds hpointers 16 h
  · exact v120Open_holds hpointers crate h

/-- A command holds one crate at a time. -/
theorem doForEachCrate_holds (hpointers : os.MapsPointers) (hfn : ∀ w, KeepsAccount w (fn w).left) {crate : ℤ}
    {flags : DfecFlags} {u : Unopened (σ × List ResourceEvent)} (hholds : Holds u.outside 0)
    {run : ForEachRun (σ × List ResourceEvent)}
    (hrun : doForEachCrate os.accounted fn crate flags u = some run) : OneAtATime run := by
  unfold doForEachCrate at hrun
  split_ifs at hrun
  · obtain rfl := Option.some.inj hrun
    exact .none rfl hholds
  · exact crateLoop_holds hpointers hfn hholds hrun
  · have hheld := openCrate_holds hpointers crate hholds
    generalize openCrate os.accounted crate u = found at hheld hrun
    obtain ⟨_ | h, after⟩ := found
    · obtain rfl := Option.some.inj hrun
      exact .none rfl hheld
    · obtain rfl := Option.some.inj hrun
      change Holds after.outside (openedResources (some h)) at hheld
      rw [openedResources, Option.toList_some, List.flatMap_singleton] at hheld
      have hafter := crateCall_holds hfn hheld
      rw [← Multiset.add_zero (V120Handle.resources _ : Multiset Resource)] at hafter
      exact ⟨List.forall_mem_singleton.mpr hheld, v120Close_holds os hafter⟩

/-- Pointers can still be told from errors. -/
theorem mapsPointers_accounted (hpointers : os.MapsPointers) : os.accounted.MapsPointers := by
  intro size fd offset s ptr hptr
  have hpointer := hpointers size fd offset s.1
  rw [Os.accounted] at hptr
  dsimp only at hptr
  generalize os.mmap size fd offset s.1 = answer at hpointer hptr
  obtain ⟨errno | ptr', outside⟩ := answer
  · cases hptr
  · obtain rfl := Except.ok.inj hptr
    exact hpointer _ rfl

/-- With its mappings accounted, a system opens the same crates. -/
theorem attached_accounted {attached : ℤ → Bool} (hattached : Attached os attached) :
    Attached os.accounted attached := by
  intro n s
  rw [← hattached n s.1, Os.opens, Os.opens, Os.accounted]
  dsimp only
  congr 1
  generalize os.openDevice .ctrl n (os.malloc s.1).2 = answer
  obtain ⟨errno | fd, outside⟩ := answer
  · rfl
  · dsimp only
    generalize os.mmap v120MmapSize fd 0 outside = answer
    obtain ⟨errno | ptr, outside'⟩ := answer
    · rfl
    · rfl

/-- **A command is run on each crate that it is for, one at a time, and leaves nothing open.** For every operating
system, whatever the function does with its crate: the command comes to its end, the function is called on handles
that were opened just before, in the order of the crates, while nothing else is held, and in the end every
descriptor and every area was given back once. What is printed are the reports with a line between them, and the
status is the one of the last call. -/
theorem doForEachCrate_run (hpointers : os.MapsPointers) (hfn : ∀ w, KeepsAccount w (fn w).left) (crate : ℤ)
    (flags : DfecFlags) (errno : ℤ) (outside : σ) :
    ∃ run, doForEachCrate os.accounted fn crate flags ⟨errno, (outside, [])⟩ = some run ∧ CallsInOrder fn run ∧
      OneAtATime run ∧
      run.stdout = cratesOutput flags.interm (run.calls.map (CrateResult.stdout ∘ CrateCall.result)) ∧
      run.ret = lastRet exitFailure run.calls ∧
      (run.error = none ↔ run.calls ≠ []) ∧
      ∀ attached, Attached os attached →
        run.calls.map CrateCall.crateno = wantedCrates crate flags.notAll attached := by
  have hnothing : Holds ((outside, []) : σ × List ResourceEvent) 0 := rfl
  obtain ⟨run, hrun, hinorder, hstdout, hret, herror, hcrates⟩ :=
    doForEachCrate_crates fn (mapsPointers_accounted hpointers) (fun w => (hfn w).crateno) crate flags
      ⟨errno, (outside, [])⟩
  exact ⟨run, hrun, hinorder, doForEachCrate_holds hpointers hfn (u := ⟨errno, (outside, [])⟩) hnothing hrun,
    hstdout, hret, herror, fun attached h => hcrates attached (attached_accounted h)⟩

end Accounts

theorem enoent_pos : 0 < enoent := by decide

/-- A system in which crates 2 and 5 can be opened. -/
def twoCrates : Os Unit where
  openDevice _ crateno s := if crateno = 2 ∨ crateno = 5 then (.ok 7, s) else (.error ⟨enoent, enoent_pos⟩, s)
  mmap _ _ _ s := (.ok 0x1000, s)
  malloc s := (true, s)
  munmap _ _ s := s
  close _ s := s
  controlMap _ _ _ := 0

/-- Pointers can be told from errors. -/
theorem twoCrates_mapsPointers : twoCrates.MapsPointers := by
  intro size fd offset s ptr hptr
  obtain rfl := Except.ok.inj hptr
  decide

/-- Crates 2 and 5 can be opened at any time. -/
theorem twoCrates_attached : Attached twoCrates fun n => decide (n = 2 ∨ n = 5) := by
  intro n s
  rw [Os.opens, twoCrates]
  dsimp only
  split_ifs with hn
  · exact (decide_eq_true hn).symm
  · exact (decide_eq_false hn).symm

/-- A function that maps all pages of its crate, and prints a line. -/
def mapAll (w : Vme.World (Unit × List ResourceEvent)) : CrateResult (Unit × List ResourceEvent) :=
  ⟨exitSuccess, [0x78, 0x0a], Call.getAllVme.run twoCrates.accounted w⟩

/-- `mapAll` is called on crates 2 and 5, and everything is given back. -/
theorem doForEachCrate_run_twoCrates :
    ∃ run, doForEachCrate twoCrates.accounted mapAll allCrates ⟨false, false⟩ ⟨0, ((), [])⟩ = some run ∧
      run.calls.map CrateCall.crateno = [2, 5] ∧ run.ret = exitSuccess ∧ Balanced run.left.outside.2 := by
  have hmapAll (w : Vme.World (Unit × List ResourceEvent)) : KeepsAccount w (mapAll w).left :=
    (relates_keepsAccount twoCrates_mapsPointers).run .getAllVme w
  obtain ⟨run, hrun, -, hholds, -, -, -, hcrates⟩ :=
    doForEachCrate_run twoCrates_mapsPointers hmapAll allCrates ⟨false, false⟩ 0 ()
  have hret : (doForEachCrate twoCrates.accounted mapAll allCrates ⟨false, false⟩ ⟨0, ((), [])⟩).map
      ForEachRun.ret = some exitSuccess := by decide
  rw [hrun] at hret
  exact ⟨run, hrun, (hcrates _ twoCrates_attached).trans (by decide), Option.some.inj hret, hholds.closed⟩

end V120.Tool
