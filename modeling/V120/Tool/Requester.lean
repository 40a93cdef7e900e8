import V120.Common.Numerals
import V120.Tool.ForEachCrate

/-!
# The bus requester

`v120 requester` reports on the bus requester of the crates or sets it. In both cases it writes the slot register,
so a report without `--slot0` takes the arbiter away that it has just reported. The registers of a crate hold what
was written to them.
-/

namespace V120.Tool

open V120.Common V120.Vme

/-- The configuration registers `requester` and `slot`. -/
structure RequesterRegs where
  requester : BitVec 32
  slot : BitVec 32

/-- The registers of all crates, by their numbers. -/
abbrev Rack := ℤ → RequesterRegs

/-- Where the registers are found outside of the process. -/
structure RackAccess (σ : Type*) where
  get : σ → Rack
  set : Rack → σ → σ
  get_set : ∀ rack s, get (set rack s) = rack

/-- `struct req_args_t`. -/
structure ReqArgs where
  bus : ℤ
  fair : Bool
  slot0 : Bool
  deriving DecidableEq

/-- `REQ_FAIR`. -/
def reqFair : BitVec 32 := 1 <<< 4

/-- `REQ_BUS`. -/
def reqBus (n : BitVec 32) : BitVec 32 := n &&& 3

/-- What a query prints. -/
def reportLine (regs : RequesterRegs) : List Octet :=
  octets ['B', 'R'] ++ decimal (reqBus regs.requester).toNat ++
    (if regs.requester &&& reqFair ≠ 0 then octets [' ', 'F', 'A', 'I', 'R'] else []) ++
    (if regs.slot ≠ 0 then octets [' ', 'A', 'R', 'B'] else []) ++ [0x0a]

namespace ReqArgs

/-- What is printed for a crate. -/
def output (args : ReqArgs) (regs : RequesterRegs) : List Octet := if args.bus < 0 then reportLine regs else []

/-- What is written to the registers of a crate. -/
def apply (args : ReqArgs) (regs : RequesterRegs) : RequesterRegs where
  requester :=
    if args.bus < 0 then regs.requester
    else
      let req := reqBus (BitVec.ofInt 32 args.bus)
      if args.fair then req ||| reqFair else req
  slot := if args.slot0 then 0xFFFFFFFF else 0

end ReqArgs

section Commands

variable {σ : Type*}

/-- `requester`, on a crate. -/
def requester (access : RackAccess σ) (args : ReqArgs) (w : Vme.World σ) : CrateResult σ :=
  let rack := access.get w.outside
  let crateno := w.handle.crateno
  ⟨exitSuccess, args.output (rack crateno),
    { w with outside := access.set (Function.update rack crateno (args.apply (rack crateno))) w.outside }⟩

/-- Why the command is refused: "bus number not specified" and "invalid bus number". -/
inductive RequesterError where
  | busNotSpecified
  | invalidBus
  deriving DecidableEq

/-- The arguments of the command, from what is behind its name. The number of the bus is an `unsigned int`. -/
def parseReqArgs (fair slot0 : Bool) (argv : List (List Octet)) (errno : ℤ) : Except RequesterError ReqArgs :=
  match argv with
  | [] => if fair then .error .busNotSpecified else .ok ⟨-1, fair, slot0⟩
  | arg :: _ =>
    let v := strtoul arg
    let bus := v.value.setWidth 32
    if bus > 3 ∨ strtoulErrno v errno ≠ 0 ∨ v.endptr = 0 then .error .invalidBus
    else .ok ⟨bus.toInt, fair, slot0⟩

/-- `v120_requester`. -/
def v120Requester (os : Os σ) (access : RackAccess σ) (crate : ℤ) (fair slot0 : Bool) (argv : List (List Octet))
    (u : Unopened σ) : Except RequesterError (Option (ForEachRun σ)) :=
  match parseReqArgs fair slot0 argv u.errno with
  | .error error => .error error
  | .ok args => .ok (doForEachCrate os (requester access args) crate ⟨!decide (args.bus < 0), false⟩ u)

end Commands

section Runs

variable {σ : Type*} {os : Os σ} {access : RackAccess σ}

/-- The registers of crates behind calls on some of them. -/
def Rack.served (rack : Rack) (args : ReqArgs) (crates : List ℤ) : Rack := fun c =>
  if c ∈ crates then args.apply (rack c) else rack c

/-- No crate was called. -/
theorem Rack.served_nil (rack : Rack) (args : ReqArgs) : rack.served args [] = rack := by
  funext c
  exact if_neg List.not_mem_nil

/-- A crate was called before the others. -/
theorem Rack.served_cons (rack : Rack) (args : ReqArgs) {crate : ℤ} {crates : List ℤ} (hnew : crate ∉ crates) :
    Rack.served (Function.update rack crate (args.apply (rack crate))) args crates =
      rack.served args (crate :: crates) := by
  funext c
  unfold Rack.served
  by_cases hc : c = crate
  · subst hc
    rw [if_neg hnew, if_pos List.mem_cons_self, Function.update_self]
  · rw [Function.update_of_ne hc]
    by_cases hmem : c ∈ crates
    · rw [if_pos hmem, if_pos (List.mem_cons_of_mem _ hmem)]
    · rw [if_neg hmem, if_neg fun h => (List.mem_cons.mp h).elim hc hmem]

/-- The calls on different crates write the registers of these crates and print what they held. -/
theorem Chained.requester {access : RackAccess σ} {args : ReqArgs} {rack rack' : Rack} {calls : List (CrateCall σ)}
    (h : Chained access.get rack calls rack') (hresult : ∀ call ∈ calls, call.result = requester access args call.world)
    (hnodup : (calls.map CrateCall.crateno).Nodup) :
    rack' = rack.served args (calls.map CrateCall.crateno) ∧
      calls.map (CrateResult.stdout ∘ CrateCall.result) =
        (calls.map CrateCall.crateno).map fun c => args.output (rack c) := by
  induction h with
  | nil rack => exact ⟨(rack.served_nil args).symm, rfl⟩
  | @call call calls rack' h ih =>
    obtain ⟨hcall, hcalls⟩ := List.forall_mem_cons.mp hresult
    obtain ⟨hnew, hrest⟩ := List.nodup_cons.mp hnodup
    obtain ⟨hrack, hstdout⟩ := ih hcalls hrest
    have hwritten : access.get call.result.left.outside =
        Function.update (access.get call.world.outside) call.crateno
          (args.apply (access.get call.world.outside call.crateno)) := by
      rw [hcall]
      exact access.get_set _ _
    rw [hwritten] at hrack hstdout
    refine ⟨hrack.trans (Rack.served_cons _ args hnew), ?_⟩
    rw [List.map_cons, List.map_cons, List.map_cons, hstdout, Function.comp_apply, hcall]
    congr 1
    apply List.map_congr_left
    intro c hc
    have hother : c ≠ call.crateno := fun hsame => hnew (hsame ▸ hc)
    rw [Function.update_of_ne hother]

/-- A command that was not refused. -/
structure RequesterCommand where
  crate : ℤ
  args : ReqArgs
  deriving DecidableEq

/-- A report does not ask for terse output. -/
def RequesterCommand.interm (cmd : RequesterCommand) : Bool := !decide (cmd.args.bus < 0)

/-- The crates that a command is for. -/
def RequesterCommand.crates (cmd : RequesterCommand) (attached : ℤ → Bool) : List ℤ :=
  wantedCrates cmd.crate false attached

/-- No crate is wanted twice. -/
theorem nodup_wantedCrates (crate : ℤ) (notAll : Bool) (attached : ℤ → Bool) :
    (wantedCrates crate notAll attached).Nodup := by
  have hall : ((List.range 16).map fun n => (n : ℤ)).Nodup := by decide
  unfold wantedCrates
  dsimp only
  split_ifs
  · exact .nil
  · exact hall.filter _
  · exact (hall.filter _).sublist (List.take_sublist _ _)
  · exact (List.nodup_singleton crate).filter _
  · exact .nil

/-- A command on the crates that are attached. -/
theorem requester_run (hpointers : os.MapsPointers) (hview : os.KeepsView access.get) {attached : ℤ → Bool}
    (hattached : Attached os attached) (cmd : RequesterCommand) (u : Unopened σ) :
    ∃ run, doForEachCrate os (requester access cmd.args) cmd.crate ⟨cmd.interm, false⟩ u = some run ∧
      access.get run.left.outside = (access.get u.outside).served cmd.args (cmd.crates attached) ∧
      run.stdout = cratesOutput cmd.interm
        ((cmd.crates attached).map fun c => cmd.args.output (access.get u.outside c)) ∧
      run.ret = if cmd.crates attached = [] then exitFailure else exitSuccess := by
  obtain ⟨run, hrun, hinorder, hstdout, hret, -, hcrates⟩ :=
    doForEachCrate_crates (requester access cmd.args) hpointers (fun _ => rfl) cmd.crate ⟨cmd.interm, false⟩ u
  have hwanted : run.calls.map CrateCall.crateno = cmd.crates attached := hcrates attached hattached
  obtain ⟨hrack, houtputs⟩ := (doForEachCrate_chained hview hrun).requester hinorder.result
    (hwanted ▸ nodup_wantedCrates _ _ _)
  refine ⟨run, hrun, hwanted ▸ hrack, ?_, ?_⟩
  · rw [hstdout, houtputs, hwanted]
  · rw [hret, ← hwanted, lastRet]
    cases hlast : run.calls.getLast? with
    | none =>
      rw [List.getLast?_eq_none_iff.mp hlast]
      rfl
    | some call =>
      have hmem := List.mem_of_getLast? hlast
      have hsome : run.calls.map CrateCall.crateno ≠ [] := by
        rw [Ne, List.map_eq_nil_iff]
        exact List.ne_nil_of_mem hmem
      rw [if_neg hsome, Option.map_some, Option.getD_some, hinorder.result call hmem]
      rfl

end Runs

/-- A command line, behind the name of the command and with its options. -/
structure RequesterLine where
  crate : ℤ
  fair : Bool
  slot0 : Bool
  argv : List (List Octet)

/-- The command, unless it is refused. Each process starts with a clean `errno`. -/
def RequesterLine.accepted (line : RequesterLine) : Option RequesterCommand :=
  match parseReqArgs line.fair line.slot0 line.argv 0 with
  | .error _ => none
  | .ok args => some ⟨line.crate, args⟩

/-- What a command prints when the registers are so. -/
def RequesterCommand.printed (cmd : RequesterCommand) (attached : ℤ → Bool) (rack : Rack) : List Octet :=
  cratesOutput cmd.interm ((cmd.crates attached).map fun c => cmd.args.output (rack c))

/-- The registers behind some commands. -/
def Rack.after (attached : ℤ → Bool) (cmds : List RequesterCommand) (rack : Rack) : Rack :=
  cmds.foldl (fun rack cmd => rack.served cmd.args (cmd.crates attached)) rack

section Lines

variable {σ : Type*} {os : Os σ} {access : RackAccess σ}

variable (os access) in
/-- One process after another: what they print and what they leave. -/
def runRequester : List RequesterLine → σ → Option (List (List Octet) × σ)
  | [], s => some ([], s)
  | line :: lines, s =>
    match v120Requester os access line.crate line.fair line.slot0 line.argv ⟨0, s⟩ with
    | .error _ => (runRequester lines s).map fun rest => ([] :: rest.1, rest.2)
    | .ok none => none
    | .ok (some run) => (runRequester lines run.left.outside).map fun rest => (run.stdout :: rest.1, rest.2)

/-- The processes come to their ends, print what the registers are before them, and leave what the commands make
of them. -/
theorem runRequester_eq (hpointers : os.MapsPointers) (hview : os.KeepsView access.get) {attached : ℤ → Bool}
    (hattached : Attached os attached) (lines : List RequesterLine) (s : σ) :
    ∃ outputs s', runRequester os access lines s = some (outputs, s') ∧
      access.get s' = (access.get s).after attached (lines.filterMap RequesterLine.accepted) ∧
      ∀ before line later, lines = before ++ line :: later → outputs[before.length]? =
        some ((line.accepted.map fun cmd => cmd.printed attached
          ((access.get s).after attached (before.filterMap RequesterLine.accepted))).getD []) := by
  induction lines generalizing s with
  | nil => exact ⟨[], s, rfl, rfl, fun before line later h => absurd h (List.append_ne_nil_of_right_ne_nil _
      (List.cons_ne_nil _ _)).symm⟩
  | cons line lines ih =>
    cases hparsed : parseReqArgs line.fair line.slot0 line.argv 0 with
    | error error =>
      have hnone : line.accepted = none := by
        rw [RequesterLine.accepted, hparsed]
      have hrefused : v120Requester os access line.crate line.fair line.slot0 line.argv ⟨0, s⟩ = .error error := by
        rw [v120Requester, hparsed]
      obtain ⟨outputs, s', hrun, hrack, hprinted⟩ := ih s
      refine ⟨[] :: outputs, s', ?_, ?_, fun before line' later hsplit => ?_⟩
      · rw [runRequester, hrefused]
        exact congrArg (Option.map _) hrun
      · rw [List.filterMap_cons_none hnone]
        exact hrack
      · cases before with
        | nil =>
          obtain ⟨rfl, -⟩ := List.cons.inj hsplit
          rw [hnone]
          rfl
        | cons first before =>
          obtain ⟨rfl, hrest⟩ := List.cons.inj hsplit
          rw [List.filterMap_cons_none hnone]
          exact hprinted before line' later hrest
    | ok args =>
      have hsome : line.accepted = some ⟨line.crate, args⟩ := by
        rw [RequesterLine.accepted, hparsed]
      obtain ⟨run, hrun, hserved, hstdout, -⟩ :=
        requester_run hpointers hview hattached ⟨line.crate, args⟩ ⟨0, s⟩
      have hprocess : v120Requester os access line.crate line.fair line.slot0 line.argv ⟨0, s⟩ = .ok (some run) := by
        rw [v120Requester, hparsed]
        exact congrArg Except.ok hrun
      obtain ⟨outputs, s', hrest, hrack, hprinted⟩ := ih run.left.outside
      rw [hserved] at hrack hprinted
      refine ⟨run.stdout :: outputs, s', ?_, ?_, fun before line' later hsplit => ?_⟩
      · rw [runRequester, hprocess]
        exact congrArg (Option.map _) hrest
      · rw [List.filterMap_cons_some hsome]
        exact hrack
      · cases before with
        | nil =>
          obtain ⟨rfl, -⟩ := List.cons.inj hsplit
          rw [hsome]
          exact congrArg some hstdout
        | cons first before =>
          obtain ⟨rfl, hrest⟩ := List.cons.inj hsplit
          rw [List.filterMap_cons_some hsome]
          exact hprinted before line' later hrest

/-- The line on a requester with this bus. -/
def requesterLine (bus : ℕ) (fair arbiter : Bool) : List Octet :=
  octets ['B', 'R'] ++ decimal bus ++ (if fair then octets [' ', 'F', 'A', 'I', 'R'] else []) ++
    (if arbiter then octets [' ', 'A', 'R', 'B'] else []) ++ [0x0a]

/-- What the slot register holds behind a command. -/
def slotValue (slot0 : Bool) : BitVec 32 := if slot0 then 0xFFFFFFFF else 0

/-- What is printed when a bus was set. -/
theorem reportLine_set {bus : ℕ} (hbus : bus ≤ 3) (fair slot0 arbiter : Bool) (regs : RequesterRegs) :
    reportLine ⟨((⟨bus, fair, slot0⟩ : ReqArgs).apply regs).requester, slotValue arbiter⟩ =
      requesterLine bus fair arbiter := by
  have hnumber : ∀ bus ≤ 3, ∀ fair : Bool,
      (reqBus (if fair then reqBus (BitVec.ofInt 32 (bus : ℕ)) ||| reqFair else reqBus (BitVec.ofInt 32 bus))).toNat =
        bus ∧
      ((if fair then reqBus (BitVec.ofInt 32 bus) ||| reqFair else reqBus (BitVec.ofInt 32 bus)) &&& reqFair ≠ 0 ↔
        fair = true) := by
    decide
  have hslot : slotValue arbiter ≠ 0 ↔ arbiter = true := by
    revert arbiter
    decide
  obtain ⟨hreq, hfair⟩ := hnumber bus hbus fair
  rw [reportLine, ReqArgs.apply, if_neg (Int.not_lt.mpr (Int.natCast_nonneg bus))]
  dsimp only
  rw [hreq, requesterLine]
  simp only [hfair, hslot]

/-- The commands that are for a crate. -/
def commandsFor (attached : ℤ → Bool) (cmds : List RequesterCommand) (c : ℤ) : List RequesterCommand :=
  cmds.filter fun cmd => decide (c ∈ cmd.crates attached)

/-- A command that is for the crate, before the others. -/
theorem commandsFor_cons {attached : ℤ → Bool} {cmd : RequesterCommand} {c : ℤ} (hc : c ∈ cmd.crates attached)
    (cmds : List RequesterCommand) : commandsFor attached (cmd :: cmds) c = cmd :: commandsFor attached cmds c := by
  apply List.filter_cons_of_pos
  exact decide_eq_true hc

/-- A command behind the others. -/
theorem commandsFor_concat (attached : ℤ → Bool) (cmds : List RequesterCommand) (cmd : RequesterCommand) (c : ℤ) :
    commandsFor attached (cmds ++ [cmd]) c =
      commandsFor attached cmds c ++ if c ∈ cmd.crates attached then [cmd] else [] := by
  rw [commandsFor, List.filter_append, commandsFor]
  congr 1
  by_cases hc : c ∈ cmd.crates attached
  · rw [if_pos hc]
    exact List.filter_cons_of_pos (decide_eq_true hc)
  · rw [if_neg hc]
    apply List.filter_cons_of_neg
    exact fun h => hc (of_decide_eq_true h)

/-- Some commands and then others. -/
theorem Rack.after_append (attached : ℤ → Bool) (cmds cmds' : List RequesterCommand) (rack : Rack) :
    rack.after attached (cmds ++ cmds') = (rack.after attached cmds).after attached cmds' :=
  List.foldl_append

/-- Queries write the slot register and nothing else. -/
theorem Rack.after_queries {attached : ℤ → Bool} {queries : List RequesterCommand}
    (hqueries : ∀ cmd ∈ queries, cmd.args.bus < 0) (rack : Rack) (c : ℤ) :
    rack.after attached queries c =
      ⟨(rack c).requester, ((commandsFor attached queries c).getLast?.map fun cmd => slotValue cmd.args.slot0).getD
        (rack c).slot⟩ := by
  induction queries using List.reverseRecOn with
  | nil => rfl
  | append_singleton queries cmd ih =>
    rw [List.forall_mem_append] at hqueries
    have hbus := hqueries.2 cmd List.mem_cons_self
    rw [Rack.after_append, commandsFor_concat]
    change (rack.after attached queries).served cmd.args (cmd.crates attached) c = _
    rw [Rack.served, ih hqueries.1]
    by_cases hc : c ∈ cmd.crates attached
    · rw [if_pos hc, if_pos hc, List.getLast?_concat, ReqArgs.apply, if_pos hbus]
      rfl
    · rw [if_neg hc, if_neg hc, List.append_nil]

/-- The arbiter, as the last command for a crate left it. -/
def arbiterOf (attached : ℤ → Bool) (cmds : List RequesterCommand) (c : ℤ) : Bool :=
  ((commandsFor attached cmds c).getLast?.map fun cmd => cmd.args.slot0).getD false

/-- What a report prints for a crate whose bus was set. -/
theorem reportLine_after {attached : ℤ → Bool} (set : RequesterCommand) {bus : ℕ} (hset : set.args.bus = bus)
    (hbus : bus ≤ 3) {queries : List RequesterCommand} (hqueries : ∀ cmd ∈ queries, cmd.args.bus < 0)
    (earlier : List RequesterCommand) (rack : Rack) {c : ℤ} (hc : c ∈ set.crates attached) :
    reportLine (rack.after attached (earlier ++ set :: queries) c) =
      requesterLine bus set.args.fair (arbiterOf attached (set :: queries) c) := by
  have hargs : set.args = ⟨bus, set.args.fair, set.args.slot0⟩ := by rw [← hset]
  rw [Rack.after_append]
  change reportLine (Rack.after attached queries
    ((rack.after attached earlier).served set.args (set.crates attached)) c) = _
  rw [Rack.after_queries hqueries, Rack.served, if_pos hc]
  have hslot : ((commandsFor attached queries c).getLast?.map fun cmd => slotValue cmd.args.slot0).getD
      (set.args.apply (rack.after attached earlier c)).slot = slotValue (arbiterOf attached (set :: queries) c) := by
    rw [arbiterOf, commandsFor_cons hc, List.getLast?_cons]
    cases (commandsFor attached queries c).getLast? with
    | none => rfl
    | some last => rfl
  rw [hslot, hargs]
  exact reportLine_set hbus _ _ _ _

/-- A command that sets a bus was given the number of one. -/
theorem parseReqArgs_bus {fair slot0 : Bool} {argv : List (List Octet)} {errno : ℤ} {args : ReqArgs}
    (hargs : parseReqArgs fair slot0 argv errno = .ok args) :
    args = ⟨-1, false, slot0⟩ ∧ argv = [] ∨
      ∃ bus : ℕ, bus ≤ 3 ∧ args = ⟨bus, fair, slot0⟩ ∧ ∃ arg more, argv = arg :: more ∧
        (strtoul arg).value.toNat % 2 ^ 32 = bus := by
  cases argv with
  | nil =>
    cases fair with
    | true => cases hargs
    | false =>
      left
      exact ⟨(Except.ok.inj hargs).symm, rfl⟩
  | cons arg more =>
    right
    rw [parseReqArgs] at hargs
    split_ifs at hargs with hrefused
    obtain rfl := Except.ok.inj hargs
    have hbus : (strtoul arg).value.toNat % 2 ^ 32 ≤ 3 := by
      have hle := Nat.le_of_not_lt fun hless => hrefused (Or.inl (BitVec.lt_def.mpr hless))
      rwa [BitVec.toNat_setWidth] at hle
    refine ⟨_, hbus, ?_, arg, more, rfl, rfl⟩
    rw [BitVec.toInt_eq_toNat_of_lt (by rw [BitVec.toNat_setWidth]; omega), BitVec.toNat_setWidth]

/-- A command line without the number of a bus is a query. -/
theorem accepted_query {line : RequesterLine} (hquery : line.argv = [] ∧ line.fair = false) :
    line.accepted = some ⟨line.crate, ⟨-1, false, line.slot0⟩⟩ := by
  rw [RequesterLine.accepted, hquery.1, hquery.2]
  rfl

/-- A command line that sets a bus. -/
theorem accepted_set {line : RequesterLine} {cmd : RequesterCommand} (h : line.accepted = some cmd)
    (hset : 0 ≤ cmd.args.bus) : ∃ bus : ℕ, bus ≤ 3 ∧ cmd = ⟨line.crate, ⟨bus, line.fair, line.slot0⟩⟩ := by
  cases hparsed : parseReqArgs line.fair line.slot0 line.argv 0 with
  | error error =>
    rw [RequesterLine.accepted, hparsed] at h
    exact absurd h (Option.some_ne_none cmd).symm
  | ok args =>
    rw [RequesterLine.accepted, hparsed] at h
    obtain rfl := Option.some.inj h
    cases parseReqArgs_bus hparsed with
    | inl hquery =>
      obtain ⟨rfl, -⟩ := hquery
      exact absurd hset (show ¬(0 : ℤ) ≤ -1 by decide)
    | inr hbus =>
      obtain ⟨bus, hbus, rfl, -⟩ := hbus
      exact ⟨bus, hbus, rfl⟩

/-- **A report says what was set last, and takes the arbiter away.** Whatever commands are given one after the other,
and whichever crates they are for, all of them come to their ends. When a bus was set for a crate, and only reports
were asked for since, the next report on the crate says this bus and whether it is fair, and it says that there is
an arbiter exactly when the last command for the crate had the option for it, be it one that set the bus or one
that only reported on it. -/
theorem requester_lines (hpointers : os.MapsPointers) (hview : os.KeepsView access.get) {attached : ℤ → Bool}
    (hattached : Attached os attached) (lines : List RequesterLine) (s : σ) :
    ∃ outputs s', runRequester os access lines s = some (outputs, s') ∧
      ∀ earlier set queries report later cmd, lines = earlier ++ set :: queries ++ report :: later →
        set.accepted = some cmd → 0 ≤ cmd.args.bus →
        (∀ line ∈ report :: queries, line.argv = [] ∧ line.fair = false) →
        ∃ shown : ℤ → List Octet,
          outputs[(earlier ++ set :: queries).length]? =
            some (cratesOutput false ((wantedCrates report.crate false attached).map shown)) ∧
          ∀ c ∈ wantedCrates set.crate false attached, shown c =
            requesterLine cmd.args.bus.toNat set.fair
              (arbiterOf attached ((set :: queries).filterMap RequesterLine.accepted) c) := by
  obtain ⟨outputs, s', hrun, -, hprinted⟩ := runRequester_eq hpointers hview hattached lines s
  refine ⟨outputs, s', hrun, fun earlier set queries report later cmd hsplit haccepted hset hqueries => ?_⟩
  obtain ⟨hreport, hqueries⟩ := List.forall_mem_cons.mp hqueries
  obtain ⟨bus, hbus, rfl⟩ := accepted_set haccepted hset
  have hprinted := hprinted (earlier ++ set :: queries) report later hsplit
  rw [accepted_query hreport] at hprinted
  refine ⟨_, hprinted, fun c hc => ?_⟩
  have hnegative : ∀ cmd ∈ queries.filterMap RequesterLine.accepted, cmd.args.bus < 0 := by
    intro cmd hcmd
    obtain ⟨line, hline, hsome⟩ := List.mem_filterMap.mp hcmd
    rw [accepted_query (hqueries line hline)] at hsome
    obtain rfl := Option.some.inj hsome
    exact show (-1 : ℤ) < 0 by decide
  rw [List.filterMap_append, List.filterMap_cons_some haccepted, Int.toNat_natCast]
  exact reportLine_after ⟨set.crate, ⟨bus, set.fair, set.slot0⟩⟩ rfl hbus hnegative _ _ hc

end Lines

/-- A crate, number 0, and its registers outside of the process. -/
def oneCrate : Os Rack where
  openDevice _ crateno s := if crateno = 0 then (.ok 7, s) else (.error ⟨enoent, enoent_pos⟩, s)
  mmap _ _ _ s := (.ok 0x1000, s)
  malloc s := (true, s)
  munmap _ _ s := s
  close _ s := s
  controlMap _ _ _ := 0

/-- The registers are all that is outside. -/
def wholeRack : RackAccess Rack := ⟨id, fun rack _ => rack, fun _ _ => rfl⟩

/-- Pointers can be told from errors. -/
theorem oneCrate_mapsPointers : oneCrate.MapsPointers := by
  intro size fd offset s ptr hptr
  obtain rfl := Except.ok.inj hptr
  decide

/-- The crate can be opened at any time. -/
theorem oneCrate_attached : Attached oneCrate fun n => decide (n = 0) := by
  intro n s
  rw [Os.opens, oneCrate]
  dsimp only
  split_ifs with hn
  · exact (decide_eq_true hn).symm
  · exact (decide_eq_false hn).symm

/-- The system leaves the registers alone. -/
theorem oneCrate_keepsView : oneCrate.KeepsView wholeRack.get where
  openDevice device crateno s := by
    rw [oneCrate]
    dsimp only
    split_ifs
    · rfl
    · rfl
  mmap _ _ _ _ := rfl
  malloc _ := rfl
  munmap _ _ _ := rfl
  close _ _ := rfl

/-- Bus 2 is set with an arbiter; the first report says so, and takes it away, as the second one says. -/
theorem requester_lines_oneCrate :
    ∃ outputs s', runRequester oneCrate wholeRack
        [⟨-1, true, true, [[0x32]]⟩, ⟨allCrates, false, false, []⟩, ⟨0, false, true, []⟩] (fun _ => ⟨0, 0⟩) =
        some (outputs, s') ∧
      outputs[1]? = some (requesterLine 2 true true) ∧ outputs[2]? = some (requesterLine 2 true false) := by
  obtain ⟨outputs, s', hrun, hreports⟩ := requester_lines oneCrate_mapsPointers oneCrate_keepsView oneCrate_attached
    [⟨-1, true, true, [[0x32]]⟩, ⟨allCrates, false, false, []⟩, ⟨0, false, true, []⟩] (fun _ => ⟨0, 0⟩)
  obtain ⟨shown, hshown, hline⟩ := hreports [] ⟨-1, true, true, [[0x32]]⟩ [] ⟨allCrates, false, false, []⟩
    [⟨0, false, true, []⟩] ⟨-1, ⟨2, true, true⟩⟩ rfl (by decide) (by decide) (by decide)
  obtain ⟨shown', hshown', hline'⟩ := hreports [] ⟨-1, true, true, [[0x32]]⟩ [⟨allCrates, false, false, []⟩]
    ⟨0, false, true, []⟩ [] ⟨-1, ⟨2, true, true⟩⟩ rfl (by decide) (by decide) (by decide)
  have hall : wantedCrates allCrates false (fun n => decide (n = 0)) = [0] := by decide
  have hnumber : wantedCrates 0 false (fun n => decide (n = 0)) = [0] := by decide
  rw [hall] at hshown
  rw [hnumber] at hshown'
  refine ⟨outputs, s', hrun, hshown.trans (congrArg some ?_), hshown'.trans (congrArg some ?_)⟩
  · exact (List.append_nil _).trans (hline 0 (by decide))
  · exact (List.append_nil _).trans (hline' 0 (by decide))

end V120.Tool
