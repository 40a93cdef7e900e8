import V120.Irqd.FatalBranches

/-!
# How the daemon process ends

`main` runs `mainloop` until it returns nonzero. `initialize` blocks and handles `SIGTERM` and
`SIGUSR1` and no other signal, so a `SIGPIPE` would end the process. A `write` to a client that has
closed its end raises one on stream sockets, but the sockets of the daemon are of another type, where
it only fails with `EPIPE`. Nothing a client does ends the process then.
-/

namespace V120.Irqd

/-- `SIGUSR1`. -/
def sigusr1 : ℕ := 10

/-- `SIGPIPE`. -/
def sigpipe : ℕ := 13

/-- The signals a process blocks, handles and ignores. -/
structure SignalSetup where
  blocked : List ℕ
  handled : List ℕ
  ignored : List ℕ

/-- The signal set-up at the end of `initialize`. -/
def initializeSignals : SignalSetup :=
  let blockset := [sigterm, sigusr1]
  ⟨blockset, [sigterm, sigusr1], []⟩

/-- A signal whose default action is to terminate does so when nothing is set up for it. -/
def SignalSetup.kills (setup : SignalSetup) (sig : ℕ) : Bool :=
  !(setup.blocked.contains sig || setup.handled.contains sig || setup.ignored.contains sig)

/-- The type of the socket that `v120irqd_server` makes. A socket that is accepted from it is of this
type as well. -/
def serversocketType : SocketType := .sockSeqpacket

/-- A `write` to a client that has closed its end. -/
def Event.brokenPipe : Event → Bool
  | .write _ _ (some errno) => errno.val == epipe
  | _ => false

/-- How the process ends. -/
inductive Ending where
  | sigterm
  | ppollError
  | fatal
  | killed (sig : ℕ)
  deriving DecidableEq

/-- What becomes of the process in one pass of `mainloop`; an ended process leaves its events. -/
inductive PassResult (σ : Type*) where
  | running (w : World σ)
  | serving (w : World σ)
  | ended (ending : Ending) (trace : List Event)

section Process

variable {σ : Type*} (sys : System σ) (setup : SignalSetup)

/-- Whether a `write` to a client that has closed its end kills the process. -/
def diesOfSigpipe : Bool := sys.sigpipe serversocketType && setup.kills sigpipe

/-- The events of a pass as far as the process lives to see them: a `SIGPIPE` is raised inside the
first `write` to a closed client. -/
def survived (es : List Event) : List Event :=
  if diesOfSigpipe sys setup then es.take (es.findIdx Event.brokenPipe + 1) else es

/-- The pass of the loop in `main`. `mainloop` only returns nonzero after `SIGTERM`, or after an error
of `ppoll` that is not `EINTR`. -/
def mainPass (fuel : ℕ) (w : World σ) : PassResult σ :=
  let outcome := (mainloop sys fuel w).2
  let es := outcome.world.trace.drop w.trace.length
  if diesOfSigpipe sys setup && es.any Event.brokenPipe then
    .ended (.killed sigpipe) (w.trace ++ survived sys setup es)
  else
    match outcome with
    | .unfinished w' => .serving w'
    | .exited w' => .ended .fatal w'.trace
    | .done w' =>
      if (mainloop sys fuel w).1 = 0 then .running w'
      else
        match (sys.ppoll w.daemon.pollfds.live w.outside).1 with
        | .failed _ => .ended .ppollError w'.trace
        | _ => .ended .sigterm w'.trace

/-- The runs of `main` from a world: passes one after the other, between which the outside moves on. -/
inductive MainRun : World σ → PassResult σ → Prop where
  | pass (fuel : ℕ) (w : World σ) : MainRun w (mainPass sys setup fuel w)
  | next {fuel : ℕ} {w w₁ : World σ} {result : PassResult σ} (s : σ)
      (hpass : mainPass sys setup fuel w = .running w₁)
      (hrest : MainRun { w₁ with outside := s } result) : MainRun w result

end Process

/-- No `write` went to a closed client. -/
def NoBrokenPipe (es : List Event) : Prop := ∀ e ∈ es, e.brokenPipe = false

/-- The endings that `main` means to have. -/
def Ending.intended (ending : Ending) : Prop := ending = .sigterm ∨ ending = .ppollError

/-- Events one after the other. -/
theorem noBrokenPipe_append {es es' : List Event} :
    NoBrokenPipe (es ++ es') ↔ NoBrokenPipe es ∧ NoBrokenPipe es' := List.forall_mem_append

/-- Some `write` was broken, or none. -/
theorem not_noBrokenPipe_iff {es : List Event} :
    es.any Event.brokenPipe = true ↔ ¬ NoBrokenPipe es := by
  simp [NoBrokenPipe]

section Runs

variable {σ : Type*} {sys : System σ} {setup : SignalSetup}

variable (sys setup) in
/-- The process lives to see the `write` that kills it. -/
theorem survived_broken {es : List Event} (h : es.any Event.brokenPipe = true) :
    ¬ NoBrokenPipe (survived sys setup es) := by
  obtain ⟨e, he, hbroken⟩ := List.any_eq_true.mp h
  intro hclean
  rw [survived] at hclean
  split at hclean
  · have hidx : es.findIdx Event.brokenPipe < es.length := List.findIdx_lt_length.mpr ⟨e, he, hbroken⟩
    have hmem : es[es.findIdx Event.brokenPipe] ∈ es.take (es.findIdx Event.brokenPipe + 1) :=
      List.mem_take_iff_getElem.mpr ⟨_, by omega, rfl⟩
    have hfirst : es[es.findIdx Event.brokenPipe].brokenPipe = true := List.findIdx_getElem
    rw [hclean _ hmem] at hfirst
    exact absurd hfirst (by decide)
  · rw [hclean e he] at hbroken
    exact absurd hbroken (by decide)

/-- A pass over the ready descriptors only appends events. -/
theorem pollPass_trace (fuel left idx nevents : ℕ) {w : World σ} (h : Guarded w.daemon) :
    w.trace <+: (pollPass sys fuel left idx nevents w).world.trace := by
  induction left generalizing idx nevents w with
  | zero => exact List.prefix_rfl
  | succ left ih =>
    rw [pollPass]
    split
    · next hcond =>
      split
      · cases hserved : serviceFd sys fuel idx w with
        | done w₁ =>
          obtain ⟨es, htrace, -⟩ := (serviceFd_spec (Or.inl hserved)).table
          exact List.IsPrefix.trans ⟨es, htrace.symm⟩
            (ih _ _ (h.step (.serviced fuel idx hcond.1 (Or.inl hserved))))
        | exited w₁ => exact absurd hserved ((serviceFd_legal sys h fuel hcond.1).1 w₁)
        | unfinished w₁ =>
          obtain ⟨es, htrace, -⟩ := (serviceFd_spec (Or.inr hserved)).table
          exact ⟨es, htrace.symm⟩
      · exact ih _ _ h
    · exact List.prefix_rfl

variable (sys) in
/-- A pass of `mainloop` only appends events. -/
theorem mainloop_trace (fuel : ℕ) {w : World σ} (h : Guarded w.daemon) :
    w.trace <+: (mainloop sys fuel w).2.world.trace := by
  unfold mainloop
  generalize sys.ppoll w.daemon.pollfds.live w.outside = answer
  obtain ⟨polled, outside⟩ := answer
  cases polled with
  | failed errno => exact List.prefix_rfl
  | signal caught => exact List.prefix_rfl
  | ready revents =>
    exact pollPass_trace fuel _ _ _ (w := ({ w with outside := outside } : World σ).modify
      (·.setPollfds (w.daemon.pollfds.setRevents revents))) ⟨h.table, h.masks, h.server⟩

/-- What one pass can make of the process. -/
inductive PassCases (setup : SignalSetup) (sys : System σ) (w : World σ) : PassResult σ → Prop where
  | running {w' : World σ} {es : List Event} (hrun : DaemonRun sys w w')
      (htrace : w'.trace = w.trace ++ es) (hclean : diesOfSigpipe sys setup = true → NoBrokenPipe es) :
      PassCases setup sys w (.running w')
  | serving (w' : World σ) : PassCases setup sys w (.serving w')
  | killed {es : List Event} (hdies : diesOfSigpipe sys setup = true) (hbroken : ¬ NoBrokenPipe es) :
      PassCases setup sys w (.ended (.killed sigpipe) (w.trace ++ es))
  | left {ending : Ending} {es : List Event} (hintended : ending.intended)
      (hclean : diesOfSigpipe sys setup = true → NoBrokenPipe es) :
      PassCases setup sys w (.ended ending (w.trace ++ es))

variable (sys setup) in
/-- Every pass is one of these: none is fatal. -/
theorem mainPass_cases (fuel : ℕ) {w : World σ} (h : Guarded w.daemon) :
    PassCases setup sys w (mainPass sys setup fuel w) := by
  obtain ⟨es, htrace⟩ := mainloop_trace sys fuel h
  have hdrop : (mainloop sys fuel w).2.world.trace.drop w.trace.length = es := by
    rw [← htrace, List.drop_left]
  rw [mainPass, hdrop]
  by_cases hkilled : (diesOfSigpipe sys setup && es.any Event.brokenPipe) = true
  · rw [if_pos hkilled]
    rw [Bool.and_eq_true] at hkilled
    exact .killed hkilled.1 (survived_broken sys setup hkilled.2)
  · rw [if_neg hkilled]
    have hclean : diesOfSigpipe sys setup = true → NoBrokenPipe es := by
      intro hdies
      by_contra hbroken
      exact hkilled (by rw [hdies, not_noBrokenPipe_iff.mpr hbroken, Bool.and_self])
    cases hmain : (mainloop sys fuel w).2 with
    | unfinished w' => exact .serving w'
    | exited w' => exact absurd hmain (mainloop_not_exited fuel h w')
    | done w' =>
      rw [hmain] at htrace
      dsimp only
      split
      · exact .running (mainloop_run fuel (Prod.ext rfl hmain)) htrace.symm hclean
      · rw [Outcome.world] at htrace
        rw [← htrace]
        split
        · exact .left (Or.inr rfl) hclean
        · exact .left (Or.inl rfl) hclean

/-- A run of `main` ends as intended exactly when no `write` went to a closed client, where one kills
the process; where none does, it always ends as intended. -/
theorem MainRun.intended_iff {w : World σ} {result : PassResult σ} (hrun : MainRun sys setup w result)
    (h : Guarded w.daemon) (hclean : diesOfSigpipe sys setup = true → NoBrokenPipe w.trace)
    {ending : Ending} {trace : List Event} (hended : result = .ended ending trace) :
    ending.intended ↔ (diesOfSigpipe sys setup = true → NoBrokenPipe trace) := by
  induction hrun with
  | pass fuel w =>
    have hpass := mainPass_cases sys setup fuel h
    rw [hended] at hpass
    cases hpass with
    | killed hdies hbroken =>
      refine iff_of_false (fun h => ?_) fun h => hbroken (noBrokenPipe_append.mp (h hdies)).2
      exact h.elim (by simp) (by simp)
    | left hintended hes =>
      exact iff_of_true hintended fun hdies => noBrokenPipe_append.mpr ⟨hclean hdies, hes hdies⟩
  | @next fuel w w₁ result s hpass hrest ih =>
    have hcases := mainPass_cases sys setup fuel h
    rw [hpass] at hcases
    cases hcases with
    | running hdaemon htrace hes =>
      have hguarded : Guarded w₁.daemon := h.run hdaemon
      refine ih hguarded (fun hdies => ?_) hended
      rw [htrace]
      exact noBrokenPipe_append.mpr ⟨hclean hdies, hes hdies⟩

/-- **How the daemon ends.** Whatever clients send and whenever they close, where no `SIGPIPE` is raised
on sockets of the type the daemon uses, and from a start at which the open crates enable nothing but
lines 1 to 7, a run of the process ends by `SIGTERM` or by an error of `ppoll` if it ends. -/
theorem daemon_ends_as_intended {st : Startup} {d : Daemon} (hinit : initializeDaemon st = some d)
    (hmasks : ∀ info ∈ d.v120Info, MaskIn info.irqen vmeLines)
    (hsigpipe : sys.sigpipe .sockSeqpacket = false) (s : σ) {ending : Ending} {trace : List Event}
    (hrun : MainRun sys initializeSignals ⟨d, s, []⟩ (.ended ending trace)) : ending.intended := by
  have hlives : diesOfSigpipe sys initializeSignals = false := by
    rw [diesOfSigpipe, serversocketType, hsigpipe, Bool.false_and]
  have hintended := MainRun.intended_iff (w := ⟨d, s, []⟩) hrun (guarded_start hinit hmasks)
    (fun _ _ he => absurd he List.not_mem_nil) rfl
  apply hintended.mpr
  intro hdies
  rw [hlives] at hdies
  exact absurd hdies (by decide)

end Runs

/-- A daemon without crates, and its server socket. -/
def loneServer : Startup :=
  ⟨fun _ => none, 4, fun _ => .failed, .moved fun _ => ⟨0, 0, 0⟩, true, false⟩

/-- The daemon that has nothing but its server socket. -/
def loneDaemon : Daemon := ⟨⟨[⟨4, pollin, 0⟩], 1⟩, [], [], true⟩

/-- An outside in which a client connects, sends a `REQUEST_IRQ` and closes its end before the answer,
and a `SIGTERM` follows; its state counts the calls of `ppoll`. -/
def goneClient (sigpipe : SocketType → Bool) : System ℕ where
  ppoll _ s := (if s = 3 then .signal sigterm else .ready fun i => if i = min s 1 then 1 else 0, s + 1)
  irqstatus _ s := (0, s)
  iackVector _ _ s := (0, s)
  sockets :=
    ⟨fun _ _ s => (some ⟨epipe, by decide⟩, s),
      fun _ s => (if s = 2 then
        .message ((⟨0⟩ : ResponseBuffer).setMsg .requestIrq |>.setSelector ⟨1, 2, anyVector, 0⟩)
        else .ended, s),
      fun s => (⟨0⟩, s)⟩
  accept _ s := (5, s)
  reallocTable s := (.moved fun _ => TableT.zero, s)
  reallocPollfds s := (.moved fun _ => ⟨0, 0, 0⟩, s)
  beyond _ _ := ⟨0, 0, 0⟩
  sigpipe := sigpipe
  pid := 1

/-- The worlds of the daemon after one pass of its loop with a client that goes away, after two, and so
on. -/
def gonePasses (sigpipe : SocketType → Bool) : ℕ → World ℕ
  | 0 => ⟨loneDaemon, 0, []⟩
  | n + 1 => (mainloop (goneClient sigpipe) 0 (gonePasses sigpipe n)).2.world

/-- Where a broken pipe is signalled on stream sockets, the daemon fails to answer the client that has
closed, finds that it hung up, and ends by the `SIGTERM`. -/
theorem daemon_ends_as_intended_gone :
    ∃ trace, MainRun (goneClient sigpipeOnStreams) initializeSignals ⟨loneDaemon, 0, []⟩
        (.ended .sigterm trace) ∧
      trace.countP Event.brokenPipe = 1 ∧ .close 5 ∈ trace ∧ Ending.sigterm.intended := by
  have hpass₁ : mainPass (goneClient sigpipeOnStreams) initializeSignals 0 (gonePasses sigpipeOnStreams 0) =
      .running (gonePasses sigpipeOnStreams 1) := rfl
  have hpass₂ : mainPass (goneClient sigpipeOnStreams) initializeSignals 0 (gonePasses sigpipeOnStreams 1) =
      .running (gonePasses sigpipeOnStreams 2) := rfl
  have hpass₃ : mainPass (goneClient sigpipeOnStreams) initializeSignals 0 (gonePasses sigpipeOnStreams 2) =
      .running (gonePasses sigpipeOnStreams 3) := rfl
  have hlast : MainRun (goneClient sigpipeOnStreams) initializeSignals (gonePasses sigpipeOnStreams 3)
      (.ended .sigterm (gonePasses sigpipeOnStreams 3).trace) := .pass 0 _
  have hrun : MainRun (goneClient sigpipeOnStreams) initializeSignals (gonePasses sigpipeOnStreams 0)
      (.ended .sigterm (gonePasses sigpipeOnStreams 3).trace) :=
    .next _ hpass₁ (.next _ hpass₂ (.next _ hpass₃ hlast))
  have hinit : initializeDaemon loneServer = some loneDaemon := rfl
  refine ⟨_, hrun, by decide +kernel, ?_, ?_⟩
  · exact List.mem_iff_getElem?.mpr ⟨9, rfl⟩
  · exact daemon_ends_as_intended hinit (by decide) rfl 0 hrun

/-- A crate that starts with bit 0 of its enable register set, and the same bit is all its status
register reads. -/
def strayLine : System Unit :=
  { System.silent with
    ppoll := fun _ s => (.ready fun i => if i = 0 then 1 else 0, s)
    irqstatus := fun _ s => (1, s) }

/-- Where a broken pipe is signalled on the sockets of the daemon as well, the client that closes before
it reads the answer to its request kills the daemon. A crate that starts with a line enabled that is
none ends it without a client. -/
theorem daemon_ends_otherwise :
    (initializeDaemon loneServer = some loneDaemon ∧
      (∃ trace, MainRun (goneClient fun _ => true) initializeSignals ⟨loneDaemon, 0, []⟩
        (.ended (.killed sigpipe) trace)) ∧ ¬ (Ending.killed sigpipe).intended) ∧
    ∃ (st : Startup) (d : Daemon), initializeDaemon st = some d ∧
      (∃ trace, MainRun strayLine initializeSignals ⟨d, (), []⟩ (.ended .fatal trace)) ∧
        ¬ Ending.fatal.intended := by
  constructor
  · have hfirst : mainPass (goneClient fun _ => true) initializeSignals 0 ⟨loneDaemon, 0, []⟩ =
        .running (gonePasses (fun _ => true) 1) := rfl
    refine ⟨rfl, ⟨_, .next 1 hfirst (.pass 0 _)⟩, ?_⟩
    rintro (h | h) <;> exact absurd h (by decide)
  · let st : Startup := ⟨fun crate => if crate = 0 then some (5, 1) else none, 4,
      fun _ => .moved fun _ => ⟨0, 0, 0⟩, .moved fun _ => ⟨0, 0, 0⟩, false, false⟩
    refine ⟨st, ⟨⟨[⟨5, pollin, 0⟩, ⟨4, pollin, 0⟩], 2⟩, [⟨0, 1⟩], [], false⟩, rfl,
      ⟨_, .pass 1 _⟩, ?_⟩
    rintro (h | h) <;> exact absurd h (by decide)

end V120.Irqd
