import V120.Irqd.Messages
import V120.Irqd.PollList
import V120.Irqd.VectorTable

/-!
# The daemon of `v120irqd.c`

The handlers of the polling loop as functions on a world: the daemon's globals, the state of
everything outside the process, and the events so far in order. The outside answers every
system call and every register read in whatever way it likes; nothing is assumed of it here.
Logging is not modelled. `process_vme` re-enters its search for as long as the hardware asks
for it, so it runs on fuel and says when the fuel is spent.
-/

namespace V120.Irqd

/-- An open crate of `v120_info`: its number and its interrupt-enable register. -/
structure V120Info where
  cratenumber : Fin 16
  irqen : BitVec 32
  deriving DecidableEq, Repr

/-- The globals of `v120irqd.c` and the vector table. -/
structure Daemon where
  pollfds : PollList
  v120Info : List V120Info
  vectorTable : VectorTable
  allowFakeIrq : Bool

/-- `len_crates`: `v120_info[n]` belongs to `list_pollfds[n]` below it. -/
def Daemon.lenCrates (d : Daemon) : ℕ := d.v120Info.length

/-- Read `irqhndl->irqen` of a crate. -/
def Daemon.irqen (d : Daemon) (idx : ℕ) : BitVec 32 := (d.v120Info[idx]?.map V120Info.irqen).getD 0

/-- Write `irqhndl->irqen` of a crate. -/
def Daemon.setIrqen (d : Daemon) (idx : ℕ) (value : BitVec 32) : Daemon :=
  { d with v120Info := d.v120Info.modify idx fun info => { info with irqen := value } }

/-- A written enable register reads back. -/
theorem Daemon.irqen_setIrqen {d : Daemon} {idx : ℕ} (hidx : idx < d.v120Info.length)
    (value : BitVec 32) : (d.setIrqen idx value).irqen idx = value := by
  simp [Daemon.irqen, Daemon.setIrqen, hidx]

/-- Writing back what an enable register holds changes nothing. -/
theorem Daemon.setIrqen_irqen (d : Daemon) (idx : ℕ) : d.setIrqen idx (d.irqen idx) = d := by
  have hinfo : d.v120Info.modify idx (fun info => { info with irqen := d.irqen idx }) =
      d.v120Info := by
    apply List.ext_getElem?
    intro j
    rw [List.getElem?_modify]
    by_cases hj : idx = j
    · subst hj
      cases hget : d.v120Info[idx]? <;> simp [Daemon.irqen, hget]
    · simp [hj]
  rw [Daemon.setIrqen, hinfo]

/-- Only the last value written to an enable register counts. -/
theorem Daemon.setIrqen_setIrqen (d : Daemon) (idx : ℕ) (first last : BitVec 32) :
    (d.setIrqen idx first).setIrqen idx last = d.setIrqen idx last := by
  simp only [Daemon.setIrqen, List.modify_modify_eq]
  rfl

/-- Writing an enable register keeps the crates. -/
theorem crates_setIrqen (d : Daemon) (idx : ℕ) (value : BitVec 32) :
    (d.setIrqen idx value).v120Info.map V120Info.cratenumber =
      d.v120Info.map V120Info.cratenumber := by
  apply List.ext_getElem?
  intro j
  rw [Daemon.setIrqen, List.getElem?_map, List.getElem?_map, List.getElem?_modify]
  by_cases hj : idx = j
  · simp [hj, Function.comp_def]
  · simp [hj]

/-- Replace the vector table. -/
def Daemon.setTable (d : Daemon) (table : VectorTable) : Daemon := { d with vectorTable := table }

/-- Replace the poll list. -/
def Daemon.setPollfds (d : Daemon) (pollfds : PollList) : Daemon := { d with pollfds := pollfds }

/-- `enable_interrupts`. The test joins the two masks by `&&`, as the source does. -/
def enableInterrupts (st : V120irqdSelector) (d : Daemon) : Daemon :=
  { d with v120Info := d.v120Info.map fun info =>
      if st.crate ≠ 0 && ((1 : BitVec 32) <<< info.cratenumber.val) ≠ 0 then
        { info with irqen := info.irqen ||| st.irq.setWidth 32 }
      else info }

/-- `disable_unused_interrupts`. -/
def disableUnusedInterrupts (d : Daemon) : Daemon :=
  let irqs := listRegisteredInterrupts d.vectorTable
  { d with v120Info := d.v120Info.map fun info =>
      { info with irqen := (irqs info.cratenumber).setWidth 32 } }

/-- What `initialize` finds: the crates that open with the endpoint descriptor and the present
enable register of each, the server socket, the answers of `realloc`, and the options. -/
structure Startup where
  endpoint : Fin 16 → Option (ℤ × BitVec 32)
  serversocket : ℤ
  reallocEndpoint : Fin 16 → PollRealloc
  reallocServer : PollRealloc
  noVme : Bool
  fakeok : Bool

/-- The loop body of `configureVmeEndpoints` for one crate, or `none` when the process exits. -/
def configureVmeEndpoint (st : Startup) (d : Daemon) (crate : Fin 16) : Option Daemon :=
  match st.endpoint crate with
  | none => some d
  | some (fd, irqen) =>
    match appendFd (st.reallocEndpoint crate) fd pollin d.pollfds with
    | (none, _) => none
    | (some _, l) => some { d.setPollfds l with v120Info := d.v120Info ++ [⟨crate, irqen⟩] }

/-- `configureVmeEndpoints`, or `none` when the process exits. -/
def configureVmeEndpoints (st : Startup) (d : Daemon) : Option Daemon :=
  if d.lenCrates ≠ 0 ∨ d.pollfds.len ≠ 0 then none
  else (List.finRange 16).foldlM (configureVmeEndpoint st) d

/-- `configureServerSocket`, or `none` when the process exits. -/
def configureServerSocket (st : Startup) (d : Daemon) : Option Daemon :=
  if d.lenCrates ≠ d.pollfds.len then none
  else if st.serversocket < 0 then none
  else
    match appendFd st.reallocServer st.serversocket pollin d.pollfds with
    | (none, _) => none
    | (some _, l) => some (d.setPollfds l)

/-- `initialize` as far as the descriptors go; `--novme` implies `--fakeok`. -/
def initializeDaemon (st : Startup) : Option Daemon :=
  let d : Daemon := ⟨PollList.empty, [], [], st.fakeok || st.noVme⟩
  (if st.noVme then some d else configureVmeEndpoints st d).bind (configureServerSocket st)

/-- What `ppoll` returns: a caught signal is the error `EINTR`, and `failed` is any other error. -/
inductive PpollResult where
  | ready (revents : ℕ → BitVec 16)
  | signal (caught : ℕ)
  | failed (errno : Errno)

/-- The types of sockets with connections. -/
inductive SocketType where
  | sockStream
  | sockSeqpacket
  deriving DecidableEq

/-- Everything outside the process: each call is answered in the outside's own state. `sigpipe` says on
which sockets a `write` that fails with `EPIPE` raises `SIGPIPE` as well. -/
structure System (σ : Type*) where
  ppoll : List Pollfd → σ → PpollResult × σ
  irqstatus : ℕ → σ → BitVec 32 × σ
  iackVector : ℕ → ℕ → σ → BitVec 32 × σ
  sockets : Sockets σ
  accept : ℤ → σ → ℤ × σ
  reallocTable : σ → Realloc × σ
  reallocPollfds : σ → PollRealloc × σ
  beyond : σ → ℕ → Pollfd
  sigpipe : SocketType → Bool
  pid : BitVec 32

/-- Broken pipes are signalled on stream sockets only. -/
def sigpipeOnStreams (type : SocketType) : Bool := type == .sockStream

/-- An outside where nothing happens: registers read 0, reads end, and memory is granted. -/
def System.silent {σ : Type*} : System σ where
  ppoll _ s := (.ready fun _ => 0, s)
  irqstatus _ s := (0, s)
  iackVector _ _ s := (0, s)
  sockets := ⟨fun _ _ s => (none, s), fun _ s => (.ended, s), fun s => (⟨0⟩, s)⟩
  accept _ s := (3, s)
  reallocTable s := (.moved fun _ => TableT.zero, s)
  reallocPollfds s := (.moved fun _ => ⟨0, 0, 0⟩, s)
  beyond _ _ := ⟨0, 0, 0⟩
  sigpipe := sigpipeOnStreams
  pid := 1

/-- What the daemon does that can be seen from outside it, and its calls into the table. -/
inductive Event where
  | processVme (fd : ℤ)
  | processNewclient (fd : ℤ)
  | processClient (fd : ℤ)
  | irqstatus (idx : ℕ) (value : BitVec 32)
  | iackVector (idx irq : ℕ) (vector : BitVec 32)
  | lookup (request : V120irqdSelector)
  | write (sock : ℤ) (buf : ResponseBuffer) (result : Option Errno)
  | read (sock : ℤ) (received : Received)
  | accept (fd : ℤ)
  | close (fd : ℤ)
  | register (sd : ℤ) (request : V120irqdSelector) (ret : ℤ)
  | release (sd : ℤ) (request : V120irqdSelector) (ret : ℤ)
  | releaseAll (sd : ℤ)

/-- The daemon, the outside, and the events so far. -/
structure World (σ : Type*) where
  daemon : Daemon
  outside : σ
  trace : List Event

/-- How a handler ends: it returns, the process exits, or the fuel is spent. -/
inductive Outcome (σ : Type*) where
  | done (w : World σ)
  | exited (w : World σ)
  | unfinished (w : World σ)

/-- Continue after a handler that returned. -/
def Outcome.bind {σ : Type*} (o : Outcome σ) (f : World σ → Outcome σ) : Outcome σ :=
  match o with
  | .done w => f w
  | .exited w => .exited w
  | .unfinished w => .unfinished w

section Handlers

variable {σ : Type*} (sys : System σ)

namespace World

/-- Append one event. -/
def log (w : World σ) (e : Event) : World σ := { w with trace := w.trace ++ [e] }

/-- Read `irqhndl->irqstatus` of a crate. -/
def irqstatus (w : World σ) (idx : ℕ) : BitVec 32 × World σ :=
  let (value, outside) := sys.irqstatus idx w.outside
  (value, { w with outside := outside, trace := w.trace ++ [.irqstatus idx value] })

/-- Read `irqhndl->iack_vector[irq]` of a crate, which runs an acknowledge cycle. -/
def iackVector (w : World σ) (idx irq : ℕ) : BitVec 32 × World σ :=
  let (vector, outside) := sys.iackVector idx irq w.outside
  (vector, { w with outside := outside, trace := w.trace ++ [.iackVector idx irq vector] })

/-- The daemon's sockets: the outside answers, and the trace records it. -/
def sockets : Sockets (World σ) where
  write sock buf w :=
    let (result, outside) := sys.sockets.write sock buf w.outside
    (result, { w with outside := outside, trace := w.trace ++ [.write sock buf result] })
  read sock w :=
    let (received, outside) := sys.sockets.read sock w.outside
    (received, { w with outside := outside, trace := w.trace ++ [.read sock received] })
  stale w :=
    let (buf, outside) := sys.sockets.stale w.outside
    (buf, { w with outside := outside })

/-- Change the daemon's globals and the registers it writes. -/
def modify (w : World σ) (f : Daemon → Daemon) : World σ := { w with daemon := f w.daemon }

/-- `list_pollfds[idx]`, past the block when the index is. -/
def pollfd (w : World σ) (idx : ℕ) : Pollfd :=
  w.daemon.pollfds.block.getD idx (sys.beyond w.outside idx)

end World

/-- `notify_irq`: 0, or a negative error code. -/
def notifyIrq (sel : V120irqdSelector) (w : World σ) : ℤ × World σ :=
  let w := w.log (.lookup sel)
  match findInterrupt sel w.daemon.vectorTable with
  | .error errno => (-errno, w)
  | .ok (sock, sel) => v120irqdInterrupt (World.sockets sys) sock sel w

/-- The locals of `process_vme` that live across `goto irqsearch`. -/
structure VmeLocals where
  irqen : BitVec 32
  selector : V120irqdSelector

/-- Where one pass from `irqsearch` leads. -/
inductive VmeNext (σ : Type*) where
  | irqsearch (locals : VmeLocals) (w : World σ)
  | returned (w : World σ)
  | fatal (w : World σ)

/-- The line loop `for (irq = 7; irq >= 1; irq--)`: the first line whose bit is set. -/
def highestLine (irqstatus : BitVec 32) : Option ℕ :=
  [7, 6, 5, 4, 3, 2, 1].find? fun irq => irqstatus &&& ((1 : BitVec 32) <<< irq) != 0

/-- The selector of one interrupt; the payload is whatever the local held before. -/
def concrete (cratenumber : Fin 16) (irq : ℕ) (vector payload : BitVec 32) : V120irqdSelector :=
  ⟨(1 : BitVec 16) <<< cratenumber.val, (1 : BitVec 16) <<< irq, vector, payload⟩

/-- `process_vme` from the label `irqsearch` to the next `goto`, `return` or `exit`.

The cases of the `switch` on a failed notification only differ in what they log: all of them
end at the test of the line. -/
def irqsearch (idx : ℕ) (cratenumber : Fin 16) (locals : VmeLocals) (w : World σ) : VmeNext σ :=
  let (status, w) := w.irqstatus sys idx
  let irqstatus := status &&& locals.irqen
  if irqstatus = 0 then .returned w
  else
    match highestLine irqstatus with
    | none => .fatal w
    | some irq =>
      let (vector, w) := w.iackVector sys idx irq
      let selector := concrete cratenumber irq vector locals.selector.payload
      let locals := { locals with selector := findInterruptRequest selector w.daemon.vectorTable }
      let (err, w) := notifyIrq sys selector w
      if err = 0 then .irqsearch locals w
      else
        let (status, w) := w.irqstatus sys idx
        if status &&& ((1 : BitVec 32) <<< irq) = 0 then .irqsearch locals w
        else
          let irqen := locals.irqen &&& ~~~((1 : BitVec 32) <<< irq)
          .irqsearch { locals with irqen := irqen } (w.modify (·.setIrqen idx irqen))

/-- Follow the `goto`s of `process_vme`, at most `fuel` times. -/
def irqsearchLoop (idx : ℕ) (cratenumber : Fin 16) : ℕ → VmeLocals → World σ → Outcome σ
  | 0, _, w => .unfinished w
  | fuel + 1, locals, w =>
    match irqsearch sys idx cratenumber locals w with
    | .irqsearch locals w => irqsearchLoop idx cratenumber fuel locals w
    | .returned w => .done w
    | .fatal w => .exited w

/-- `process_vme`. -/
def processVme (fuel idx : ℕ) (w : World σ) : Outcome σ :=
  let w := w.log (.processVme (w.pollfd sys idx).fd)
  match w.daemon.v120Info[idx]? with
  | none => .exited w
  | some info =>
    let (_, w) := (World.sockets sys).read (w.pollfd sys idx).fd w
    let (uninitialised, w) := (World.sockets sys).stale w
    irqsearchLoop sys idx info.cratenumber fuel ⟨w.daemon.irqen idx, uninitialised.selector⟩ w

/-- `configureClientSocket`: nonzero when the list could not grow, `none` when the process exits. -/
def configureClientSocket (fd : ℤ) (w : World σ) : Option (ℤ × World σ) :=
  if w.daemon.pollfds.len ≤ w.daemon.lenCrates then none
  else
    let (realloc, outside) := sys.reallocPollfds w.outside
    let w := { w with outside := outside }
    match appendFd realloc fd pollin w.daemon.pollfds with
    | (none, l) => some (1, w.modify (·.setPollfds l))
    | (some _, l) => some (0, w.modify (·.setPollfds l))

/-- `process_newclient` once a client was accepted: it is closed again when it finds no room. -/
def processAccepted (client : ℤ) (w : World σ) : Outcome σ :=
  match configureClientSocket sys client w with
  | none => .exited w
  | some (ret, w) => if ret ≠ 0 then .done (w.log (.close client)) else .done w

/-- `process_newclient`. -/
def processNewclient (w : World σ) : Outcome σ :=
  let server := (w.pollfd sys w.daemon.lenCrates).fd
  let w := w.log (.processNewclient server)
  let (client, outside) := sys.accept server w.outside
  let w := { w with outside := outside }
  if client < 0 then .done w else processAccepted sys client (w.log (.accept client))

/-- `build_status_report`. -/
def buildStatusReport (d : Daemon) : ServerStatus where
  pid := sys.pid
  crates := d.v120Info.foldl (fun crates info => crates ||| ((1 : BitVec 32) <<< info.cratenumber.val)) 0
  clients := .ofNat 32 (countClients d.lenCrates d.pollfds)
  irqRequests := .ofNat 32 (countRegisteredInterrupts d.vectorTable)

/-- `process_client` when the peer has hung up. -/
def disconnectClient (idx : ℕ) (sock : ℤ) (w : World σ) : Outcome σ :=
  match removeFd (sys.beyond w.outside) w.daemon.lenCrates idx w.daemon.pollfds with
  | none => .exited w
  | some l =>
    let w := w.modify (·.setPollfds l)
    let (_, table) := releaseAllInterrupts sock w.daemon.vectorTable
    let w := (w.modify (·.setTable table)).log (.releaseAll sock)
    .done ((w.modify disableUnusedInterrupts).log (.close sock))

/-- The `REQUEST_IRQ` case of `process_client`. -/
def clientRequest (sock : ℤ) (sel : V120irqdSelector) (w : World σ) : World σ :=
  let (realloc, outside) := sys.reallocTable w.outside
  let (e, table) := registerInterrupt realloc sock sel w.daemon.vectorTable
  let w := ({ w with outside := outside }.modify (·.setTable table)).log (.register sock sel e)
  if e < 0 then (v120irqdNak (World.sockets sys) sock w).2
  else
    let (e, w) := v120irqdAck (World.sockets sys) sock w
    if e < 0 then w else w.modify (enableInterrupts sel)

/-- The `RELEASE_IRQ` case of `process_client`. -/
def clientRelease (sock : ℤ) (sel : V120irqdSelector) (w : World σ) : World σ :=
  let (e, table) := releaseInterrupt sock sel w.daemon.vectorTable
  let w := (w.modify (·.setTable table)).log (.release sock sel e)
  let w :=
    if e < 0 then (v120irqdNak (World.sockets sys) sock w).2
    else (v120irqdAck (World.sockets sys) sock w).2
  w.modify disableUnusedInterrupts

/-- The `IRQ_SIGNAL` case of `process_client`: a request to fake an interrupt. -/
def clientFakeIrq (sock : ℤ) (sel : V120irqdSelector) (w : World σ) : World σ :=
  if w.daemon.allowFakeIrq then
    let (e, w) := v120irqdAck (World.sockets sys) sock w
    if e ≠ 0 then w else (notifyIrq sys sel w).2
  else (v120irqdNak (World.sockets sys) sock w).2

/-- The `switch` of `process_client`. -/
def clientMessage (sock : ℤ) (buffer : ResponseBuffer) (w : World σ) : World σ :=
  match buffer.msg with
  | .requestIrq => clientRequest sys sock buffer.selector w
  | .releaseIrq => clientRelease sys sock buffer.selector w
  | .irqSignal => clientFakeIrq sys sock buffer.selector w
  | .serverStatus =>
    (v120irqdMsgSend (World.sockets sys) sock (buffer.setStatus (buildStatusReport sys w.daemon)) w).2
  | _ => w

/-- `process_client`. -/
def processClient (idx : ℕ) (w : World σ) : Outcome σ :=
  let sock := (w.pollfd sys idx).fd
  let w := w.log (.processClient sock)
  let (uninitialised, w) := (World.sockets sys).stale w
  let (len, buffer, w) := v120IrqdMsgRecv (World.sockets sys) sock uninitialised w
  if len < 0 then .done w
  else if len = 0 then disconnectClient sys idx sock w
  else .done (clientMessage sys sock buffer w)

/-- The handler `mainloop` picks for an index. -/
def serviceFd (fuel idx : ℕ) (w : World σ) : Outcome σ :=
  if idx < w.daemon.lenCrates then processVme sys fuel idx w
  else if idx = w.daemon.lenCrates then processNewclient sys w
  else processClient sys idx w

/-- The loop `for (idx = 0; idx<len_pollfds && nevents; idx++)` of `mainloop`. -/
def pollPass (fuel : ℕ) : ℕ → ℕ → ℕ → World σ → Outcome σ
  | 0, _, _, w => .unfinished w
  | left + 1, idx, nevents, w =>
    if idx < w.daemon.pollfds.len ∧ nevents ≠ 0 then
      if (w.pollfd sys idx).revents ≠ 0 then
        (serviceFd sys fuel idx w).bind fun w => pollPass fuel left (idx + 1) (nevents - 1) w
      else pollPass fuel left (idx + 1) nevents w
    else .done w

/-- What `ppoll` writes back into the cells it was given. -/
def PollList.setRevents (l : PollList) (revents : ℕ → BitVec 16) : PollList :=
  { l with block := l.block.mapIdx fun i p => if i < l.len then { p with revents := revents i } else p }

/-- The number of cells with a nonzero `revents`, which `ppoll` returns. -/
def PollList.nevents (l : PollList) : ℕ := l.live.countP fun p => p.revents != 0

/-- `SIGTERM`. -/
def sigterm : ℕ := 15

/-- `mainloop`: nonzero to leave the main loop. Accepting a client lengthens the list once, so the
loop over it takes at most two steps more than there are cells at the start. -/
def mainloop (fuel : ℕ) (w : World σ) : ℤ × Outcome σ :=
  let (polled, outside) := sys.ppoll w.daemon.pollfds.live w.outside
  let w := { w with outside := outside }
  match polled with
  | .failed _ => (1, .done w)
  | .signal caught => (if caught = sigterm then 1 else 0, .done w)
  | .ready revents =>
    let l := w.daemon.pollfds.setRevents revents
    (0, pollPass sys fuel (l.len + 2) 0 l.nevents (w.modify (·.setPollfds l)))

end Handlers

end V120.Irqd
