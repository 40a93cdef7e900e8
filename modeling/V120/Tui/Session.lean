import V120.Common.Ledger
import V120.Tui.BufferList
import V120.Tui.Cards
import V120.Tui.ScriptInvariants

/-!
# The program behind the keyboard

Keys and the words of scripts are looked up in tables, first in that of the whole program and then in that of
the current buffer. The functions they lead to move between buffers, add and kill them, move in a browser and
write its registers. A browser has private data of its own, and its buffer is in the list. When the program
ends it takes the list apart from its head.

The state has no next one when freed memory is followed, a register before its region is written, a name is
looked up that has no bucket, or what is typed runs over the buffer of the minibuffer.
-/

namespace V120.Tui

open V120.Common V120.Vme

/-- The functions of `input.c` that have a key or a word, but `load-file`. -/
inductive InpFn where
  | inpdn
  | inpup
  | inpright
  | inpleft
  | inppgup
  | inppgdn
  | inpcommand
  | inphome
  | inpnext
  | inptoggle
  | inpquit
  | inpaddvme
  | inpadddummy
  | inpkill
  deriving DecidableEq

/-- The functions of `browser.c` that have a key or a word. -/
inductive BrFn where
  | brapp
  | brditto
  | brzero
  | brgoto
  | brgotoname
  | brwrite
  | brchmod
  | braddrnm
  | brrefreshoff
  | brchrefresh
  | brwrite2name
  deriving DecidableEq

/-- The code of a character. -/
def keyOf (c : Char) : ℤ := c.toNat

/-- `TO_CTRL`. -/
def toCtrl (c : Char) : ℤ := c.toNat % 32

/-- `KEY_DOWN`. -/
def keyDown : ℤ := 258
/-- `KEY_UP`. -/
def keyUp : ℤ := 259
/-- `KEY_LEFT`. -/
def keyLeft : ℤ := 260
/-- `KEY_RIGHT`. -/
def keyRight : ℤ := 261
/-- `KEY_NPAGE`. -/
def keyNpage : ℤ := 338
/-- `KEY_PPAGE`. -/
def keyPpage : ℤ := 339

/-- `inpklu`. -/
def inpklu : List (ℤ × InpFn) :=
  [(keyOf 'j', .inpdn), (keyOf 'J', .inpdn), (keyDown, .inpdn),
    (keyOf 'k', .inpup), (keyOf 'K', .inpup), (keyUp, .inpup),
    (keyOf 'l', .inpright), (keyOf 'L', .inpright), (keyRight, .inpright),
    (keyOf 'h', .inpleft), (keyOf 'H', .inpleft), (keyLeft, .inpleft),
    (toCtrl 'B', .inppgup), (keyPpage, .inppgup), (toCtrl 'F', .inppgdn), (keyNpage, .inppgdn),
    (keyOf ':', .inpcommand), (keyOf '0', .inphome), (keyOf 'N', .inpnext), (keyOf 'n', .inpnext),
    (keyOf 'b', .inptoggle), (keyOf 'B', .inptoggle)]

/-- `brklu`. -/
def brklu : List (ℤ × BrFn) :=
  [(keyOf 'd', .brditto), (keyOf 'D', .brditto), (keyOf 'g', .brgoto), (keyOf 'G', .brgotoname),
    (keyOf '/', .brgoto), (keyOf 'z', .brzero), (keyOf 'Z', .brzero), (keyOf 'w', .brwrite),
    (keyOf 'W', .brwrite), (keyOf 'c', .brchmod), (keyOf 'C', .brchmod)]

/-- The key of `buklu`, which is for `bugoto`. -/
def bukluKey : ℤ := keyOf '\n'

/-- `inpslu` without `load-file`. -/
def inpslu : List (List Octet × InpFn) :=
  [(octets ['h', 'o', 'm', 'e'], .inphome), (octets ['q', 'u', 'i', 't'], .inpquit), (octets ['q'], .inpquit),
    (octets ['Q'], .inpquit), (octets ['n', 'e', 'x', 't', '-', 'b', 'u', 'f', 'f', 'e', 'r'], .inpnext),
    (octets ['t', 'o', 'g', 'g', 'l', 'e', '-', 'b', 'u', 'f', 'f', 'e', 'r'], .inptoggle),
    (octets ['a', 'd', 'd', '-', 'v', 'm', 'e'], .inpaddvme),
    (octets ['a', 'd', 'd', '-', 'd', 'u', 'm', 'm', 'y'], .inpadddummy),
    (octets ['k', 'i', 'l', 'l'], .inpkill)]

/-- `brslu`. -/
def brslu : List (List Octet × BrFn) :=
  [(octets ['a', 'p', 'p'], .brapp), (octets ['d', 'i', 't', 't', 'o'], .brditto),
    (octets ['z', 'e', 'r', 'o'], .brzero), (octets ['g', 'o', 't', 'o'], .brgoto),
    (octets ['g', 'o', 't', 'o', '-', 'n', 'a', 'm', 'e'], .brgotoname),
    (octets ['w', 'r', 'i', 't', 'e'], .brwrite), (octets ['c', 'h', 'm', 'o', 'd'], .brchmod),
    (octets ['a', 'd', 'd', '-', 'r', 'n', 'm'], .braddrnm),
    (octets ['r', 'e', 'f', 'r', 'e', 's', 'h', '-', 'o', 'f', 'f'], .brrefreshoff),
    (octets ['r', 'e', 'f', 'r', 'e', 's', 'h', '-', 'o', 'n'], .brchrefresh),
    (octets ['w', 'r', 'i', 't', 'e', '-', 'r', 'e', 'g'], .brwrite2name)]

/-- What belongs to a buffer and is kept account of, by the address of the buffer: the buffer itself, the
private data of a browser, and the memory of a dummy card. The name of the buffer, the `VMEREGION` of a card,
the lines of the minibuffer and the register names are left out. -/
inductive Block where
  | buffer (p : Ptr)
  | browser (p : Ptr)
  | base (p : Ptr)
  deriving DecidableEq

/-- The buffers, the private data of those that are browsers, what was allocated and freed for them, whether
the program has ended, and everything else. -/
structure Session (σ : Type*) where
  bufs : Buffers
  cards : Ptr → Option Card
  log : List (LedgerEvent Block)
  exited : Bool
  outside : σ

/-- What the user, the system and the rest of the program answer: a string or a number in the minibuffer, an
RNM file, the memory of a card that is mapped, and memory for a buffer that is not in use yet. There is no
answer in the minibuffer when what is typed runs over its buffer, which a wide terminal has room for. The
`free` of a string that `malloc` did not hand out is undefined. -/
structure Console (σ : Type*) where
  mbgets : σ → Option (Option (List Octet) × σ)
  mbgetval : σ → Option (Option (BitVec 32) × σ)
  rnmparse : List Octet → σ → Option RnmT × σ
  mapVme : BitVec 32 → BitVec 32 → σ → Option (ℕ → Octet) × σ
  newBuffer : Finset Ptr → σ → Option Ptr × σ
  freeStatic : σ → Option σ
  uninitialised : Browser
  fresh : ∀ used outside p, (newBuffer used outside).1 = some p → p ∉ used

/-- Where the arguments of a command are: they are asked for, or they are in a line of a script. -/
inductive Source where
  | keyboard
  | script (tok : TokenBuf)

namespace Source

variable {σ : Type*} (console : Console σ)

/-- The next argument as a string. -/
def string (s : Session σ) : Source → Option (Option (List Octet) × Source × Session σ)
  | .keyboard =>
    (console.mbgets s.outside).map fun (answer, outside) =>
      (answer, .keyboard, { s with outside := outside })
  | .script tok =>
    let (arg, tok) := tok.tokenNext
    some (arg.map Prod.snd, .script tok, s)

/-- The next argument as a number, which a script has as a text. -/
def value (number : List Octet → BitVec 32) (s : Session σ) :
    Source → Option (Option (BitVec 32) × Source × Session σ)
  | .keyboard =>
    (console.mbgetval s.outside).map fun (answer, outside) =>
      (answer, .keyboard, { s with outside := outside })
  | .script tok =>
    let (arg, tok) := tok.tokenNext
    some (arg.map fun arg => number arg.2, .script tok, s)

end Source

/-- `strtol` as an `int`. -/
def intArg (text : List Octet) : BitVec 32 := (strtol text).setWidth 32

/-- `strtoul` as an `int`. -/
def addressArg (text : List Octet) : BitVec 32 := (strtoul text).value.setWidth 32

namespace Session

variable {σ : Type*} (console : Console σ)

/-- Other buffers. -/
def withBufs (s : Session σ) (bufs : Buffers) : Session σ := { s with bufs := bufs }

/-- Another state of everything else. -/
def withOutside (s : Session σ) (outside : σ) : Session σ := { s with outside := outside }

/-- The private data of a browser changes. -/
def put (s : Session σ) (p : Ptr) (card : Card) : Session σ :=
  { s with cards := Function.update s.cards p (some card) }

/-- What belongs to a browser, in the order in which it is allocated and freed. Only a dummy card has memory of
its own. -/
def blocksOf (p : Ptr) (crateid : ℤ) : List Block :=
  (if crateid < 0 then [.base p] else []) ++ [.browser p, .buffer p]

/-- `brquit`. -/
def brquit (p : Ptr) (s : Session σ) : Option (Session σ) :=
  (s.cards p).bind fun card => (s.bufs.bufferkill p).map fun bufs =>
    { s with
      bufs := bufs
      cards := Function.update s.cards p none
      log := s.log ++ (blocksOf p card.crateid).map .release }

/-- `brkill`. -/
def brkill (p : Ptr) (s : Session σ) : Option (Session σ) :=
  (s.cards p).bind fun card =>
    if (card.buf.br.region.vmeAddr.setWidth 32).toInt < 0 then some s else s.brquit p

/-- `buquit`. -/
def buquit (p : Ptr) (s : Session σ) : Option (Session σ) :=
  (s.bufs.bufferkill p).map fun bufs => { s with bufs := bufs, log := s.log ++ [Block.buffer p].map .release }

/-- `m_quit` of a buffer. -/
def mQuit (p : Ptr) (s : Session σ) : Option (Session σ) :=
  (s.bufs.modeAt p).bind fun mode =>
    match mode with
    | .bumode => s.buquit p
    | .brmode _ => s.brquit p

/-- The loop of `bufferclean`: no more turns than there are buffers. -/
def bufferclean : ℕ → Option Ptr → Session σ → Option (Session σ)
  | _, none, s => some (s.withBufs { s.bufs with gHeadbuf := none, gLastbuf := none, gBuffer := none })
  | 0, some _, _ => none
  | turns + 1, some p, s =>
    (s.bufs.next p).bind fun q => (s.mQuit p).bind fun s => bufferclean turns q s

/-- `quit`, as far as the buffers go. -/
def quit (s : Session σ) : Option (Session σ) :=
  (bufferclean s.bufs.heap.keys.card s.bufs.gHeadbuf s).map fun s => { s with exited := true }

/-- `bukill`. -/
def bukill (pbuf : Ptr) (s : Session σ) : Option (Session σ) :=
  (s.bufs.pos2buf s.bufs.cpos).bind fun p =>
    if p = s.bufs.gHeadbuf then some s
    else p.bind fun p => (s.bufs.modeAt p).bind fun mode =>
      match mode with
      | .bumode => some s
      | .brmode _ => if p = pbuf then some s else s.brkill p

/-- `inpkill`. -/
def inpkill (s : Session σ) : Option (Session σ) :=
  s.bufs.gBuffer.bind fun pbuf => (s.bufs.modeAt pbuf).bind fun mode =>
    match mode with
    | .bumode => s.bukill pbuf
    | .brmode _ => s.brkill pbuf

/-- `browsernew`: whether there is a new browser, which is the head of the list then. -/
def browsernew (region : VmeRegion) (metadata : Option RnmT) (crateid : ℤ) (regs : ℕ → Octet) (s : Session σ) :
    Option (Bool × Session σ) :=
  match console.newBuffer s.bufs.heap.keys s.outside with
  | (none, outside) => some (false, s.withOutside outside)
  | (some p, outside) =>
    (s.bufs.buffernew (.brmode region.vmeAddr) (some p)).map fun bufs => (true, { s with
      bufs := bufs
      cards := Function.update s.cards p
        (some (.ofRegion s.bufs.ttnrows console.uninitialised region metadata crateid regs))
      log := s.log ++ (blocksOf p crateid).map .acquire
      outside := outside })

/-- A new browser changes places with the buffer list. -/
def shuffled : Bool × Session σ → Option (Session σ)
  | (false, s) => some s
  | (true, s) => s.bufs.buffershuffle.map s.withBufs

/-- The region of `add_vme`, whose address is an `int`. -/
def vmeRegion (vmeaddr : BitVec 32) : VmeRegion := ⟨0, 0, 0, vmeaddr.signExtend 64, 65536, 0⟩

/-- The region of `add_dummy`. -/
def dummyRegion : VmeRegion := ⟨0, 0, 0, 0, 32768, 0⟩

/-- `add_vme`. -/
def addVme (crateid vmeaddr : BitVec 32) (rnmfile : Option (List Octet)) (s : Session σ) : Option (Session σ) :=
  match console.mapVme crateid vmeaddr s.outside with
  | (none, outside) => some (s.withOutside outside)
  | (some regs, outside) =>
    let (rnm, outside) := match rnmfile with
      | none => (none, outside)
      | some filename => console.rnmparse filename outside
    ((s.withOutside outside).browsernew console (vmeRegion vmeaddr) rnm 1 regs).bind shuffled

/-- `add_dummy`, once the memory of the dummy is there. -/
def addDummy (s : Session σ) : Option (Session σ) :=
  (s.browsernew console dummyRegion none (-1) fun _ => 0).bind shuffled

/-- The last argument of `add-vme`: at the keyboard there is no new card without an answer, and an empty answer
stands for no file; in a script the name may be missing. -/
def rnmArg (s : Session σ) : Source → Option (Option (Option (List Octet)) × Source × Session σ)
  | .keyboard =>
    (Source.keyboard.string console s).map fun (answer, src, s) =>
      (answer.map fun name => if name = [] then none else some name, src, s)
  | .script tok =>
    ((Source.script tok).string console s).map fun (answer, src, s) => (some answer, src, s)

/-- `inpaddvme`. -/
def inpaddvme (src : Source) (s : Session σ) : Option (Source × Session σ) :=
  (src.value console intArg s).bind fun (crateid, src, s) =>
    match crateid with
    | none => some (src, s)
    | some crateid =>
      (src.value console addressArg s).bind fun (vmeaddr, src, s) =>
        match vmeaddr with
        | none => some (src, s)
        | some vmeaddr =>
          (s.rnmArg console src).bind fun (rnmfile, src, s) =>
            match rnmfile with
            | none => some (src, s)
            | some rnmfile =>
              if crateid.toInt < 0 ∨ 15 < crateid.toInt then some (src, s)
              else (s.addVme console crateid vmeaddr rnmfile).map fun s => (src, s)

/-- `V120_RNM`, in the directory for data. -/
def v120Rnm (rcdatadir : List Octet) : List Octet :=
  rcdatadir ++ octets ['/', 'V', '1', '2', '0', '.', 'R', 'N', 'M']

/-- The region of `ctrlnew`. -/
def ctrlRegion (configLen : BitVec 64) : VmeRegion := ⟨0, 0, 0, -1, configLen, 0⟩

/-- `ctrlnew` for a crate with its configuration registers. -/
def ctrlnew (rcdatadir : List Octet) (configLen : BitVec 64) (s : Session σ) (crate : Fin 16 × (ℕ → Octet)) :
    Option (Session σ) :=
  let (rnm, outside) := console.rnmparse (v120Rnm rcdatadir) s.outside
  ((s.withOutside outside).browsernew console (ctrlRegion configLen) rnm crate.1 crate.2).map Prod.snd

/-- `bufferlist_start`. -/
def bufferlistStart (s : Session σ) : Option (Session σ) :=
  match console.newBuffer s.bufs.heap.keys s.outside with
  | (none, outside) => (s.bufs.bufferlistStart none).map (s.withOutside outside).withBufs
  | (some p, outside) => (s.bufs.bufferlistStart (some p)).map fun bufs =>
      { s with bufs := bufs, log := s.log ++ [Block.buffer p].map .acquire, outside := outside }

/-- `main` up to the first `buffergoto`, with the crates that are there. The program ends when there is no
buffer at all. -/
def start (rcdatadir : List Octet) (configLen : BitVec 64) (crates : List (Fin 16 × (ℕ → Octet))) (ttnrows : ℤ)
    (outside : σ) : Option (Session σ) :=
  (crates.foldlM (ctrlnew console rcdatadir configLen)
    ⟨⟨∅, none, none, none, 0, ttnrows⟩, fun _ => none, [], false, outside⟩).bind fun s =>
      (s.bufferlistStart console).bind fun s => (s.bufs.buffergoto s.bufs.gBuffer).map s.withBufs

/-- The cursor moves in the buffer list, or in a browser. -/
def cursor (method : Buffers → Option Buffers) (key : BrowserKey) (s : Session σ) : Option (Session σ) :=
  s.bufs.gBuffer.bind fun p => (s.bufs.modeAt p).bind fun mode =>
    match mode with
    | .bumode => (method s.bufs).map s.withBufs
    | .brmode _ => (s.cards p).map fun card => s.put p (card.pressKey s.bufs.ttnrows key)

/-- A function of `input.c`, but `inpcommand`. A script cannot end the program. -/
def inpFn (fn : InpFn) (src : Source) (s : Session σ) : Option (Source × Session σ) :=
  let onOwn (next : Option (Session σ)) := next.map fun s => (src, s)
  match fn with
  | .inpdn => onOwn (s.cursor Buffers.budn .brdn)
  | .inpup => onOwn (s.cursor (fun bufs => some bufs.buup) .brup)
  | .inpright => onOwn (s.cursor (fun bufs => some bufs.buright) .brright)
  | .inpleft => onOwn (s.cursor (fun bufs => some bufs.buleft) .brleft)
  | .inppgup => onOwn (s.cursor (fun bufs => some bufs.bupgup) .brpgup)
  | .inppgdn => onOwn (s.cursor Buffers.bupgdn .brpgdn)
  | .inpcommand => onOwn (some s)
  | .inphome => onOwn ((s.bufs.buffergoto s.bufs.gHeadbuf).map s.withBufs)
  | .inpnext => onOwn (s.bufs.buffernext.map s.withBufs)
  | .inptoggle => onOwn (s.bufs.bufferback.map s.withBufs)
  | .inpquit =>
    match src with
    | .keyboard => onOwn s.quit
    | .script _ => onOwn (some s)
  | .inpaddvme => s.inpaddvme console src
  | .inpadddummy => onOwn (s.addDummy console)
  | .inpkill => onOwn s.inpkill

/-- A function of `browser.c` for the browser with a buffer. `ditto`, `goto`, `goto-name` and `write` are for
the keyboard only. -/
def brFn (fn : BrFn) (p : Ptr) (card : Card) (src : Source) (s : Session σ) : Option (Source × Session σ) :=
  match fn with
  | .brapp => some (src, s)
  | .brditto =>
    match src with
    | .keyboard => card.brditto.map fun card => (.keyboard, s.put p card)
    | .script tok => some (.script tok, s)
  | .brzero => card.brzero.map fun card => (src, s.put p card)
  | .brgoto =>
    match src with
    | .keyboard =>
      (Source.keyboard.value console intArg s).map fun (v, src, s) =>
        (src, s.put p (card.brgoto s.bufs.ttnrows v))
    | .script tok => some (.script tok, s)
  | .brgotoname =>
    match src with
    | .keyboard =>
      if card.buf.bRnms.isNone then some (.keyboard, s)
      else
        (Source.keyboard.string console s).bind fun (name, src, s) =>
          (card.brgotoname s.bufs.ttnrows name).map fun card => (src, s.put p card)
    | .script tok => some (.script tok, s)
  | .brwrite =>
    match src with
    | .keyboard =>
      (Source.keyboard.value console intArg s).bind fun (v, src, s) =>
        (card.brwrite v).map fun card => (src, s.put p card)
    | .script tok => some (.script tok, s)
  | .brchmod => some (src, s.put p (card.pressKey s.bufs.ttnrows .brchmod))
  | .braddrnm =>
    (src.string console s).map fun (name, src, s) =>
      match name with
      | none => (src, s)
      | some name =>
        let (rnm, outside) := console.rnmparse name s.outside
        (src, (s.withOutside outside).put p (card.braddrnm s.bufs.ttnrows rnm))
  | .brrefreshoff => some (src, s.put p card.brrefreshoff)
  | .brchrefresh =>
    (src.value console intArg s).map fun (v, src, s) => (src, s.put p (card.brchrefresh v))
  | .brwrite2name =>
    (src.string console s).bind fun (name, src, s) =>
      match name with
      | none => some (src, s)
      | some name =>
        (src.value console intArg s).bind fun (v, src, s) =>
          match v with
          | none => some (src, s)
          | some v => (card.brwrite2name name v).map fun card => (src, s.put p card)

/-- The current buffer has a function of its own for a key or a word, or it does nothing with it. -/
def onCurrent (bu : Session σ → Option (Session σ)) (br : Option BrFn) (src : Source) (s : Session σ) :
    Option (Source × Session σ) :=
  s.bufs.gBuffer.bind fun p => (s.bufs.modeAt p).bind fun mode =>
    match mode with
    | .bumode => (bu s).map fun s => (src, s)
    | .brmode _ =>
      match br with
      | none => some (src, s)
      | some fn => (s.cards p).bind fun card => s.brFn console fn p card src

/-- `keylookup`. -/
def keylookup (c : ℤ) (src : Source) (s : Session σ) : Option (Source × Session σ) :=
  s.onCurrent console
    (fun s => if c = bukluKey then s.bufs.bugoto.map s.withBufs else some s) (brklu.lookup c) src

/-- A word that is looked up, in a script or in the minibuffer. -/
def stringlookup (name : List Octet) (src : Source) (s : Session σ) : Option (Source × Session σ) :=
  match inpslu.lookup name with
  | some fn => s.inpFn console fn src
  | none => s.onCurrent console some (brslu.lookup name) src

/-- `m_setto` of the buffer that a command or a script began with; there is nothing to set when the program has
ended. -/
def setto (pbuf : Option Ptr) (s : Session σ) : Option (Session σ) :=
  if s.exited then some s
  else pbuf.bind fun p => (s.bufs.modeAt p).bind fun mode =>
    match mode with
    | .bumode => some s
    | .brmode _ => (s.cards p).map fun _ => s

/-- The commands of a script that was loaded from a buffer. -/
def scriptCommands (pbuf : Option Ptr) : Commands (Session σ) where
  other name tok s := (s.stringlookup console name (.script tok)).map fun (src, s) =>
    match src with
    | .keyboard => (tok.argi, s)
    | .script tok => (tok.argi, s)
  setto := setto pbuf
  mbgets s := (console.mbgets s.outside).map fun (answer, outside) => (answer, s.withOutside outside)
  freeStatic s := (console.freeStatic s.outside).map s.withOutside

/-- The commands of the minibuffer. -/
def keyboardCommands (pbuf : Option Ptr) : Commands (Session σ) :=
  { scriptCommands console pbuf with
    other := fun name tok s => (s.stringlookup console name .keyboard).map fun (_, s) => (tok.argi, s) }

/-- What is outside answers a session as it does without one. -/
def osOf (os : Os σ) : Os (Session σ) where
  malloc s := ((os.malloc s.outside).1, s.withOutside (os.malloc s.outside).2)
  access path s := ((os.access path s.outside).1, s.withOutside (os.access path s.outside).2)
  fopen path s := ((os.fopen path s.outside).1, s.withOutside (os.fopen path s.outside).2)

end Session

namespace Interpreter

variable {σ : Type*}

/-- Where commands are read now. -/
def source (st : Interpreter σ) : Source :=
  match st.gInstream with
  | none => .keyboard
  | some _ => .script st.tok

end Interpreter

section Program

variable {σ : Type*} (os : Os σ) (paths : Paths) (console : Console σ) (fuel : ℕ)

/-- The program: the interpreter with a session. -/
abbrev Program (σ : Type*) := Interpreter (Session σ)

namespace Program

/-- The session. -/
def session (st : Program σ) : Session σ := st.sys.outside

/-- `load_file` from the current buffer. -/
def loadFile : List Octet → Program σ → Option (ℤ × Program σ) :=
  Interpreter.loadFileAt (Session.osOf os) paths
    (fun st => Session.scriptCommands console st.sys.outside.bufs.gBuffer) fuel

/-- The arguments that were taken, and the session behind a command. -/
def afterwards (st : Program σ) (next : Source × Session σ) : Program σ :=
  match next with
  | (.keyboard, s) => st.withOutside s
  | (.script tok, s) => (st.withTok tok).withOutside s

/-- `inpcommand` from the current buffer. -/
def inpcommand (st : Program σ) : Option (Program σ) :=
  let pbuf := st.session.bufs.gBuffer
  let commands := match st.gInstream with
    | none => Session.keyboardCommands console pbuf
    | some _ => Session.scriptCommands console pbuf
  Interpreter.inpcommand commands (loadFile os paths console fuel) st

/-- `processinput`. -/
def processinput (c : ℤ) (st : Program σ) : Option (Program σ) :=
  if c = -1 then some st
  else
    match inpklu.lookup c with
    | some .inpcommand => inpcommand os paths console fuel st
    | some fn => (st.session.inpFn console fn st.source).map st.afterwards
    | none => (st.session.keylookup console c st.source).map st.afterwards

/-- A pass of the loop of `tty_main`, unless the program has ended: the current buffer is shown, and the next
key does what it does. -/
def pass (st : Program σ) (c : ℤ) : Option (Program σ) :=
  if st.session.exited then some st
  else st.session.bufs.display.bind fun _ => processinput os paths console fuel c st

/-- `tty_main`, for the keys that are typed. -/
def ttyMain (keys : List ℤ) (st : Program σ) : Option (Program σ) := keys.foldlM (pass os paths console fuel) st

/-- `HOME_SETUP_FILENAME`. -/
def homeSetupFilename : List Octet := octets ['~', '/', '.', 'v', '1', '2', '0', '_', 't', 'u', 'i']

/-- The program before any script. -/
def ofSession (s : Session σ) : Program σ :=
  ⟨⟨s, 0, [], 0, []⟩, fun _ => ⟨[], false⟩, none, fun _ => ⟨[], 0, []⟩, 0⟩

/-- `main`, from the first `buffergoto` on. -/
def main (keys : List ℤ) (s : Session σ) : Option (Program σ) :=
  (loadFile os paths console fuel homeSetupFilename (ofSession s)).bind fun (_, st) =>
    ttyMain os paths console fuel keys st

end Program

end Program

end V120.Tui
