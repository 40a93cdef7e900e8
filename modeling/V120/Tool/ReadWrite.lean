import V120.Common.Texts
import V120.Tool.Arguments
import V120.Vme.Crates

/-!
# Reading from and writing to the VME bus from the command line

`v120 write` of `rw.c`: it maps a region for the values it is going to write, and stores the values that
follow the address on the command line, or else those it finds on the standard input. `v120 read` maps a
region for the units it is going to read in the same way. The flag of the
16-bit data width is a parameter, as the header of the driver has it. Values are stored and read in the
little-endian order of the host, and reading the standard input does not fail.
-/

namespace V120.Tool

open V120.Common V120.Vme

/-- `ERANGE`. -/
def erange : ℤ := 34

/-- A store to the VME window: so many octets of a value at a pointer. -/
structure Store where
  dst : Pointer
  size : ℕ
  value : BitVec 32

/-- The part of `struct rw_args_t` that depends on the data width. -/
structure UnitAccess where
  size : ℕ
  put : Pointer → BitVec 32 → Store
  getb : List Octet → BitVec 32

/-- The value of octets in the order of the host. -/
def hostValue : List Octet → BitVec 32
  | [] => 0
  | octet :: more => octet.setWidth 32 ||| hostValue more <<< 8

/-- `put_byte` and `getb_byte`. -/
def byteAccess : UnitAccess where
  size := 1
  put dst v := ⟨dst, 1, (v.setWidth 8).setWidth 32⟩
  getb src := hostValue (src.take 1)

/-- `put_word` and `getb_word`. -/
def wordAccess : UnitAccess where
  size := 2
  put dst v := ⟨dst, 2, (v.setWidth 16).setWidth 32⟩
  getb src := hostValue (src.take 2)

/-- `put_dword` and `getb_dword`. -/
def dwordAccess : UnitAccess where
  size := 4
  put dst v := ⟨dst, 4, v⟩
  getb src := hostValue (src.take 4)

/-- `set_up_dwidth`. Its `default` is for numbers that are no data width. -/
def setUpDwidth (args : V120Args) : UnitAccess :=
  match args.dwidth with
  | .d8eo => byteAccess
  | .d8o => byteAccess
  | .d16 => if args.split then dwordAccess else wordAccess
  | .d32 => dwordAccess

/-- `check_align`: nonzero when the region does not begin at a unit. -/
def checkAlign (size : ℕ) (region : VmeRegion) : ℤ :=
  if size > 1 ∧ region.vmeAddr &&& BitVec.ofNat 64 (size - 1) ≠ 0 then -1 else 0

/-- A load from the VME window: so many octets at a pointer. -/
structure Load where
  src : Pointer
  size : ℕ

/-- The `for` loop of `v120_read`, for so many units. -/
def readUnits (size : ℕ) : ℕ → Pointer → List Load
  | 0, _ => []
  | count + 1, src => ⟨src, size⟩ :: readUnits size count (src + BitVec.ofNat 64 size)

/-- What `gettok` returns, the characters it stored from the start of its buffer on, and what it left of
the input. -/
structure Token where
  result : ℤ
  stored : List Octet
  rest : List Octet

/-- The `do` loop of `gettok` behind its first character, with room for so many more: the characters
stored, the one that ended the loop, if it was not the end of the input, and what is left. -/
def tokenLoop : ℕ → List Octet → List Octet × Option Octet × List Octet
  | _, [] => ([], none, [])
  | 0, c :: rest => ([], some c, rest)
  | room + 1, c :: rest =>
    if isalnum c then (c :: (tokenLoop room rest).1, (tokenLoop room rest).2) else ([], some c, rest)

/-- `gettok`, with a buffer of `len` characters. The `'\0'` goes behind the last character, also when
this is the last one of the buffer. -/
def gettok (len : ℕ) (stdin : List Octet) : Token :=
  match stdin.dropWhile isspace with
  | [] => ⟨1, [], []⟩
  | c :: rest =>
    let ended := tokenLoop (len - 1) rest
    ⟨if ended.2.1.all isspace then 0 else -1, c :: ended.1 ++ [0], ended.2.2⟩

/-- How a function that writes comes to its end: with a result, or not within the steps it was given, or
by a store behind its buffer. -/
inductive Outcome where
  | returned (result : ℤ)
  | running
  | overrun
  deriving DecidableEq

/-- What a function that writes leaves: the stores in order, `errno`, and how it ended. -/
structure Written where
  stores : List Store
  errno : ℤ
  outcome : Outcome

/-- A store before the others. -/
def Written.after (store : Store) (w : Written) : Written := { w with stores := store :: w.stores }

/-- `errno` after a call of `strtoul`, which leaves it alone unless the value is out of range. -/
def strtoulErrno (v : Strtoul) (errno : ℤ) : ℤ := if v.erange then erange else errno

/-- The size of the buffers. -/
def stdinBufsize : ℕ := 512

/-- The loop of `v120_write_stdin_ascii`, for so many turns at most. -/
def writeStdinAsciiLoop (rw : UnitAccess) : ℕ → List Octet → Pointer → ℤ → ℤ → Written
  | 0, _, _, _, errno => ⟨[], errno, .running⟩
  | turns + 1, stdin, dst, count, errno =>
    let token := gettok stdinBufsize stdin
    if stdinBufsize < token.stored.length then ⟨[], errno, .overrun⟩
    else if token.result ≠ 0 then ⟨[], errno, .returned count⟩
    else
      let v := strtoul (cString token.stored)
      if v.endptr = 0 ∨ strtoulErrno v errno ≠ 0 then ⟨[], strtoulErrno v errno, .returned (-1)⟩
      else
        (writeStdinAsciiLoop rw turns token.rest (dst + BitVec.ofNat 64 rw.size) (count + 1)
          (strtoulErrno v errno)).after (rw.put dst (v.value.setWidth 32))

/-- `v120_write_stdin_ascii`. Every turn but the last takes a character from the input. -/
def v120WriteStdinAscii (rw : UnitAccess) (stdin : List Octet) (dst : Pointer) (errno : ℤ) : Written :=
  writeStdinAsciiLoop rw (stdin.length + 1) stdin dst 0 errno

/-- The `for` loop of `v120_write_stdin_binary`, over so many units of the buffer. -/
def putUnits (rw : UnitAccess) : ℕ → List Octet → Pointer → List Store
  | 0, _, _ => []
  | count + 1, pbuf, dst =>
    rw.put dst (rw.getb pbuf) :: putUnits rw count (pbuf.drop rw.size) (dst + BitVec.ofNat 64 rw.size)

/-- The `do` loop of `v120_write_stdin_binary`, for so many turns at most. -/
def writeStdinBinaryLoop (rw : UnitAccess) (errno : ℤ) : ℕ → List Octet → Pointer → ℤ → Written
  | 0, _, _, _ => ⟨[], errno, .running⟩
  | turns + 1, stdin, dst, total =>
    let alen := stdinBufsize / rw.size
    let buffer := stdin.take (rw.size * alen)
    let count := buffer.length / rw.size
    let stores := putUnits rw count buffer dst
    if count ≠ alen then
      let more := writeStdinBinaryLoop rw errno turns (stdin.drop (rw.size * alen))
        (dst + BitVec.ofNat 64 (count * rw.size)) (total + count)
      { more with stores := stores ++ more.stores }
    else ⟨stores, errno, .returned (total + count)⟩

/-- `v120_write_stdin_binary`. The second turn finds nothing, if there is one, and so do all others. -/
def v120WriteStdinBinary (rw : UnitAccess) (stdin : List Octet) (dst : Pointer) (errno : ℤ) : Written :=
  writeStdinBinaryLoop rw errno 2 stdin dst 0

/-- `v120_write_stdin`. -/
def v120WriteStdin (rw : UnitAccess) (stdin : List Octet) (base : Pointer) (binary : Bool) (errno : ℤ) :
    Written :=
  let written :=
    if binary then v120WriteStdinBinary rw stdin base errno else v120WriteStdinAscii rw stdin base errno
  match written.outcome with
  | .returned count => { written with outcome := .returned (if count ≤ 0 then exitFailure else exitSuccess) }
  | _ => written

/-- `v120_write_args`. -/
def v120WriteArgs (rw : UnitAccess) : List (List Octet) → Pointer → ℤ → Written
  | [], _, errno => ⟨[], errno, .returned exitSuccess⟩
  | arg :: argv, dst, errno =>
    let v := strtoul arg
    if v.endptr = 0 ∨ strtoulErrno v errno ≠ 0 then ⟨[], strtoulErrno v errno, .returned exitFailure⟩
    else
      (v120WriteArgs rw argv (dst + BitVec.ofNat 64 rw.size) (strtoulErrno v errno)).after
        (rw.put dst (v.value.setWidth 32))

section Command

variable {σ : Type*} (os : Os σ) (d16 : V120Pd)

/-- The flags `rw_open_vme` asks for. -/
def rwConfig (args : V120Args) : V120Pd :=
  if args.dwidth = .d16 then args.speed ||| args.awidth ||| d16 else args.speed ||| args.awidth

/-- The length `rw_open_vme` asks for. -/
def rwLen (args : V120Args) (nunits : ℕ) : BitVec 64 :=
  match args.dwidth with
  | .d16 => BitVec.ofNat 64 nunits * 2
  | .d32 => BitVec.ofNat 64 nunits * 4
  | _ => BitVec.ofNat 64 nunits

/-- The region `rw_open_vme` asks for. -/
def rwRegion (args : V120Args) (address : BitVec 64) (nunits : ℕ) (region : VmeRegion) : VmeRegion :=
  { region with vmeAddr := address, startPage := 0, len := rwLen args nunits, config := rwConfig d16 args }

/-- The crate `rw_open_vme` opens, the first one that opens when none is asked for. -/
def openCrate (crate : ℤ) (u : Unopened σ) : Option V120Handle × Unopened σ :=
  if crate < 0 then v120Next os none u else v120Open os crate u

/-- `rw_open_vme`: the region as it was placed and the world it was placed in, or what is left of the
world. Some fields of the region are not set before it is placed. -/
def rwOpenVme (args : V120Args) (address : BitVec 64) (nunits : ℕ) (region : VmeRegion)
    (uninitialised : BitVec 32) (u : Unopened σ) : Except (Unopened σ) (VmeRegion × Vme.World σ) :=
  if args.crate = allCrates then .error u
  else
    let opened := openCrate os args.crate u
    match opened.1 with
    | none => .error opened.2
    | some h =>
      let region := rwRegion d16 args address nunits region
      let w : Vme.World σ := ⟨h.addVmeRegion region, opened.2.errno, opened.2.outside⟩
      let allocated := v120AllocateVme os uninitialised 8191 w
      let w := allocated.2
      if allocated.1 < 0 then .error (v120Close os w.handle ⟨w.errno, w.outside⟩)
      else .ok (w.handle.listHead.headD region, w)

/-- A run of `v120_write`: the region it opened and the world it was opened in, what it stored there, how
it ended, and what is left of the world. -/
structure WriteRun (σ : Type*) where
  opened : Option (VmeRegion × Vme.World σ)
  stores : List Store
  outcome : Outcome
  left : Unopened σ

/-- `v120_write`. The handle is closed unless the run goes wrong before. -/
def v120Write (args : V120Args) (argv : List (List Octet)) (stdin : List Octet) (region : VmeRegion)
    (uninitialised : BitVec 32) (u : Unopened σ) : WriteRun σ :=
  match argv with
  | [] => ⟨none, [], .returned exitFailure, u⟩
  | addressArg :: values =>
    let address := strtoul addressArg
    let u := { u with errno := strtoulErrno address u.errno }
    if address.endptr = 0 ∨ u.errno ≠ 0 then ⟨none, [], .returned exitFailure, u⟩
    else
      match rwOpenVme os d16 args address.value values.length region uninitialised u with
      | .error left => ⟨none, [], .returned exitFailure, left⟩
      | .ok (placed, w) =>
        let rw := setUpDwidth args
        let closed (errno : ℤ) := v120Close os w.handle ⟨errno, w.outside⟩
        if checkAlign rw.size placed ≠ 0 then
          ⟨some (placed, w), [], .returned exitFailure, closed w.errno⟩
        else
          let written :=
            if values.length = 0 then v120WriteStdin rw stdin placed.base args.binary w.errno
            else v120WriteArgs rw values placed.base w.errno
          ⟨some (placed, w), written.stores, written.outcome,
            match written.outcome with
            | .returned _ => closed written.errno
            | _ => ⟨written.errno, w.outside⟩⟩

/-- The count of `v120_read`, unless it is invalid, and `errno`. -/
def readCount (argv : List (List Octet)) (errno : ℤ) : Option (BitVec 32) × ℤ :=
  match argv with
  | [] => (some 1, errno)
  | countArg :: _ =>
    let count := strtoul countArg
    let errno := strtoulErrno count errno
    let nunits := count.value.setWidth 32
    (if count.endptr = 0 ∨ errno ≠ 0 ∨ nunits = 0 then none else some nunits, errno)

/-- A run of `v120_read`: the region it opened and the world it was opened in, what it loaded from there,
its exit status, and what is left of the world. -/
structure ReadRun (σ : Type*) where
  opened : Option (VmeRegion × Vme.World σ)
  loads : List Load
  status : ℤ
  left : Unopened σ

/-- `v120_read`. A count is an `int`, and as a length it is extended with its sign. -/
def v120Read (args : V120Args) (argv : List (List Octet)) (region : VmeRegion) (uninitialised : BitVec 32)
    (u : Unopened σ) : ReadRun σ :=
  match argv with
  | [] => ⟨none, [], exitFailure, u⟩
  | addressArg :: more =>
    let address := strtoul addressArg
    let u := { u with errno := strtoulErrno address u.errno }
    if address.endptr = 0 ∨ u.errno ≠ 0 then ⟨none, [], exitFailure, u⟩
    else
      let counted := readCount more u.errno
      let u := { u with errno := counted.2 }
      match counted.1 with
      | none => ⟨none, [], exitFailure, u⟩
      | some nunits =>
        match rwOpenVme os d16 args address.value (nunits.signExtend 64).toNat region uninitialised u with
        | .error left => ⟨none, [], exitFailure, left⟩
        | .ok (placed, w) =>
          let rw := setUpDwidth args
          let left := v120Close os w.handle ⟨w.errno, w.outside⟩
          if checkAlign rw.size placed ≠ 0 then ⟨some (placed, w), [], exitFailure, left⟩
          else ⟨some (placed, w), readUnits rw.size nunits.toInt.toNat placed.base, exitSuccess, left⟩

end Command

end V120.Tool
