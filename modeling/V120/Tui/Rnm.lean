import Mathlib.Data.Finmap
import Mathlib.Data.List.DropRight
import V120.Common.LinkedLists
import V120.Common.Lines
import V120.Common.Numerals
import V120.Tui.Files

/-!
# RNM files

An RNM file has a line for each register of a card, with its index, name, sign and width. It is read
twice: `maxoffs` looks for the largest index, and `filldata` fills an array of records up to that index and
a hash table of the names. A record outside of the array, or a negative bucket, is a write to memory that
belongs to something else, and the model ends there.

`char` is signed, `int` has 32 bits and `long` 64.
-/

namespace V120.Tui

open V120.Common

/-- `RNM_FILE_BUFSIZE`. -/
def rnmFileBufsize : ℕ := 256

/-- `RNM_MAX_TOKENS`. -/
def rnmMaxTokens : ℕ := 128

/-- `RNM_HASH_SIZE`. -/
def rnmHashSize : ℕ := 199

/-- `V120_EAUTO` and its siblings. -/
inductive Endianness where
  | auto
  | long
  | byte
  | short
  deriving DecidableEq

/-- `struct vme_metadata_t`. The name is the string in its 14 characters. -/
structure VmeMetadata where
  name : List Octet
  sign : ℤ
  dwidth : ℤ
  deriving DecidableEq

/-- A used entry of the hash table: the record whose name it points to, the hash, the index, and the block
it is in, unless it is part of the table. -/
structure RnmHash where
  rhName : ℕ
  rhHash : BitVec 64
  rhIdx : ℤ
  node : Option ℕ
  deriving DecidableEq

/-- `struct rnm_t`, with the blocks of the array and of the path. A bucket is its entries in order. -/
structure RnmT where
  rNext : Option ℕ
  rMdata : List VmeMetadata
  mdataBlock : ℕ
  rPath : List Octet
  pathBlock : ℕ
  rLen : ℤ
  rEndi : Endianness
  rDwidth : ℤ
  rAwidth : ℤ
  rHash : Fin rnmHashSize → List RnmHash
  rName : List Octet

/-- `vmebriseol`. -/
def vmebriseol (c : Octet) : Bool := c == 0 || c == 0x0a || c == 0x0d || c == 0x23

/-- `linestrip`: what is left of a string without its comment and the blanks around it. -/
def linestrip (s : List Octet) : List Octet :=
  ((s.dropWhile isblank).takeWhile (!vmebriseol ·)).rdropWhile isblank

/-- The tokens of a line, between its colons. -/
def lineTokens (line : List Octet) : List (List Octet) :=
  (words (· == 0x3a) (linestrip line)).take rnmMaxTokens

/-- The lines of a file, as both passes read them. -/
def rnmLines (content : List Octet) : List (List Octet) := fileLines newline rnmFileBufsize content

/-- `strtoul` as an `int`. -/
def offsetOf (text : List Octet) : ℤ := ((strtoul text).value.setWidth 32).toInt

/-- `strtol` as an `int`. -/
def widthOf (text : List Octet) : ℤ := ((strtol text).setWidth 32).toInt

/-- The first character of a string, which may be its end. -/
def firstChar (s : List Octet) : Octet := s.headD 0

/-- `hashstring`. -/
def hashstring (s : List Octet) : BitVec 64 :=
  let hash := s.foldl (fun hash c => 31 * hash + c.signExtend 64) (0 : BitVec 64)
  if hash.slt 0 then -hash else hash

/-- The hash of a string is negative still, so that its bucket would be before the table: the smallest
`long` has no opposite. -/
def negativeHash (s : List Octet) : Bool := (hashstring s).slt 0

/-- The bucket of a hash that is not negative. -/
def bucketOf (hash : BitVec 64) : Fin rnmHashSize := ⟨hash.toNat % rnmHashSize, Nat.mod_lt _ (by decide)⟩

/-- The index that `maxoffs` takes from a line. -/
def firstPassIndex (line : List Octet) : Option ℤ :=
  let s := linestrip line
  if isdigit (firstChar s) then some (offsetOf s) else none

/-- One line of `maxoffs`. -/
def maxoffsLine (offs : ℤ) (line : List Octet) : ℤ :=
  match firstPassIndex line with
  | none => offs
  | some toffs => if offs < toffs then toffs else offs

/-- `maxoffs`. -/
def maxoffs (content : List Octet) : ℤ := (rnmLines content).foldl maxoffsLine 0

variable {σ : Type*} (os : Os σ)

/-- `add2hash`: its answer, and the table with the new entry at the end of its bucket. -/
def add2hash (rnm : RnmT) (name : List Octet) (index : ℕ) (sys : System σ) : ℤ × RnmT × System σ :=
  let hash := hashstring name
  let bucket := bucketOf hash
  let put (node : Option ℕ) : RnmT :=
    { rnm with rHash := Function.update rnm.rHash bucket (rnm.rHash bucket ++ [⟨index, hash, index, node⟩]) }
  if (rnm.rHash bucket).isEmpty then (0, put none, sys)
  else
    match sys.malloc os with
    | (none, sys) => (-1, rnm, sys)
    | (some node, sys) => (0, put (some node), sys)

/-- What a line does. -/
inductive LineResult (σ : Type*) where
  | accepted (rnm : RnmT) (sys : System σ)
  | refused (rnm : RnmT) (sys : System σ)
  | strayRecord (toffs : ℤ)
  | strayBucket

/-- The sign and the width behind the name of a register, and whether they are legal. -/
def signAndWidth (rdata : VmeMetadata) : List (List Octet) → Bool × VmeMetadata
  | [] => (true, rdata)
  | sign :: rest =>
    let c := toupper (firstChar sign)
    let rdata := if c = 0x53 then { rdata with sign := -1 } else rdata
    if c ≠ 0x53 ∧ c ≠ 0x55 then (false, rdata)
    else
      match rest with
      | [] => (true, rdata)
      | width :: _ =>
        if firstChar width = 0x32 then (true, rdata)
        else if firstChar width = 0x34 then (true, { rdata with dwidth := 4 })
        else (false, rdata)

/-- The name in a record: the first 13 characters of its token. -/
def recordName (token : List Octet) : List Octet := (linestrip token).take 13

/-- A line for a register, with the tokens behind its index. -/
def registerLine (rnm : RnmT) (toffs : ℤ) (rest : List (List Octet)) (sys : System σ) : LineResult σ :=
  if toffs < 0 ∨ rnm.rMdata.length ≤ toffs then .strayRecord toffs
  else
    let index := toffs.toNat
    match rest with
    | [] => .accepted { rnm with rMdata := rnm.rMdata.set index ⟨[], 1, 2⟩ } sys
    | token :: rest =>
      let name := recordName token
      if negativeHash name then .strayBucket
      else
        let (_, rnm, sys) := add2hash os rnm name index sys
        let (legal, rdata) := signAndWidth ⟨name, 1, 2⟩ rest
        let rnm := { rnm with rMdata := rnm.rMdata.set index rdata }
        if legal then .accepted rnm sys else .refused rnm sys

/-- The endianness that a character stands for. -/
def endiannessOf (c : Octet) : Option Endianness :=
  if c = 0x41 then some .auto
  else if c = 0x4c then some .long
  else if c = 0x42 then some .byte
  else if c = 0x53 then some .short
  else none

/-- The lines that `linedata` tells apart by their first character. -/
inductive LineKind where
  | dataWidth
  | endianness
  | addressWidth
  | register
  | unexpected
  deriving DecidableEq

/-- The `switch` of `linedata`. -/
def lineKind (first : List Octet) : LineKind :=
  let c := toupper (firstChar first)
  if c = 0x57 then .dataWidth
  else if c = 0x45 then .endianness
  else if c = 0x41 then .addressWidth
  else if isdigit c then .register
  else .unexpected

/-- `linedata`. -/
def linedata (rnm : RnmT) (tokens : List (List Octet)) (sys : System σ) : LineResult σ :=
  match tokens with
  | [] => .accepted rnm sys
  | first :: rest =>
    match lineKind first with
    | .dataWidth =>
      match rest with
      | [] => .refused rnm sys
      | value :: _ =>
        let rnm := { rnm with rDwidth := widthOf value }
        if rnm.rDwidth = 2 ∨ rnm.rDwidth = 4 then .accepted rnm sys else .refused rnm sys
    | .endianness =>
      match rest with
      | [] => .refused rnm sys
      | value :: _ =>
        match endiannessOf (toupper (firstChar value)) with
        | none => .refused rnm sys
        | some endi => .accepted { rnm with rEndi := endi } sys
    | .addressWidth =>
      match rest with
      | [] => .refused rnm sys
      | value :: _ => .accepted { rnm with rAwidth := widthOf value } sys
    | .register => registerLine os rnm (offsetOf first) rest sys
    | .unexpected => .refused rnm sys

/-- The loop of `filldata`. -/
def filldataLoop : List (List Octet) → RnmT → System σ → LineResult σ
  | [], rnm, sys => .accepted rnm sys
  | line :: lines, rnm, sys =>
    match linedata os rnm (lineTokens line) sys with
    | .accepted rnm sys => filldataLoop lines rnm sys
    | result => result

/-- The defaults, in case the file does not say. -/
def RnmT.withDefaults (rnm : RnmT) : RnmT := { rnm with rDwidth := 2, rEndi := .auto, rAwidth := 16 }

/-- `filldata`. -/
def filldata (rnm : RnmT) (content : List Octet) (sys : System σ) : LineResult σ :=
  filldataLoop os (rnmLines content) rnm.withDefaults sys

/-- `dirstrip`. -/
def dirstrip (name : List Octet) : List Octet := (name.reverse.takeWhile (· != 0x2f)).reverse

/-- The structure before the second pass: an array of records up to the largest index, all of them zero,
and an empty hash table. -/
def newRnm (offs : ℤ) (rdata : ℕ) (fnm : List Octet) (fnmBlock : ℕ) : RnmT where
  rNext := none
  rMdata := List.replicate (offs.toNat + 1) ⟨[], 0, 0⟩
  mdataBlock := rdata
  rPath := fnm
  pathBlock := fnmBlock
  rLen := offs
  rEndi := .auto
  rDwidth := 0
  rAwidth := 0
  rHash := fun _ => []
  rName := (dirstrip fnm).take 13

/-- The blocks of the entries that are not part of the table, in the order in which `hashfree` frees them. -/
def RnmT.nodes (rnm : RnmT) : List ℕ :=
  (List.finRange rnmHashSize).flatMap fun bucket => (rnm.rHash bucket).filterMap RnmHash.node

/-- The process, and the parsed RNM files in memory with the pointer to the first one in the cache. -/
structure World (σ : Type*) where
  sys : System σ
  rnms : Finmap fun _ : ℕ => RnmT
  gRnms : Option ℕ

/-- What `rnmparse` returns, where a file that was found in the cache is told apart from one just parsed;
or the call does something undefined. -/
inductive RnmResult where
  | failed
  | cached (rnm : ℕ)
  | parsed (rnm : ℕ)
  | undefined
  deriving DecidableEq

namespace World

/-- The link in a parsed RNM file. -/
def next (w : World σ) (p : ℕ) : Option (Option ℕ) := (w.rnms.lookup p).map RnmT.rNext

/-- `findrnm`; there is no answer when the links do not end. -/
def findrnm (w : World σ) (path : List Octet) : ℕ → Option ℕ → Option (Option ℕ)
  | _, none => some none
  | 0, some _ => none
  | fuel + 1, some p =>
    (w.rnms.lookup p).bind fun rnm =>
      if rnm.rPath = path then some (some p) else w.findrnm path fuel rnm.rNext

/-- Blocks freed one after the other. -/
def freeAll (blocks : List ℕ) (w : World σ) : World σ :=
  { w with sys := blocks.foldl (fun sys block => sys.free block) w.sys }

/-- `rnmfree`. -/
def rnmfree (p : ℕ) (w : World σ) : Option (World σ) :=
  (w.rnms.lookup p).map fun rnm =>
    { w.freeAll (rnm.nodes ++ [rnm.mdataBlock, rnm.pathBlock, p]) with rnms := w.rnms.erase p }

/-- `rnmadd2path` stores in `g_rnms` the link that was just set to it. -/
def rnmadd2path (p : ℕ) (rnm : RnmT) (w : World σ) : World σ :=
  let rnm := { rnm with rNext := w.gRnms }
  { w with rnms := w.rnms.insert p rnm, gRnms := rnm.rNext }

/-- `rnmclean`; there is no end when the links do not end. -/
def rnmclean : ℕ → Option ℕ → World σ → Option (World σ)
  | _, none, w => some { w with gRnms := none }
  | 0, some _, _ => none
  | fuel + 1, some p, w =>
    (w.rnms.lookup p).bind fun rnm => (w.rnmfree p).bind (rnmclean fuel rnm.rNext)

/-- The exits of `rnmparse` behind the opening of the file, each with what it still has to free. -/
def errFopen (fnm : ℕ) (w : World σ) : RnmResult × World σ := (.failed, { w with sys := w.sys.free fnm })

/-- `err_offs` and `err_rdata`. -/
def errRdata (fp fnm : ℕ) (w : World σ) : RnmResult × World σ :=
  errFopen fnm { w with sys := w.sys.fclose fp }

/-- `err_ret`. -/
def errRet (rdata fp fnm : ℕ) (w : World σ) : RnmResult × World σ :=
  errRdata fp fnm { w with sys := w.sys.free rdata }

/-- `err_filldata`. -/
def errFilldata (ret rdata fp fnm : ℕ) (w : World σ) : RnmResult × World σ :=
  match w.rnmfree ret with
  | none => (.undefined, w)
  | some w => errRet rdata fp fnm w

/-- `rnmparse` up to the call of `filldata`: it has returned, or the second pass is made over a content for
a new structure. -/
inductive Stage (σ : Type*) where
  | done (result : RnmResult) (w : World σ)
  | second (fp fnm rdata ret : ℕ) (rnm : RnmT) (content : List Octet) (w : World σ)

/-- An exit before the second pass. -/
def Stage.ofExit (exit : RnmResult × World σ) : Stage σ := .done exit.1 exit.2

/-- The part of `rnmparse` before the second pass, once the file is open. -/
def firstPass (path : List Octet) (fnm fp : ℕ) (content : List Octet) (w : World σ) : Stage σ :=
  let offs := maxoffs content
  if offs = 0 then .ofExit (errRdata fp fnm w)
  else
    match w.sys.malloc os with
    | (none, sys) => .ofExit (errRdata fp fnm { w with sys := sys })
    | (some rdata, sys) =>
      match sys.malloc os with
      | (none, sys) => .ofExit (errRet rdata fp fnm { w with sys := sys })
      | (some ret, sys) => .second fp fnm rdata ret (newRnm offs rdata path fnm) content { w with sys := sys }

variable (paths : Paths)

/-- The part of `rnmparse` before the second pass. -/
def beforeFilldata (filename : Option (List Octet)) (w : World σ) : Stage σ :=
  match filename with
  | none => .done .failed w
  | some filename =>
    match paths.getfullpath os filename w.sys with
    | (none, sys) => .done .failed { w with sys := sys }
    | (some (path, fnm), sys) =>
      match w.findrnm path w.rnms.keys.card w.gRnms with
      | none => .done .undefined { w with sys := sys }
      | some (some rnm) => .done (.cached rnm) { w with sys := sys.free fnm }
      | some none =>
        match sys.fopen os path with
        | (none, sys) => .ofExit (errFopen fnm { w with sys := sys })
        | (some (fp, content), sys) => firstPass os path fnm fp content { w with sys := sys }

/-- `rnmparse`. -/
def rnmparse (filename : Option (List Octet)) (w : World σ) : RnmResult × World σ :=
  match w.beforeFilldata os paths filename with
  | .done result w => (result, w)
  | .second fp fnm rdata ret rnm content w =>
    match filldata os rnm content w.sys with
    | .accepted rnm sys =>
      let w := { w with sys := sys }.rnmadd2path ret rnm
      (.parsed ret, { w with sys := w.sys.fclose fp })
    | .refused rnm sys => errFilldata ret rdata fp fnm { w with sys := sys, rnms := w.rnms.insert ret rnm }
    | .strayRecord _ => (.undefined, w)
    | .strayBucket => (.undefined, w)

end World

/-- `rnmsearch`: the index in the first entry of the bucket with the hash and the name, or -1. A negative
hash has no bucket. -/
def rnmsearch (rnm : RnmT) (name : List Octet) : Option ℤ :=
  let hash := hashstring name
  if negativeHash name then none
  else
    let found := (rnm.rHash (bucketOf hash)).find? fun rh =>
      rh.rhHash == hash && (rnm.rMdata[rh.rhName]?.map VmeMetadata.name == some name)
    some (found.elim (-1) RnmHash.rhIdx)

end V120.Tui
