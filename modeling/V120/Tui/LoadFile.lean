import Mathlib.Logic.Function.Basic
import V120.Tui.Tokens

/-!
# Scripts that load scripts

`load_file` makes the file that it opened the input of the whole program, and the commands of a script are
read from whatever that input is at the time, while the loop ends at the end of its own file. A script may
load another one, or itself, so that files and tokens are kept on stacks. The model has no answer for a
call that does not return.
-/

namespace V120.Tui

open V120.Common

/-- `NTOKENS`. -/
def ntokens : ℕ := 100

/-- What commands other than `load-file` do to the rest of the program, with a name and the arguments behind it,
each of which may end it: their effect and how many arguments they took, what comes behind every command,
a string from the keyboard, and the `free` of a string that `malloc` did not hand out, which is undefined. -/
structure Commands (σ : Type*) where
  other : List Octet → TokenBuf → σ → Option (ℕ × σ)
  setto : σ → Option σ
  mbgets : σ → Option (Option (List Octet) × σ)
  freeStatic : σ → Option σ

/-- The interpreter: the files that are open with what is left of them, the current input, which is a file or
the keyboard, and the token stack with its position. -/
structure Interpreter (σ : Type*) where
  sys : System σ
  streams : ℕ → InputStream Octet
  gInstream : Option ℕ
  tokenstack : ℕ → TokenBuf
  ptok : ℕ

namespace Interpreter

variable {σ : Type*} (os : Os σ) (paths : Paths) (commands : Commands σ)

/-- The tokens of the current line. -/
def tok (st : Interpreter σ) : TokenBuf := st.tokenstack st.ptok

/-- The interpreter with other tokens for the current line. -/
def withTok (tok : TokenBuf) (st : Interpreter σ) : Interpreter σ :=
  { st with tokenstack := Function.update st.tokenstack st.ptok tok }

/-- The interpreter with the rest of the program in another state. -/
def withOutside (outside : σ) (st : Interpreter σ) : Interpreter σ :=
  { st with sys := { st.sys with outside := outside } }

/-- `tokenpush`, unless the stack is full. -/
def tokenpush (st : Interpreter σ) : Option (Interpreter σ) :=
  if st.ptok < ntokens - 1 then some { st with ptok := st.ptok + 1 } else none

/-- `tokenpop`. -/
def tokenpop (st : Interpreter σ) : Interpreter σ := { st with ptok := st.ptok - 1 }

/-- `token_start`. -/
def tokenStart (st : Interpreter σ) : Option (Interpreter σ) :=
  match st.gInstream with
  | none => some st
  | some file => (Tui.tokenStart (st.streams file)).map fun (tok, stream) =>
      { st.withTok tok with streams := Function.update st.streams file stream }

/-- A string that is asked for on the keyboard, or the next argument of a script. -/
def nextString (st : Interpreter σ) : Option (Option (List Octet) × Interpreter σ) :=
  match st.gInstream with
  | none =>
    (commands.mbgets st.sys.outside).map fun (string, outside) => (string, st.withOutside outside)
  | some _ =>
    let (arg, tok) := st.tok.tokenNext
    some (arg.map Prod.snd, st.withTok tok)

/-- The name of the command that loads a file. -/
def loadFileName : List Octet := [0x6c, 0x6f, 0x61, 0x64, 0x2d, 0x66, 0x69, 0x6c, 0x65]

variable (load : List Octet → Interpreter σ → Option (ℤ × Interpreter σ))

/-- `inpfileload`, which frees the name of the file even when it is in the line of a script. -/
def inpfileload (st : Interpreter σ) : Option (Interpreter σ) :=
  (st.nextString commands).bind fun (fname, st) =>
    match fname with
    | none => some st
    | some fname =>
      (load fname st).bind fun (_, after) =>
        match st.gInstream with
        | none => some after
        | some _ => (commands.freeStatic after.sys.outside).map fun outside => after.withOutside outside

/-- Any other command. -/
def otherCommand (name : List Octet) (st : Interpreter σ) : Option (Interpreter σ) :=
  (commands.other name st.tok st.sys.outside).map fun (argi, outside) =>
    (st.withTok { st.tok with argi := argi }).withOutside outside

/-- `inpcommand`. -/
def inpcommand (st : Interpreter σ) : Option (Interpreter σ) :=
  let done (st : Interpreter σ) := (commands.setto st.sys.outside).map fun outside => st.withOutside outside
  (st.nextString commands).bind fun (name, st) =>
    match name with
    | none => done st
    | some name =>
      (if name = loadFileName then st.inpfileload commands load else st.otherCommand commands name).bind done

/-- The loop of `load_file`, which goes on until the end of its own file was noticed. -/
def loadLoop (fp : ℕ) : ℕ → Interpreter σ → Option (Interpreter σ)
  | 0, _ => none
  | fuel + 1, st =>
    if (st.streams fp).eof then some st
    else st.tokenStart.bind fun st => (st.inpcommand commands load).bind fun st => loadLoop fp fuel st

/-- The part of `load_file` that opens the file. -/
def openFile (fname : List Octet) (st : Interpreter σ) : Option ℕ × Interpreter σ :=
  match paths.getfullpath os fname st.sys with
  | (none, sys) => (none, { st with sys := sys })
  | (some (fullpath, block), sys) =>
    match sys.fopen os fullpath with
    | (none, sys) => (none, { st with sys := sys.free block })
    | (some (fp, content), sys) =>
      (some fp, { st with sys := sys.free block, streams := Function.update st.streams fp (.ofContent content) })

/-- `load_file`. -/
def loadFile : ℕ → List Octet → Interpreter σ → Option (ℤ × Interpreter σ)
  | 0, _, _ => none
  | fuel + 1, fname, st =>
    match st.openFile os paths fname with
    | (none, st) => some (-1, st)
    | (some fp, st) =>
      let fpsave := st.gInstream
      match ({ st with gInstream := some fp } : Interpreter σ).tokenpush with
      | none => some (-1, { st with gInstream := some fp })
      | some st => (loadLoop commands (loadFile fuel) fp fuel st).map fun st =>
          let st := { st.tokenpop with gInstream := fpsave }
          (0, { st with sys := st.sys.fclose fp })

/-- The position in the token stack, what is left of the files up to one, the files up to another that were
closed, and the input, unless it is a file from the first one on. -/
structure Kept (n m : ℕ) (before after : Interpreter σ) : Prop where
  ptok : after.ptok = before.ptok
  files : before.sys.files ≤ after.sys.files
  streams : ∀ file < n, after.streams file = before.streams file
  closed : ∀ file < m, after.sys.closed.count file = before.sys.closed.count file
  input : after.gInstream = before.gInstream ∨ ∃ file, n ≤ file ∧ after.gInstream = some file

variable {os paths commands load} {n m fp fuel : ℕ} {a b c : Interpreter σ}

namespace Kept

theorem refl (n m : ℕ) (a : Interpreter σ) : Kept n m a a :=
  ⟨rfl, le_rfl, fun _ _ => rfl, fun _ _ => rfl, Or.inl rfl⟩

theorem trans (h : Kept n m a b) (h' : Kept n m b c) : Kept n m a c where
  ptok := h'.ptok.trans h.ptok
  files := h.files.trans h'.files
  streams file hfile := (h'.streams file hfile).trans (h.streams file hfile)
  closed file hfile := (h'.closed file hfile).trans (h.closed file hfile)
  input := by
    rcases h'.input with hsame | hother
    · rw [hsame]
      exact h.input
    · exact Or.inr hother

/-- Less is kept as well. -/
theorem mono {n' m' : ℕ} (h : Kept n m a b) (hn : n' ≤ n) (hm : m' ≤ m) : Kept n' m' a b where
  ptok := h.ptok
  files := h.files
  streams file hfile := h.streams file (Nat.lt_of_lt_of_le hfile hn)
  closed file hfile := h.closed file (Nat.lt_of_lt_of_le hfile hm)
  input := h.input.imp_right fun ⟨file, hfile, hinput⟩ => ⟨file, hn.trans hfile, hinput⟩

/-- The rest of the program changes in another way. -/
theorem withOutside (h : Kept n m a b) (outside : σ) : Kept n m a (b.withOutside outside) :=
  ⟨h.ptok, h.files, h.streams, h.closed, h.input⟩

/-- Other tokens. -/
theorem withTok (h : Kept n m a b) (tok : TokenBuf) : Kept n m a (b.withTok tok) :=
  ⟨h.ptok, h.files, h.streams, h.closed, h.input⟩

end Kept

/-- When the end of a file was noticed, nothing is left of it. -/
def AtEnd (stream : InputStream Octet) : Prop := stream.eof = true → stream.rest = []

/-- `fgets` notices the end of a file only when nothing is left. -/
theorem atEnd_fgets {stream : InputStream Octet} (h : AtEnd stream) :
    AtEnd (stream.fgets newline lineMax).2 := by
  intro heof
  rw [InputStream.fgets] at heof ⊢
  rcases (Bool.or_eq_true _ _).mp heof with heof | hshort
  · rw [h heof]
    exact List.drop_nil
  · obtain ⟨hroom, hlast⟩ := of_decide_eq_true hshort
    have hall := lineAt_short newline hroom hlast
    rw [hall]
    exact List.drop_length

/-- `token_start` notices the end of a file only when nothing is left. -/
theorem atEnd_tokenStart {stream stream' : InputStream Octet} {tok : TokenBuf} (h : AtEnd stream)
    (hstart : Tui.tokenStart stream = some (tok, stream')) : AtEnd stream' := by
  have hloop (fuel : ℕ) {stream : InputStream Octet} (h : AtEnd stream)
      (hstart : tokenStartLoop fuel stream = some (tok, stream')) : AtEnd stream' := by
    induction fuel generalizing stream with
    | zero => exact absurd hstart (Option.some_ne_none _).symm
    | succ fuel ih =>
      have hread := atEnd_fgets h
      rw [tokenStartLoop] at hstart
      cases hfgets : stream.fgets newline lineMax with
      | mk line rest =>
        rw [hfgets] at hstart hread
        cases line with
        | none =>
          obtain ⟨-, rfl⟩ := Prod.mk.inj (Option.some.inj hstart)
          exact hread
        | some line =>
          obtain ⟨⟨argv, line'⟩, -, hstart⟩ := Option.bind_eq_some_iff.mp hstart
          by_cases hargv : argv = []
          · exact ih hread ((if_pos hargv).symm.trans hstart)
          · obtain ⟨-, rfl⟩ := Prod.mk.inj (Option.some.inj ((if_neg hargv).symm.trans hstart))
            exact hread
  exact hloop _ h hstart

/-- What `token_start` does: nothing for the keyboard. -/
theorem tokenStart_cases (h : a.tokenStart = some b) : (a.gInstream = none ∧ b = a) ∨
    ∃ file tok stream, a.gInstream = some file ∧ Tui.tokenStart (a.streams file) = some (tok, stream) ∧
      b = { a.withTok tok with streams := Function.update a.streams file stream } := by
  rw [tokenStart] at h
  cases hfile : a.gInstream with
  | none =>
    rw [hfile] at h
    exact Or.inl ⟨rfl, (Option.some.inj h).symm⟩
  | some file =>
    rw [hfile] at h
    obtain ⟨⟨tok, stream⟩, hstart, hb⟩ := Option.map_eq_some_iff.mp h
    exact Or.inr ⟨file, tok, stream, rfl, hstart, hb.symm⟩

/-- The tokenizer only takes from the input. -/
theorem kept_tokenStart (hinput : ∀ file, a.gInstream = some file → n ≤ file) (h : a.tokenStart = some b) :
    Kept n m a b := by
  rcases tokenStart_cases h with ⟨-, rfl⟩ | ⟨file, tok, stream, hfile, -, rfl⟩
  · exact .refl n m b
  · have hle := hinput file hfile
    have hstreams (other : ℕ) (hother : other < n) :
        Function.update a.streams file stream other = a.streams other :=
      Function.update_of_ne (by omega) _ _
    exact ⟨rfl, le_rfl, hstreams, fun _ _ => rfl, Or.inl rfl⟩

/-- And notices the end of no file that goes on. -/
theorem atEnd_streams (h : a.tokenStart = some b) (hend : AtEnd (a.streams fp)) : AtEnd (b.streams fp) := by
  rcases tokenStart_cases h with ⟨-, rfl⟩ | ⟨file, tok, stream, -, hstart, rfl⟩
  · exact hend
  · show AtEnd (Function.update a.streams file stream fp)
    by_cases hown : fp = file
    · subst hown
      rw [Function.update_self]
      exact atEnd_tokenStart hend hstart
    · rw [Function.update_of_ne hown]
      exact hend

/-- The next string changes neither files nor the stack. -/
theorem kept_nextString (n m : ℕ) {string : Option (List Octet)}
    (h : a.nextString commands = some (string, b)) : Kept n m a b := by
  rw [nextString] at h
  cases hinput : a.gInstream with
  | none =>
    rw [hinput] at h
    obtain ⟨⟨answer, outside⟩, -, hafter⟩ := Option.map_eq_some_iff.mp h
    obtain ⟨-, rfl⟩ := Prod.mk.inj hafter
    exact (Kept.refl n m a).withOutside _
  | some file =>
    rw [hinput] at h
    obtain ⟨-, rfl⟩ := Prod.mk.inj (Option.some.inj h)
    exact (Kept.refl n m a).withTok _

section Command

variable (hload : ∀ fname a r b, load fname a = some (r, b) → Kept a.sys.files a.sys.files a b)

include hload

/-- Loading a script from a command. -/
theorem kept_inpfileload (h : a.inpfileload commands load = some b) : Kept a.sys.files a.sys.files a b := by
  rw [inpfileload] at h
  obtain ⟨⟨fname, next⟩, hstring, h⟩ := Option.bind_eq_some_iff.mp h
  have hnext : Kept a.sys.files a.sys.files a next := kept_nextString _ _ hstring
  cases fname with
  | none =>
    obtain rfl := Option.some.inj h
    exact hnext
  | some fname =>
    obtain ⟨⟨r, after⟩, hloaded, hfree⟩ := Option.bind_eq_some_iff.mp h
    have hkept := hnext.trans ((hload fname next r after hloaded).mono hnext.files hnext.files)
    cases hinput : next.gInstream with
    | none =>
      rw [hinput] at hfree
      obtain rfl := Option.some.inj hfree
      exact hkept
    | some file =>
      rw [hinput] at hfree
      obtain ⟨outside, -, rfl⟩ := Option.map_eq_some_iff.mp hfree
      exact hkept.withOutside outside

/-- A command. -/
theorem kept_inpcommand (h : a.inpcommand commands load = some b) : Kept a.sys.files a.sys.files a b := by
  have hdone {after : Interpreter σ} (hkept : Kept a.sys.files a.sys.files a after)
      (hsetto : (commands.setto after.sys.outside).map (fun outside => after.withOutside outside) = some b) :
      Kept a.sys.files a.sys.files a b := by
    obtain ⟨outside, -, rfl⟩ := Option.map_eq_some_iff.mp hsetto
    exact hkept.withOutside outside
  rw [inpcommand] at h
  obtain ⟨⟨name, next⟩, hstring, h⟩ := Option.bind_eq_some_iff.mp h
  have hnext : Kept a.sys.files a.sys.files a next := kept_nextString _ _ hstring
  cases name with
  | none => exact hdone hnext h
  | some name =>
    obtain ⟨after, hcommand, hsetto⟩ := Option.bind_eq_some_iff.mp h
    refine hdone ?_ hsetto
    split at hcommand
    · exact hnext.trans ((kept_inpfileload hload hcommand).mono hnext.files hnext.files)
    · obtain ⟨⟨argi, outside⟩, -, rfl⟩ := Option.map_eq_some_iff.mp hcommand
      exact (hnext.withTok _).withOutside outside

/-- The loop leaves everything before its own file alone, and does not close that file, whose end it read. -/
theorem kept_loadLoop (hfp : fp < a.sys.files) (hinput : ∃ file, fp ≤ file ∧ a.gInstream = some file)
    (hend : AtEnd (a.streams fp)) (h : loadLoop commands load fp fuel a = some b) :
    Kept fp (fp + 1) a b ∧ (b.streams fp).eof = true ∧ (b.streams fp).rest = [] := by
  induction fuel generalizing a with
  | zero => exact absurd h (Option.some_ne_none b).symm
  | succ fuel ih =>
    rw [loadLoop] at h
    by_cases heof : (a.streams fp).eof = true
    · rw [if_pos heof] at h
      obtain rfl := Option.some.inj h
      exact ⟨.refl fp (fp + 1) a, heof, hend heof⟩
    · rw [if_neg heof] at h
      obtain ⟨scanned, hstart, h⟩ := Option.bind_eq_some_iff.mp h
      obtain ⟨next, hcommand, h⟩ := Option.bind_eq_some_iff.mp h
      obtain ⟨file, hfile, hfrom⟩ := hinput
      have hscanned : Kept fp (fp + 1) a scanned := kept_tokenStart
        (fun other hother => by rw [hfrom] at hother; exact Option.some.inj hother ▸ hfile) hstart
      have hcommanded := kept_inpcommand hload hcommand
      have hbound := Nat.lt_of_lt_of_le hfp hscanned.files
      have hkept := hscanned.trans (hcommanded.mono hbound.le hbound)
      have hend' : AtEnd (next.streams fp) := by
        rw [hcommanded.streams fp hbound]
        exact atEnd_streams hstart hend
      have hinput' : ∃ file, fp ≤ file ∧ next.gInstream = some file := by
        rcases hkept.input with hsame | hother
        · exact ⟨file, hfile, hsame.trans hfrom⟩
        · exact hother
      obtain ⟨hrest, hread⟩ := ih (Nat.lt_of_lt_of_le hfp hkept.files) hinput' hend' h
      exact ⟨hkept.trans hrest, hread⟩

end Command

/-- No file was opened, and nothing else changed. -/
structure Unopened (before after : Interpreter σ) : Prop where
  files : after.sys.files = before.sys.files
  closed : after.sys.closed = before.sys.closed
  streams : after.streams = before.streams
  input : after.gInstream = before.gInstream
  ptok : after.ptok = before.ptok

/-- A file was opened: it is the next one, it is read from its start, and nothing else changed. -/
structure Opened (before : Interpreter σ) (fp : ℕ) (after : Interpreter σ) : Prop where
  file : fp = before.sys.files
  files : after.sys.files = before.sys.files + 1
  closed : after.sys.closed = before.sys.closed
  streams : ∀ file < before.sys.files, after.streams file = before.streams file
  start : AtEnd (after.streams fp)
  input : after.gInstream = before.gInstream
  ptok : after.ptok = before.ptok

/-- Opening the file, which the two cases of the answer describe. -/
theorem openFile_cases (os : Os σ) (paths : Paths) (fname : List Octet) (a : Interpreter σ) :
    match a.openFile os paths fname with
    | (none, b) => Unopened a b
    | (some fp, b) => Opened a fp b := by
  have hnew : Paths.NewPath a.sys _ (paths.getfullpath os fname a.sys).1 := Paths.newPath_getfullpath fname a.sys
  rw [openFile]
  cases hpath : paths.getfullpath os fname a.sys with
  | mk answer sys =>
    rw [hpath] at hnew
    cases answer with
    | none =>
      have haccount := hnew.failed rfl
      exact ⟨haccount.files, haccount.closed, rfl, rfl, rfl⟩
    | some found =>
      obtain ⟨fullpath, block⟩ := found
      have hblock := hnew.found fullpath block rfl
      cases hfopen : sys.fopen os fullpath with
      | mk answer sys' =>
        cases answer with
        | none =>
          have haccount := System.sameAccount_fopen hfopen
          simp only [hfopen]
          exact ⟨haccount.files.trans hblock.files, haccount.closed.trans hblock.closed, rfl, rfl, rfl⟩
        | some opened =>
          obtain ⟨fp, content⟩ := opened
          have hopened := System.oneFile_fopen hfopen
          have hfile : fp = a.sys.files := hopened.file.trans hblock.files
          simp only [hfopen]
          refine ⟨hfile, hopened.files.trans (congrArg (· + 1) hblock.files),
            hopened.closed.trans hblock.closed, fun other hother => ?_, fun heof => ?_, rfl, rfl⟩
          · exact Function.update_of_ne (by omega) _ _
          · have hnot : (Function.update a.streams fp (.ofContent content) fp).eof = false := by
              rw [Function.update_self]
              rfl
            exact absurd (hnot.symm.trans heof) Bool.false_ne_true

/-- No file was opened. -/
theorem openFile_none {fname : List Octet} (h : a.openFile os paths fname = (none, b)) : Unopened a b := by
  have hcases := openFile_cases os paths fname a
  rwa [h] at hcases

/-- A file was opened. -/
theorem openFile_some {fname : List Octet} (h : a.openFile os paths fname = (some fp, b)) :
    Opened a fp b := by
  have hcases := openFile_cases os paths fname a
  rwa [h] at hcases

/-- A call restored the interpreter: the input and the position in the token stack are what they were, the
file that it opened was read to its end and closed once, and of the files before that one there is left what
there was, and none was closed. -/
structure Restored (before after : Interpreter σ) : Prop where
  input : after.gInstream = before.gInstream
  ptok : after.ptok = before.ptok
  closed : before.sys.files < after.sys.files →
    after.sys.closed.count before.sys.files = before.sys.closed.count before.sys.files + 1
  read : before.sys.files < after.sys.files →
    (after.streams before.sys.files).eof = true ∧ (after.streams before.sys.files).rest = []
  others : ∀ file < before.sys.files,
    after.streams file = before.streams file ∧ after.sys.closed.count file = before.sys.closed.count file

/-- The token stack is full, and there is a file to load. -/
def StackFull (os : Os σ) (paths : Paths) (fname : List Octet) (st : Interpreter σ) : Prop :=
  ntokens - 1 ≤ st.ptok ∧ (st.openFile os paths fname).1.isSome

/-- There was room on the token stack. -/
theorem tokenpush_eq_some (h : a.tokenpush = some b) :
    a.ptok < ntokens - 1 ∧ b = { a with ptok := a.ptok + 1 } := by
  rw [tokenpush] at h
  split at h
  · rename_i hroom
    exact ⟨hroom, (Option.some.inj h).symm⟩
  · exact absurd h (Option.some_ne_none b).symm

/-- A call that opened no file. -/
theorem restored_of_unopened (h : Unopened a b) : Kept a.sys.files a.sys.files a b ∧ Restored a b := by
  have hnone : ¬a.sys.files < b.sys.files := h.files.le.not_gt
  constructor
  · exact ⟨h.ptok, h.files.ge, fun file _ => by rw [h.streams], fun file _ => by rw [h.closed], Or.inl h.input⟩
  · exact ⟨h.input, h.ptok, fun hlt => absurd hlt hnone, fun hlt => absurd hlt hnone,
      fun file _ => ⟨by rw [h.streams], by rw [h.closed]⟩⟩

/-- A call that finds the token stack full returns with the file as the input. -/
theorem not_restored_of_full (h : Opened a fp b) :
    Kept a.sys.files a.sys.files a { b with gInstream := some fp } ∧
      ¬Restored a { b with gInstream := some fp } := by
  refine ⟨⟨h.ptok, ?_, h.streams, fun file _ => by rw [h.closed],
    Or.inr ⟨fp, h.file.ge, rfl⟩⟩, fun hrestored => ?_⟩
  · show a.sys.files ≤ b.sys.files
    rw [h.files]
    exact Nat.le_succ _
  · have hopened : a.sys.files < b.sys.files := by rw [h.files]; exact Nat.lt_succ_self _
    have hclosed := hrestored.closed hopened
    rw [h.closed] at hclosed
    omega

/-- A call whose loop ends at the end of its file. -/
theorem restored_of_loadLoop {pushed looped : Interpreter σ} (h : Opened a fp b)
    (hpushed : ({ b with gInstream := some fp } : Interpreter σ).tokenpush = some pushed)
    (hloop : Kept fp (fp + 1) pushed looped ∧
      (looped.streams fp).eof = true ∧ (looped.streams fp).rest = []) :
    let after : Interpreter σ :=
      { looped.tokenpop with gInstream := b.gInstream, sys := looped.sys.fclose fp }
    Kept a.sys.files a.sys.files a after ∧ Restored a after := by
  intro after
  obtain ⟨hkept, hread⟩ := hloop
  obtain ⟨-, rfl⟩ := tokenpush_eq_some hpushed
  obtain rfl := h.file
  have hptok : after.ptok = a.ptok := by
    show looped.ptok - 1 = a.ptok
    rw [hkept.ptok, ← h.ptok]
    exact Nat.add_sub_cancel b.ptok 1
  have hfiles : a.sys.files ≤ after.sys.files := by
    have hle : a.sys.files + 1 ≤ looped.sys.files := h.files ▸ hkept.files
    exact Nat.le_of_succ_le hle
  have hstreams (file : ℕ) (hfile : file < a.sys.files) : after.streams file = a.streams file :=
    (hkept.streams file hfile).trans (h.streams file hfile)
  have hlooped (file : ℕ) (hfile : file < a.sys.files + 1) :
      looped.sys.closed.count file = a.sys.closed.count file := by
    rw [← h.closed]
    exact hkept.closed file hfile
  have hclosed (file : ℕ) (hfile : file < a.sys.files) :
      after.sys.closed.count file = a.sys.closed.count file := by
    show (looped.sys.closed ++ [a.sys.files]).count file = _
    rw [List.count_append, hlooped file (by omega), List.count_singleton,
      if_neg (by simpa using hfile.ne'), Nat.add_zero]
  refine ⟨⟨hptok, hfiles, hstreams, hclosed, Or.inl h.input⟩, h.input, hptok, fun _ => ?_, fun _ => hread,
    fun file hfile => ⟨hstreams file hfile, hclosed file hfile⟩⟩
  show (looped.sys.closed ++ [a.sys.files]).count a.sys.files = _
  rw [List.count_append, hlooped a.sys.files (Nat.lt_succ_self _), List.count_singleton_self]

/-- What every call leaves behind. -/
theorem loadFile_spec {fname : List Octet} {r : ℤ}
    (h : a.loadFile os paths commands fuel fname = some (r, b)) :
    Kept a.sys.files a.sys.files a b ∧ (Restored a b ↔ ¬StackFull os paths fname a) := by
  induction fuel generalizing a b fname r with
  | zero => exact absurd h (Option.some_ne_none _).symm
  | succ fuel ih =>
    rw [loadFile] at h
    cases hopen : a.openFile os paths fname with
    | mk answer opened =>
      rw [hopen] at h
      cases answer with
      | none =>
        obtain ⟨-, rfl⟩ := Prod.mk.inj (Option.some.inj h)
        obtain ⟨hkept, hrestored⟩ := restored_of_unopened (openFile_none hopen)
        refine ⟨hkept, iff_of_true hrestored fun hfull => ?_⟩
        have hsome := hfull.2
        rw [hopen] at hsome
        exact Bool.false_ne_true hsome
      | some fp =>
        have hopened := openFile_some hopen
        simp only [] at h
        cases hpush : ({ opened with gInstream := some fp } : Interpreter σ).tokenpush with
        | none =>
          rw [hpush] at h
          obtain ⟨-, rfl⟩ := Prod.mk.inj (Option.some.inj h)
          obtain ⟨hkept, hrestored⟩ := not_restored_of_full hopened
          refine ⟨hkept, iff_of_false hrestored (not_not.mpr ⟨?_, by rw [hopen]; rfl⟩)⟩
          rw [← hopened.ptok]
          by_contra hroom
          rw [tokenpush, if_pos (Nat.not_le.mp hroom)] at hpush
          exact absurd hpush (Option.some_ne_none _)
        | some pushed =>
          rw [hpush] at h
          obtain ⟨looped, hloop, hafter⟩ := Option.map_eq_some_iff.mp h
          obtain ⟨-, rfl⟩ := Prod.mk.inj hafter
          have hroom := tokenpush_eq_some hpush
          have hfp : fp < pushed.sys.files := by
            rw [hroom.2]
            show fp < opened.sys.files
            rw [hopened.files, hopened.file]
            exact Nat.lt_succ_self _
          have hread := kept_loadLoop (fun fname a r b h => (ih h).1) hfp ⟨fp, le_rfl, by rw [hroom.2]⟩
            (by rw [hroom.2]; exact hopened.start) hloop
          obtain ⟨hkept, hrestored⟩ := restored_of_loadLoop hopened hpush hread
          refine ⟨hkept, iff_of_true hrestored fun hfull => ?_⟩
          have hptok : opened.ptok < ntokens - 1 := hroom.1
          rw [hopened.ptok] at hptok
          exact absurd hfull.1 (Nat.not_le.mpr hptok)

/-- **Which calls of `load_file` restore the interpreter.** When a call returns, whatever scripts were loaded
on the way, it has restored the interpreter exactly when there was room on the token stack, or no file to
load. -/
theorem load_file_restores_iff (os : Os σ) (paths : Paths) (commands : Commands σ)
    (fuel : ℕ) (fname : List Octet)
    (st : Interpreter σ) {r : ℤ} {st' : Interpreter σ}
    (h : st.loadFile os paths commands fuel fname = some (r, st')) :
    Restored st st' ↔ ¬StackFull os paths fname st :=
  (loadFile_spec h).2

/-- Memory, and this file under every name. -/
def scriptFile (content : List Octet) : Os Unit :=
  ⟨fun _ => (true, ()), fun _ _ => (true, ()), fun _ _ => (some content, ())⟩

/-- Commands without any effect. -/
def noCommands : Commands Unit := ⟨fun _ _ _ => some (0, ()), some, fun _ => some (none, ()), some⟩

/-- The script `load-file /s`, under the name `/s`. -/
def selfScript : List Octet := loadFileName ++ [0x20, 0x2f, 0x73]

/-- The interpreter before any script. -/
def atKeyboard : Interpreter Unit := ⟨⟨(), 0, [], 0, []⟩, fun _ => ⟨[], false⟩, none, fun _ => ⟨[], 0, []⟩, 0⟩

/-- The interpreter before the hundredth call for a script that loads itself: the input is the hundredth file,
and each file was read to its end by the only line. -/
def atDepth : Interpreter Unit where
  sys := ⟨(), 99, List.range 99, 99, []⟩
  streams _ := ⟨[], true⟩
  gInstream := some 98
  tokenstack _ := ⟨[0, 10], 2, lineBuffer (loadFileName ++ [0, 0x2f, 0x73])⟩
  ptok := 99

/-- That call leaves the interpreter with the file that it opened as the input. -/
theorem load_file_leaves_input : ¬∀ (os : Os Unit) (paths : Paths) (commands : Commands Unit) (fuel : ℕ)
    (fname : List Octet) (st : Interpreter Unit) (r : ℤ) (st' : Interpreter Unit),
    st.loadFile os paths commands fuel fname = some (r, st') → Restored st st' := by
  intro h
  have hinput : (atDepth.loadFile (scriptFile selfScript) ⟨[], []⟩ noCommands 1 [0x2f, 0x73]).map
      (fun after => after.2.gInstream) = some (some 99) := by decide
  obtain ⟨⟨r, st'⟩, hload, hfile⟩ := Option.map_eq_some_iff.mp hinput
  have hrestored := (h _ _ _ _ _ _ r st' hload).input
  rw [hfile] at hrestored
  exact absurd hrestored (by decide)

/-- Two scripts: `/a` loads `/b` and then gives one more command, and `/b` gives one command. -/
def nestedScripts : Os Unit :=
  ⟨fun _ => (true, ()), fun _ _ => (true, ()), fun path _ =>
    (some (if path = [0x2f, 0x61] then loadFileName ++ [0x20, 0x2f, 0x62, newline, 0x77] else [0x77]), ())⟩

/-- A call for `/a` opens both scripts, and closes them in the other order. -/
theorem load_file_restores_nested : ∃ r st',
    atKeyboard.loadFile nestedScripts ⟨[], []⟩ noCommands 5 [0x2f, 0x61] = some (r, st') ∧
      st'.sys.files = 2 ∧ st'.sys.closed = [1, 0] ∧
      (Restored atKeyboard st' ↔ ¬StackFull nestedScripts ⟨[], []⟩ [0x2f, 0x61] atKeyboard) := by
  have hclosed : (atKeyboard.loadFile nestedScripts ⟨[], []⟩ noCommands 5 [0x2f, 0x61]).map
      (fun after => (after.2.sys.files, after.2.sys.closed)) = some (2, [1, 0]) := by decide
  obtain ⟨⟨r, st'⟩, hload, hafter⟩ := Option.map_eq_some_iff.mp hclosed
  obtain ⟨hfiles, hclosed⟩ := Prod.mk.inj hafter
  exact ⟨r, st', hload, hfiles, hclosed, load_file_restores_iff _ _ _ _ _ _ hload⟩

end Interpreter

end V120.Tui
