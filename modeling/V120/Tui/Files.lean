import V120.Common.Texts

/-!
# Memory and files of the browser, and full paths

The blocks that `malloc` and `calloc` hand out and the files that `fopen` opens are numbered in order, and
what was freed and closed is remembered, so that it can be counted. What is outside the process answers
each call in whatever way it likes.
-/

namespace V120.Tui

open V120.Common

/-- The end of a line. -/
def newline : Octet := 0x0a

/-- What is outside answers, in a state of its own: whether memory is there, whether there is a file under
a name, and what is in a file that could be opened. -/
structure Os (σ : Type*) where
  malloc : σ → Bool × σ
  access : List Octet → σ → Bool × σ
  fopen : List Octet → σ → Option (List Octet) × σ

/-- The blocks and files of the process so far, and which of them were given back. -/
structure System (σ : Type*) where
  outside : σ
  blocks : ℕ
  freed : List ℕ
  files : ℕ
  closed : List ℕ

namespace System

variable {σ : Type*} (os : Os σ)

/-- `malloc` and `calloc`. -/
def malloc (sys : System σ) : Option ℕ × System σ :=
  match os.malloc sys.outside with
  | (false, outside) => (none, { sys with outside := outside })
  | (true, outside) => (some sys.blocks, { sys with outside := outside, blocks := sys.blocks + 1 })

/-- `free`. -/
def free (block : ℕ) (sys : System σ) : System σ := { sys with freed := sys.freed ++ [block] }

/-- `access`. -/
def access (path : List Octet) (sys : System σ) : Bool × System σ :=
  let (found, outside) := os.access path sys.outside
  (found, { sys with outside := outside })

/-- `fopen` for reading. -/
def fopen (path : List Octet) (sys : System σ) : Option (ℕ × List Octet) × System σ :=
  match os.fopen path sys.outside with
  | (none, outside) => (none, { sys with outside := outside })
  | (some content, outside) =>
    (some (sys.files, content), { sys with outside := outside, files := sys.files + 1 })

/-- `fclose`. -/
def fclose (file : ℕ) (sys : System σ) : System σ := { sys with closed := sys.closed ++ [file] }

end System

/-- The home directory and the search paths. -/
structure Paths where
  gHome : List Octet
  gPath : List (List Octet)

namespace Paths

variable {σ : Type*} (os : Os σ) (paths : Paths)

/-- A string in a new block. -/
def newString (text : List Octet) (sys : System σ) : Option (List Octet × ℕ) × System σ :=
  let (block, sys) := sys.malloc os
  (block.map fun block => (text, block), sys)

/-- `home2root`. -/
def home2root (path : List Octet) (sys : System σ) : Option (List Octet × ℕ) × System σ :=
  if path.head? = some 0x7e then
    if path[1]? ≠ some 0x2f then (none, sys)
    else newString os ((paths.gHome ++ 0x2f :: path.drop 2).take 126) sys
  else if path.head? = some 0x2f then newString os path sys
  else (none, sys)

/-- The loop of `unk2root` over the search paths: the first under which there is a file. -/
def searchPaths (filename : List Octet) : List (List Octet) → System σ → Option (List Octet) × System σ
  | [], sys => (none, sys)
  | p :: gPath, sys =>
    let buf := (p ++ 0x2f :: filename).take 511
    match sys.access os buf with
    | (true, sys) => (some buf, sys)
    | (false, sys) => searchPaths filename gPath sys

/-- `unk2root`. -/
def unk2root (filename : List Octet) (sys : System σ) : Option (List Octet × ℕ) × System σ :=
  let buf := filename.take 511
  let (found, sys) :=
    match sys.access os buf with
    | (true, sys) => (some buf, sys)
    | (false, sys) => searchPaths os filename paths.gPath sys
  match found with
  | none => (none, sys)
  | some buf => newString os buf sys

/-- `getfullpath`: the full path in a new block. -/
def getfullpath (filename : List Octet) (sys : System σ) : Option (List Octet × ℕ) × System σ :=
  if filename.head? = some 0x7e ∨ filename.head? = some 0x2f then paths.home2root os filename sys
  else paths.unk2root os filename sys

end Paths

/-- Nothing was allocated, freed, opened or closed from one state to another. -/
structure System.SameAccount {σ : Type*} (before after : System σ) : Prop where
  blocks : after.blocks = before.blocks
  freed : after.freed = before.freed
  files : after.files = before.files
  closed : after.closed = before.closed

/-- One block was allocated, and nothing else happened. -/
structure System.OneBlock {σ : Type*} (before after : System σ) (block : ℕ) : Prop where
  block : block = before.blocks
  blocks : after.blocks = before.blocks + 1
  freed : after.freed = before.freed
  files : after.files = before.files
  closed : after.closed = before.closed

/-- One file was opened, and nothing else happened. -/
structure System.OneFile {σ : Type*} (before after : System σ) (file : ℕ) : Prop where
  file : file = before.files
  blocks : after.blocks = before.blocks
  freed : after.freed = before.freed
  files : after.files = before.files + 1
  closed : after.closed = before.closed

namespace System

variable {σ : Type*} {os : Os σ} {a b c : System σ} {block : ℕ}

theorem SameAccount.refl (a : System σ) : a.SameAccount a := ⟨rfl, rfl, rfl, rfl⟩

theorem SameAccount.trans (h : a.SameAccount b) (h' : b.SameAccount c) : a.SameAccount c :=
  ⟨h'.blocks.trans h.blocks, h'.freed.trans h.freed, h'.files.trans h.files, h'.closed.trans h.closed⟩

/-- Something that does not count, and then a block. -/
theorem SameAccount.trans_oneBlock (h : a.SameAccount b) (h' : b.OneBlock c block) : a.OneBlock c block :=
  ⟨h'.block.trans h.blocks, h'.blocks.trans (congrArg (· + 1) h.blocks), h'.freed.trans h.freed,
    h'.files.trans h.files, h'.closed.trans h.closed⟩

/-- `malloc` fails. -/
theorem sameAccount_malloc (h : a.malloc os = (none, b)) : a.SameAccount b := by
  rw [malloc] at h
  split at h
  · obtain ⟨-, rfl⟩ := Prod.mk.inj h
    exact ⟨rfl, rfl, rfl, rfl⟩
  · exact absurd (Prod.mk.inj h).1 (Option.some_ne_none _)

/-- `malloc` succeeds. -/
theorem oneBlock_malloc (h : a.malloc os = (some block, b)) : a.OneBlock b block := by
  rw [malloc] at h
  split at h
  · exact absurd (Prod.mk.inj h).1 (Option.some_ne_none _).symm
  · obtain ⟨hblock, rfl⟩ := Prod.mk.inj h
    exact ⟨(Option.some.inj hblock).symm, rfl, rfl, rfl, rfl⟩

/-- `fopen` fails. -/
theorem sameAccount_fopen {path : List Octet} (h : a.fopen os path = (none, b)) : a.SameAccount b := by
  rw [fopen] at h
  split at h
  · obtain ⟨-, rfl⟩ := Prod.mk.inj h
    exact ⟨rfl, rfl, rfl, rfl⟩
  · exact absurd (Prod.mk.inj h).1 (Option.some_ne_none _)

/-- `fopen` succeeds. -/
theorem oneFile_fopen {path content : List Octet} {file : ℕ}
    (h : a.fopen os path = (some (file, content), b)) : a.OneFile b file := by
  rw [fopen] at h
  split at h
  · exact absurd (Prod.mk.inj h).1 (Option.some_ne_none _).symm
  · obtain ⟨hanswer, rfl⟩ := Prod.mk.inj h
    exact ⟨(Prod.mk.inj (Option.some.inj hanswer)).1.symm, rfl, rfl, rfl, rfl⟩

/-- `access` allocates nothing. -/
theorem sameAccount_access (path : List Octet) (a : System σ) : a.SameAccount (a.access os path).2 :=
  ⟨rfl, rfl, rfl, rfl⟩

end System

namespace Paths

variable {σ : Type*} {os : Os σ} {paths : Paths} {a b : System σ} {text : List Octet} {block : ℕ}

/-- A full path, if there is one, is in a block of its own, and nothing else is allocated. -/
structure NewPath (a b : System σ) (answer : Option (List Octet × ℕ)) : Prop where
  failed : answer = none → a.SameAccount b
  found : ∀ path block, answer = some (path, block) → a.OneBlock b block

/-- A new string. -/
theorem newPath_newString (text : List Octet) (a : System σ) :
    NewPath a (newString os text a).2 (newString os text a).1 := by
  rw [newString]
  cases hmalloc : a.malloc os with
  | mk answer b =>
    cases answer with
    | none =>
      exact ⟨fun _ => System.sameAccount_malloc hmalloc, fun _ _ h => absurd h (Option.some_ne_none _).symm⟩
    | some block =>
      refine ⟨fun h => absurd h (Option.some_ne_none _), fun path block' h => ?_⟩
      obtain ⟨-, rfl⟩ := Prod.mk.inj (Option.some.inj h)
      exact System.oneBlock_malloc hmalloc

/-- No path. -/
theorem NewPath.none (h : a.SameAccount b) : NewPath a b none :=
  ⟨fun _ => h, fun _ _ h => absurd h (Option.some_ne_none _).symm⟩

/-- Looking for a file first allocates nothing. -/
theorem NewPath.of_sameAccount {c : System σ} {answer : Option (List Octet × ℕ)} (h : a.SameAccount b)
    (h' : NewPath b c answer) : NewPath a c answer :=
  ⟨fun hnone => h.trans (h'.failed hnone),
    fun path block hsome => h.trans_oneBlock (h'.found path block hsome)⟩

/-- The search allocates nothing. -/
theorem sameAccount_searchPaths (filename : List Octet) (gPath : List (List Octet)) (a : System σ) :
    a.SameAccount (searchPaths os filename gPath a).2 := by
  induction gPath generalizing a with
  | nil => exact .refl a
  | cons p gPath ih =>
    have haccess : a.SameAccount (a.access os ((p ++ 0x2f :: filename).take 511)).2 :=
      System.sameAccount_access _ a
    rw [searchPaths]
    cases hfound : a.access os ((p ++ 0x2f :: filename).take 511) with
    | mk found b =>
      rw [hfound] at haccess
      cases found with
      | true => exact haccess
      | false => exact haccess.trans (ih b)

/-- `getfullpath` allocates the path, or nothing. -/
theorem newPath_getfullpath (filename : List Octet) (a : System σ) :
    NewPath a (paths.getfullpath os filename a).2 (paths.getfullpath os filename a).1 := by
  rw [getfullpath]
  split
  · rw [home2root]
    split
    · split
      · exact .none (.refl a)
      · exact newPath_newString _ a
    · split
      · exact newPath_newString _ a
      · exact .none (.refl a)
  · rw [unk2root]
    have haccess : a.SameAccount (a.access os (filename.take 511)).2 := System.sameAccount_access _ a
    cases hfound : a.access os (filename.take 511) with
    | mk found b =>
      rw [hfound] at haccess
      cases found with
      | true => exact .of_sameAccount haccess (newPath_newString _ b)
      | false =>
        have hsearch : a.SameAccount (searchPaths os filename paths.gPath b).2 :=
          haccess.trans (sameAccount_searchPaths filename paths.gPath b)
        cases hsearched : searchPaths os filename paths.gPath b with
        | mk answer c =>
          rw [hsearched] at hsearch
          simp only [hsearched]
          cases answer with
          | none => exact .none hsearch
          | some buf => exact .of_sameAccount hsearch (newPath_newString buf c)

end Paths

end V120.Tui
