import V120.Tui.LoadFile

/-!
# What scripts keep

The commands of a script may depend on the state in which the script is loaded. Whatever else the program is,
a property of it that every command keeps, and every call for memory and files, is kept by a script with all
the scripts it loads.
-/

namespace V120.Tui

open V120.Common

/-- The calls for memory and files keep a property of what is outside. -/
structure Os.Keeps {σ : Type*} (os : Os σ) (inv : σ → Prop) : Prop where
  malloc : ∀ s, inv s → inv (os.malloc s).2
  access : ∀ path s, inv s → inv (os.access path s).2
  fopen : ∀ path s, inv s → inv (os.fopen path s).2

/-- The commands keep a property of the rest of the program. -/
structure Commands.Keeps {σ : Type*} (commands : Commands σ) (inv : σ → Prop) : Prop where
  other : ∀ name tok s n t, inv s → commands.other name tok s = some (n, t) → inv t
  setto : ∀ s t, inv s → commands.setto s = some t → inv t
  mbgets : ∀ s answer t, inv s → commands.mbgets s = some (answer, t) → inv t
  freeStatic : ∀ s t, inv s → commands.freeStatic s = some t → inv t

section Files

variable {σ : Type*} {os : Os σ} {inv : σ → Prop} {sys : System σ}

/-- `malloc`. -/
theorem System.keeps_malloc (hos : os.Keeps inv) (h : inv sys.outside) : inv (sys.malloc os).2.outside := by
  have hmalloc := hos.malloc sys.outside h
  rw [System.malloc]
  split
  · rename_i hanswer
    rwa [hanswer] at hmalloc
  · rename_i hanswer
    rwa [hanswer] at hmalloc

/-- `fopen`. -/
theorem System.keeps_fopen (hos : os.Keeps inv) (path : List Octet) (h : inv sys.outside) :
    inv (sys.fopen os path).2.outside := by
  have hfopen := hos.fopen path sys.outside h
  rw [System.fopen]
  split
  · rename_i hanswer
    rwa [hanswer] at hfopen
  · rename_i hanswer
    rwa [hanswer] at hfopen

namespace Paths

/-- A new string. -/
theorem keeps_newString (hos : os.Keeps inv) (text : List Octet) (h : inv sys.outside) :
    inv (newString os text sys).2.outside :=
  System.keeps_malloc hos h

/-- `home2root`. -/
theorem keeps_home2root (hos : os.Keeps inv) (paths : Paths) (path : List Octet) (h : inv sys.outside) :
    inv (paths.home2root os path sys).2.outside := by
  rw [home2root]
  split_ifs
  · exact h
  · exact keeps_newString hos _ h
  · exact keeps_newString hos _ h
  · exact h

/-- The search along the paths. -/
theorem keeps_searchPaths (hos : os.Keeps inv) (filename : List Octet) (gPath : List (List Octet))
    (h : inv sys.outside) : inv (searchPaths os filename gPath sys).2.outside := by
  induction gPath generalizing sys with
  | nil => exact h
  | cons p gPath ih =>
    have haccess : inv (sys.access os ((p ++ 0x2f :: filename).take 511)).2.outside := hos.access _ _ h
    rw [searchPaths]
    split
    · rename_i hanswer
      rwa [hanswer] at haccess
    · rename_i hanswer
      rw [hanswer] at haccess
      exact ih haccess

/-- `unk2root`. -/
theorem keeps_unk2root (hos : os.Keeps inv) (paths : Paths) (filename : List Octet) (h : inv sys.outside) :
    inv (paths.unk2root os filename sys).2.outside := by
  have haccess : inv (sys.access os (filename.take 511)).2.outside := hos.access _ _ h
  cases hanswer : sys.access os (filename.take 511) with
  | mk answer after =>
    rw [hanswer] at haccess
    simp only [unk2root, hanswer]
    cases answer with
    | true => exact keeps_newString hos _ haccess
    | false =>
      have hfound := keeps_searchPaths hos filename paths.gPath haccess
      dsimp only
      split
      · exact hfound
      · exact keeps_newString hos _ hfound

/-- `getfullpath`. -/
theorem keeps_getfullpath (hos : os.Keeps inv) (paths : Paths) (filename : List Octet) (h : inv sys.outside) :
    inv (paths.getfullpath os filename sys).2.outside := by
  rw [getfullpath]
  split_ifs
  · exact keeps_home2root hos paths filename h
  · exact keeps_unk2root hos paths filename h

end Paths

end Files

namespace Interpreter

section Loading

variable {σ : Type*} (os : Os σ) (paths : Paths)

/-- `load_file`, when the commands of a script depend on the state in which it is loaded. -/
def loadFileAt (commandsAt : Interpreter σ → Commands σ) :
    ℕ → List Octet → Interpreter σ → Option (ℤ × Interpreter σ)
  | 0, _, _ => none
  | fuel + 1, fname, before =>
    match before.openFile os paths fname with
    | (none, st) => some (-1, st)
    | (some fp, st) =>
      let fpsave := st.gInstream
      match ({ st with gInstream := some fp } : Interpreter σ).tokenpush with
      | none => some (-1, { st with gInstream := some fp })
      | some st => (loadLoop (commandsAt before) (loadFileAt commandsAt fuel) fp fuel st).map fun st =>
          let st := { st.tokenpop with gInstream := fpsave }
          (0, { st with sys := st.sys.fclose fp })

end Loading

variable {σ : Type*} {os : Os σ} {paths : Paths} {inv : σ → Prop} {commands : Commands σ}
  {load : List Octet → Interpreter σ → Option (ℤ × Interpreter σ)} {a b : Interpreter σ}

/-- A call for a script keeps a property. -/
def LoadKeeps (load : List Octet → Interpreter σ → Option (ℤ × Interpreter σ)) (inv : σ → Prop) : Prop :=
  ∀ fname a r b, inv a.sys.outside → load fname a = some (r, b) → inv b.sys.outside

/-- The next string of a script or from the keyboard. -/
theorem keeps_nextString (hcommands : commands.Keeps inv) {string : Option (List Octet)}
    (h : inv a.sys.outside) (hstep : a.nextString commands = some (string, b)) : inv b.sys.outside := by
  rw [nextString] at hstep
  cases hinput : a.gInstream with
  | none =>
    rw [hinput] at hstep
    obtain ⟨⟨answer, outside⟩, hasked, hafter⟩ := Option.map_eq_some_iff.mp hstep
    obtain ⟨-, rfl⟩ := Prod.mk.inj hafter
    exact hcommands.mbgets _ _ _ h hasked
  | some file =>
    rw [hinput] at hstep
    obtain ⟨-, rfl⟩ := Prod.mk.inj (Option.some.inj hstep)
    exact h

/-- Loading a script from a command. -/
theorem keeps_inpfileload (hcommands : commands.Keeps inv) (hload : LoadKeeps load inv) (h : inv a.sys.outside)
    (hstep : a.inpfileload commands load = some b) : inv b.sys.outside := by
  rw [inpfileload] at hstep
  obtain ⟨⟨fname, next⟩, hstring, hstep⟩ := Option.bind_eq_some_iff.mp hstep
  have hnext := keeps_nextString hcommands h hstring
  cases fname with
  | none => exact Option.some.inj hstep ▸ hnext
  | some fname =>
    obtain ⟨⟨r, after⟩, hloaded, hfree⟩ := Option.bind_eq_some_iff.mp hstep
    have hafter := hload fname next r after hnext hloaded
    cases hinput : next.gInstream with
    | none =>
      rw [hinput] at hfree
      exact Option.some.inj hfree ▸ hafter
    | some file =>
      rw [hinput] at hfree
      obtain ⟨outside, houtside, rfl⟩ := Option.map_eq_some_iff.mp hfree
      exact hcommands.freeStatic _ _ hafter houtside

/-- A command. -/
theorem keeps_inpcommand (hcommands : commands.Keeps inv) (hload : LoadKeeps load inv) (h : inv a.sys.outside)
    (hstep : a.inpcommand commands load = some b) : inv b.sys.outside := by
  have hdone {after : Interpreter σ} (hafter : inv after.sys.outside)
      (hsetto : (commands.setto after.sys.outside).map (fun outside => after.withOutside outside) = some b) :
      inv b.sys.outside := by
    obtain ⟨outside, houtside, rfl⟩ := Option.map_eq_some_iff.mp hsetto
    exact hcommands.setto _ _ hafter houtside
  rw [inpcommand] at hstep
  obtain ⟨⟨name, next⟩, hstring, hstep⟩ := Option.bind_eq_some_iff.mp hstep
  have hnext := keeps_nextString hcommands h hstring
  cases name with
  | none => exact hdone hnext hstep
  | some name =>
    obtain ⟨after, hcommand, hsetto⟩ := Option.bind_eq_some_iff.mp hstep
    refine hdone ?_ hsetto
    split at hcommand
    · exact keeps_inpfileload hcommands hload hnext hcommand
    · obtain ⟨⟨argi, outside⟩, hother, rfl⟩ := Option.map_eq_some_iff.mp hcommand
      exact hcommands.other _ _ _ _ _ hnext hother

/-- A line of a script. -/
theorem keeps_tokenStart (h : inv a.sys.outside) (hstep : a.tokenStart = some b) : inv b.sys.outside := by
  rcases tokenStart_cases hstep with ⟨-, rfl⟩ | ⟨file, tok, stream, -, -, rfl⟩
  · exact h
  · exact h

/-- The loop of a script. -/
theorem keeps_loadLoop (hcommands : commands.Keeps inv) (hload : LoadKeeps load inv) {fp fuel : ℕ}
    (h : inv a.sys.outside) (hloop : loadLoop commands load fp fuel a = some b) : inv b.sys.outside := by
  induction fuel generalizing a with
  | zero => cases hloop
  | succ fuel ih =>
    rw [loadLoop] at hloop
    split_ifs at hloop with heof
    · exact Option.some.inj hloop ▸ h
    · obtain ⟨scanned, hstart, hloop⟩ := Option.bind_eq_some_iff.mp hloop
      obtain ⟨next, hcommand, hloop⟩ := Option.bind_eq_some_iff.mp hloop
      exact ih (keeps_inpcommand hcommands hload (keeps_tokenStart h hstart) hcommand) hloop

/-- Opening a script. -/
theorem keeps_openFile (hos : os.Keeps inv) (fname : List Octet) (h : inv a.sys.outside) :
    inv (a.openFile os paths fname).2.sys.outside := by
  have hpath := Paths.keeps_getfullpath hos paths fname h
  rw [openFile]
  cases hfull : paths.getfullpath os fname a.sys with
  | mk answer sys =>
    rw [hfull] at hpath
    cases answer with
    | none => exact hpath
    | some found =>
      obtain ⟨fullpath, block⟩ := found
      have hopened := System.keeps_fopen hos fullpath hpath
      cases hfopen : sys.fopen os fullpath with
      | mk answer sys' =>
        rw [hfopen] at hopened
        simp only [hfopen]
        cases answer with
        | none => exact hopened
        | some opened => exact hopened

/-- A script with all that it loads. -/
theorem keeps_loadFileAt (hos : os.Keeps inv) {commandsAt : Interpreter σ → Commands σ}
    (hcommands : ∀ st, inv st.sys.outside → (commandsAt st).Keeps inv) (fuel : ℕ) :
    LoadKeeps (loadFileAt os paths commandsAt fuel) inv := by
  induction fuel with
  | zero =>
    intro fname a r b h hload
    cases hload
  | succ fuel ih =>
    intro fname a r b h hload
    have hopen : inv (a.openFile os paths fname).2.sys.outside := keeps_openFile hos fname h
    rw [loadFileAt] at hload
    cases hanswer : a.openFile os paths fname with
    | mk answer opened =>
      rw [hanswer] at hload hopen
      cases answer with
      | none =>
        obtain ⟨-, rfl⟩ := Prod.mk.inj (Option.some.inj hload)
        exact hopen
      | some fp =>
        simp only [] at hload
        cases hpush : ({ opened with gInstream := some fp } : Interpreter σ).tokenpush with
        | none =>
          rw [hpush] at hload
          obtain ⟨-, rfl⟩ := Prod.mk.inj (Option.some.inj hload)
          exact hopen
        | some pushed =>
          rw [hpush] at hload
          obtain ⟨looped, hloop, hafter⟩ := Option.map_eq_some_iff.mp hload
          obtain ⟨-, rfl⟩ := Prod.mk.inj hafter
          have hpushed : inv pushed.sys.outside := by
            obtain ⟨-, rfl⟩ := tokenpush_eq_some hpush
            exact hopen
          have hlooped : inv looped.sys.outside := keeps_loadLoop (hcommands a h) ih hpushed hloop
          exact hlooped

end Interpreter

end V120.Tui
