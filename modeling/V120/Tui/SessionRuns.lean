import Mathlib.Data.Finset.Lattice.Fold
import Mathlib.Order.Lattice.Nat
import V120.Tui.SessionCommands

/-!
# What every key and every script keeps

Each function of the tables keeps the buffers of a session in order, so a script does, and so does the program,
until it ends with everything freed once.
-/

namespace V120.Tui

open V120.Common V120.Vme

namespace Session

variable {σ : Type*} {s t : Session σ} {nodes : List Ptr} {p q : Ptr} {ttnrows : ℤ} {room : ℕ} {card card' : Card}

/-- The program goes on, and all is as it should be. -/
def Running (ttnrows : ℤ) (room : ℕ) (p : Ptr) (s : Session σ) : Prop :=
  s.exited = false ∧ ∃ nodes, s.Sound ttnrows room p nodes

/-- Or it has ended, with every buffer freed. -/
def InOrder (ttnrows : ℤ) (room : ℕ) (p : Ptr) (s : Session σ) : Prop :=
  s.Running ttnrows room p ∨ s.exited = true ∧ s.Cleaned

/-- What is outside does not matter. -/
theorem Running.withOutside (h : s.Running ttnrows room p) (outside : σ) :
    (s.withOutside outside).Running ttnrows room p := by
  obtain ⟨hexited, nodes, hsound⟩ := h
  exact ⟨hexited, nodes, hsound.withOutside outside⟩

/-- Nothing is changed by `m_setto`. -/
theorem setto_eq {pbuf : Option Ptr} (h : setto pbuf s = some t) : t = s := by
  rw [setto] at h
  split_ifs at h
  · exact (Option.some.inj h).symm
  · obtain ⟨p, -, h⟩ := Option.bind_eq_some_iff.mp h
    obtain ⟨mode, -, h⟩ := Option.bind_eq_some_iff.mp h
    cases mode with
    | bumode => exact (Option.some.inj h).symm
    | brmode a =>
      obtain ⟨-, -, rfl⟩ := Option.map_eq_some_iff.mp h
      rfl

section Scripts

variable {console : Console σ}

/-- A script keeps the program in order. -/
theorem keeps_scriptCommands (hset : Setting console ttnrows room) (pbuf : Option Ptr) :
    (scriptCommands console pbuf).Keeps (Running ttnrows room p) := by
  constructor
  · rintro name tok s n t ⟨hexited, nodes, hsound⟩ hother
    obtain ⟨⟨src', u⟩, hstep, hafter⟩ := Option.map_eq_some_iff.mp hother
    have hu : u = t := by
      cases src' with
      | keyboard => exact (Prod.mk.inj hafter).2
      | script tok => exact (Prod.mk.inj hafter).2
    subst hu
    rcases hsound.stringlookup_cases hset hstep with ⟨hsound', hexited'⟩ | ⟨hsrc, -⟩
    · exact ⟨hexited'.trans hexited, hsound'⟩
    · cases hsrc
  · intro s t h hsetto
    exact setto_eq hsetto ▸ h
  · intro s answer t h hasked
    obtain ⟨⟨answer', outside⟩, -, hafter⟩ := Option.map_eq_some_iff.mp hasked
    obtain ⟨-, rfl⟩ := Prod.mk.inj hafter
    exact h.withOutside outside
  · intro s t h hfree
    obtain ⟨outside, -, rfl⟩ := Option.map_eq_some_iff.mp hfree
    exact h.withOutside outside

/-- The calls for memory and files keep the program in order. -/
theorem keeps_osOf (os : Os σ) : (osOf os).Keeps (Running ttnrows room p) :=
  ⟨fun _ h => h.withOutside _, fun _ _ h => h.withOutside _, fun _ _ h => h.withOutside _⟩

end Scripts

section Start

variable {console : Console σ} {rcdatadir : List Octet} {configLen : BitVec 64}

/-- Before the buffer list is made there are browsers only. -/
structure Opening (ttnrows : ℤ) (room : ℕ) (s : Session σ) : Prop extends Stocked ttnrows room s where
  listed : ∃ nodes, s.bufs.Listed nodes
  noList : ∀ q, s.bufs.modeAt q ≠ some .bumode
  exited : s.exited = false

/-- The browser for the registers of a crate. -/
theorem Opening.ctrlnew (h : s.Opening ttnrows room) (hset : Setting console ttnrows room)
    (hscreen : FillsScreen ttnrows (ctrlRegion configLen)) (hroom : room ≤ configLen.toNat)
    {crate : Fin 16 × (ℕ → Octet)} (hstep : s.ctrlnew console rcdatadir configLen crate = some t) :
    t.Opening ttnrows room := by
  have hrnm := hset.rnms (v120Rnm rcdatadir) s.outside
  have hstocked := h.toStocked.withOutside (console.rnmparse (v120Rnm rcdatadir) s.outside).2
  obtain ⟨new, u, hu, hstocked', hexited, hcase⟩ :=
    hstocked.browsernew console hscreen hroom hset.least hrnm crate.1 crate.2
  have hstep' : ((s.withOutside (console.rnmparse (v120Rnm rcdatadir) s.outside).2).browsernew console
      (ctrlRegion configLen) (console.rnmparse (v120Rnm rcdatadir) s.outside).1 crate.1 crate.2).map Prod.snd =
        some t := hstep
  rw [hu] at hstep'
  obtain rfl := Option.some.inj hstep'
  obtain ⟨nodes, hlisted⟩ := h.listed
  cases new with
  | false =>
    have hbufs : u.bufs = s.bufs := hcase
    exact ⟨hstocked', ⟨nodes, hbufs ▸ hlisted⟩, hbufs ▸ h.noList, hexited.trans h.exited⟩
  | true =>
    obtain ⟨q, -, hnew⟩ := hcase
    obtain ⟨-, -, hmode, hmodes⟩ := Buffers.modes_of_buffernew hnew
    refine ⟨hstocked', hlisted.buffernew hnew, fun r => ?_, hexited.trans h.exited⟩
    by_cases hr : r = q
    · rw [hr, hmode]
      exact fun heq => by cases heq
    · rw [hmodes r hr]
      exact h.noList r

/-- The browsers of all crates. -/
theorem Opening.foldlM_ctrlnew (h : s.Opening ttnrows room) (hset : Setting console ttnrows room)
    (hscreen : FillsScreen ttnrows (ctrlRegion configLen)) (hroom : room ≤ configLen.toNat)
    {crates : List (Fin 16 × (ℕ → Octet))}
    (hstep : crates.foldlM (Session.ctrlnew console rcdatadir configLen) s = some t) : t.Opening ttnrows room := by
  induction crates generalizing s with
  | nil => exact Option.some.inj hstep ▸ h
  | cons crate crates ih =>
    rw [List.foldlM_cons] at hstep
    obtain ⟨u, hu, hstep⟩ := Option.bind_eq_some_iff.mp hstep
    exact ih (h.ctrlnew hset hscreen hroom hu) hstep

/-- The buffer list becomes the head. -/
theorem Opening.bufferlistStart (h : s.Opening ttnrows room) (hstep : s.bufferlistStart console = some t)
    (hlist : t.bufs.modeAt p = some .bumode) : t.Running ttnrows room p := by
  obtain ⟨nodes, hlisted⟩ := h.listed
  rw [Session.bufferlistStart] at hstep
  cases hanswer : console.newBuffer s.bufs.heap.keys s.outside with
  | mk answer outside =>
    rw [hanswer] at hstep
    cases answer with
    | none =>
      obtain rfl := Option.some.inj hstep
      exact absurd hlist (h.noList p)
    | some q =>
      obtain ⟨bufs, hbufs, rfl⟩ := Option.map_eq_some_iff.mp hstep
      obtain ⟨u, hnew, rfl⟩ := Option.map_eq_some_iff.mp hbufs
      obtain ⟨hfresh, hrows, hmode, hmodes⟩ := Buffers.modes_of_buffernew hnew
      obtain ⟨-, hlinks, hhead, -, -, -, -, -, -, hheap⟩ := Buffers.buffernew_spec hlisted.list hnew
      have hp : p = q := by
        by_contra hne
        exact h.noList p ((hmodes p hne).symm.trans hlist)
      subst hp
      refine ⟨h.exited, p :: nodes, ⟨⟨hlinks, fun r hr => ?_, ?_⟩, hhead, hmode,
        ⟨p, List.mem_cons_self, hhead⟩, Int.le_refl 0, Int.natCast_pos.mpr (Nat.succ_pos _)⟩, ?_⟩
      · rcases (hheap r).mp hr with rfl | hr
        · exact List.mem_cons_self
        · exact List.mem_cons_of_mem _ (hlisted.live r hr)
      · exact hrows.symm ▸ hlisted.rows
      · have hgone : s.bufs.modeAt p = none := Buffers.modeAt_of_notMem hfresh
        have hnone : s.cards p = none := by
          rw [Option.eq_none_iff_forall_ne_some]
          intro card hcard
          cases hgone.symm.trans (h.mode_of_card hcard)
        have hbeside : Beside p s { s with
            bufs := { u with cpos := 0, gBuffer := u.gHeadbuf }
            log := s.log ++ [Block.buffer p].map .acquire
            outside := outside } := ⟨hrows, hmodes, fun _ _ => rfl⟩
        refine h.beside hbeside (fun a => ?_) (fun card hcard => ?_)
          (h.account_insert hgone (has_buffer hmode hnone) hbeside rfl)
        · refine iff_of_false (fun hbrowser => ?_) ?_
          · cases hmode.symm.trans hbrowser
          · rintro ⟨card, hcard, -⟩
            cases hnone.symm.trans hcard
        · cases hnone.symm.trans hcard

/-- The program starts in order, if there is memory for the buffer list. -/
theorem running_start (hset : Setting console ttnrows room)
    (hscreen : FillsScreen ttnrows (ctrlRegion configLen)) (hroom : room ≤ configLen.toNat)
    {crates : List (Fin 16 × (ℕ → Octet))} {outside : σ}
    (hstart : start console rcdatadir configLen crates ttnrows outside = some s)
    (hlist : s.bufs.modeAt p = some .bumode) : s.Running ttnrows room p := by
  obtain ⟨opened, hopened, hstart⟩ := Option.bind_eq_some_iff.mp hstart
  obtain ⟨listed, hlisted, hgoto⟩ := Option.bind_eq_some_iff.mp hstart
  obtain ⟨bufs, hbufs, rfl⟩ := Option.map_eq_some_iff.mp hgoto
  have hrows := hset.rows
  have hempty : Opening ttnrows room
      (⟨⟨∅, none, none, none, 0, ttnrows⟩, fun _ => none, [], false, outside⟩ : Session σ) := by
    have hnoMode (q : Ptr) : Buffers.modeAt ⟨∅, none, none, none, 0, ttnrows⟩ q = none := rfl
    refine ⟨⟨rfl, fun q a => ?_, fun q card hcard => ?_, HeldExactly.nil fun b => ?_⟩, ⟨[], rfl, ?_, ?_⟩,
      fun q hmode => ?_, rfl⟩
    · refine iff_of_false (fun hmode => ?_) ?_
      · cases (hnoMode q).symm.trans hmode
      · rintro ⟨card, hcard, -⟩
        cases hcard
    · cases hcard
    · exact not_owns (hnoMode b.owner) rfl
    · exact fun q hq => absurd hq Finmap.notMem_empty
    · exact hrows.trans' (by decide)
    · cases (hnoMode q).symm.trans hmode
  have hmoved := Buffers.moved_buffergoto hbufs
  have hopening := hempty.foldlM_ctrlnew hset hscreen hroom hopened
  obtain ⟨hexited, nodes, hsound⟩ := hopening.bufferlistStart hlisted ((hmoved.modeAt p).symm.trans hlist)
  obtain ⟨q, hq, hcurrent⟩ := hsound.current
  obtain ⟨gone, hgone, hheaded⟩ := hsound.toHeaded.goto hq
  rw [← hcurrent] at hgone
  obtain rfl := Option.some.inj (hgone.symm.trans hbufs)
  exact ⟨hexited, nodes, hsound.withBufs hheaded hmoved⟩

end Start

end Session

namespace Program

variable {σ : Type*} {os : Os σ} {paths : Paths} {console : Console σ} {fuel : ℕ} {p : Ptr} {ttnrows : ℤ}
  {room : ℕ} {a b : Program σ}

/-- `load_file`. -/
theorem running_loadFile (hset : Session.Setting console ttnrows room) :
    Interpreter.LoadKeeps (loadFile os paths console fuel) (Session.Running ttnrows room p) :=
  Interpreter.keeps_loadFileAt (Session.keeps_osOf os) (fun _ _ => Session.keeps_scriptCommands hset _) fuel

/-- A command of the minibuffer. -/
theorem inOrder_inpcommand (hset : Session.Setting console ttnrows room) (h : a.session.Running ttnrows room p)
    (hstep : inpcommand os paths console fuel a = some b) : b.session.InOrder ttnrows room p := by
  have hscripts : Interpreter.LoadKeeps (loadFile os paths console fuel) (Session.Running ttnrows room p) :=
    running_loadFile hset
  rw [inpcommand] at hstep
  cases hinput : a.gInstream with
  | some file =>
    rw [hinput] at hstep
    exact Or.inl (Interpreter.keeps_inpcommand (Session.keeps_scriptCommands hset _) hscripts h hstep)
  | none =>
    rw [hinput] at hstep
    have hdone {after : Program σ} (hafter : after.session.InOrder ttnrows room p)
        (hsetto : (Session.setto a.session.bufs.gBuffer after.sys.outside).map
          (fun outside => after.withOutside outside) = some b) : b.session.InOrder ttnrows room p := by
      obtain ⟨outside, houtside, rfl⟩ := Option.map_eq_some_iff.mp hsetto
      exact Session.setto_eq houtside ▸ hafter
    dsimp only at hstep
    rw [Interpreter.inpcommand] at hstep
    obtain ⟨⟨name, next⟩, hstring, hstep⟩ := Option.bind_eq_some_iff.mp hstep
    have hnext : next.sys.outside.Running ttnrows room p := by
      have hasked : a.nextString (Session.scriptCommands console a.session.bufs.gBuffer) =
          some (name, next) := hstring
      exact Interpreter.keeps_nextString (Session.keeps_scriptCommands hset _) h hasked
    cases name with
    | none => exact hdone (Or.inl hnext) hstep
    | some name =>
      obtain ⟨after, hcommand, hsetto⟩ := Option.bind_eq_some_iff.mp hstep
      refine hdone ?_ hsetto
      split at hcommand
      · -- the name of the file is asked for like any other string
        have hload : next.inpfileload (Session.scriptCommands console a.session.bufs.gBuffer)
            (loadFile os paths console fuel) = some after := hcommand
        exact Or.inl (Interpreter.keeps_inpfileload (Session.keeps_scriptCommands hset _) hscripts hnext hload)
      · obtain ⟨⟨argi, s⟩, hother, rfl⟩ := Option.map_eq_some_iff.mp hcommand
        obtain ⟨⟨src', t⟩, hlookup, hafter⟩ := Option.map_eq_some_iff.mp hother
        obtain ⟨-, rfl⟩ := Prod.mk.inj hafter
        obtain ⟨hexited, nodes, hsound⟩ := hnext
        rcases hsound.stringlookup_cases hset hlookup with ⟨hsound', hexited'⟩ | ⟨-, hended⟩
        · exact Or.inl ⟨hexited'.trans hexited, hsound'⟩
        · exact Or.inr hended

/-- The session behind a command. -/
theorem session_afterwards (a : Program σ) (next : Source × Session σ) : (a.afterwards next).session = next.2 := by
  obtain ⟨src, s⟩ := next
  cases src with
  | keyboard => rfl
  | script tok => rfl

/-- A key. -/
theorem inOrder_processinput (hset : Session.Setting console ttnrows room) (h : a.session.Running ttnrows room p)
    {c : ℤ} (hstep : processinput os paths console fuel c a = some b) : b.session.InOrder ttnrows room p := by
  obtain ⟨hexited, nodes, hsound⟩ := h
  rw [processinput] at hstep
  split_ifs at hstep
  · exact Or.inl (Option.some.inj hstep ▸ ⟨hexited, nodes, hsound⟩)
  · split at hstep
    · exact inOrder_inpcommand hset ⟨hexited, nodes, hsound⟩ hstep
    · obtain ⟨⟨src', t⟩, hfn, rfl⟩ := Option.map_eq_some_iff.mp hstep
      rw [session_afterwards]
      rcases hsound.inpFn_cases hset hfn with ⟨hsound', hexited'⟩ | ⟨-, hended⟩
      · exact Or.inl ⟨hexited'.trans hexited, hsound'⟩
      · exact Or.inr hended
    · obtain ⟨⟨src', t⟩, hlookup, rfl⟩ := Option.map_eq_some_iff.mp hstep
      rw [session_afterwards]
      obtain ⟨hsound', hexited'⟩ := hsound.keylookup hset hlookup
      exact Or.inl ⟨hexited'.trans hexited, hsound'⟩

/-- A pass of the loop. -/
theorem inOrder_pass (hset : Session.Setting console ttnrows room) (h : a.session.InOrder ttnrows room p)
    {c : ℤ} (hstep : pass os paths console fuel a c = some b) : b.session.InOrder ttnrows room p := by
  rw [pass] at hstep
  split_ifs at hstep with hexited
  · exact Option.some.inj hstep ▸ h
  · obtain ⟨-, -, hstep⟩ := Option.bind_eq_some_iff.mp hstep
    rcases h with hrunning | ⟨hended, -⟩
    · exact inOrder_processinput hset hrunning hstep
    · exact absurd hended hexited

/-- The loop. -/
theorem inOrder_ttyMain (hset : Session.Setting console ttnrows room) (keys : List ℤ)
    (h : a.session.InOrder ttnrows room p) (hrun : ttyMain os paths console fuel keys a = some b) :
    b.session.InOrder ttnrows room p := by
  induction keys generalizing a with
  | nil => exact Option.some.inj hrun ▸ h
  | cons c keys ih =>
    rw [ttyMain, List.foldlM_cons] at hrun
    obtain ⟨next, hpass, hrun⟩ := Option.bind_eq_some_iff.mp hrun
    exact ih (inOrder_pass hset h hpass) hrun

end Program

/-- A user who enters the words in turn, at a system with memory for every buffer and without RNM files. -/
def wordConsole : Console (List (List Octet)) where
  mbgets words := some (words.head?, words.tail)
  mbgetval words := some (none, words)
  rnmparse _ words := (none, words)
  mapVme _ _ words := (some fun _ => 0, words)
  newBuffer used words := (some (used.sup id + 1), words)
  freeStatic words := some words
  uninitialised := ⟨0, 0, 0, 0, 0, 0, smallRegion, none⟩
  fresh used words p hp hused := by
    have hle : p ≤ used.sup id := Finset.le_sup (f := id) hused
    obtain rfl := Option.some.inj hp
    exact Nat.not_succ_le_self _ hle

/-- There are no files. -/
def noFiles : Os (List (List Octet)) where
  malloc words := (true, words)
  access _ words := (false, words)
  fopen _ words := (none, words)

/-- One crate, with registers that are all zero. -/
def oneCrate : List (Fin 16 × (ℕ → Octet)) := ((List.finRange 16).take 1).map fun crate => (crate, fun _ => 0)

/-- One crate and its registers are a setting for a terminal of 24 rows. -/
theorem setting_wordConsole : Session.Setting wordConsole 24 128 := by
  refine ⟨by decide, by decide, by decide, by decide, fun name outside rnm hrnm => ?_⟩
  cases hrnm

end V120.Tui
