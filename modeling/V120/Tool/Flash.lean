import V120.Common.BlockReads
import V120.Tool.Arguments
import Mathlib.Tactic.ByContra
import Mathlib.Tactic.SplitIfs

/-!
# The flash upgrade of the `v120` tool

`flash.c` unlocks and erases the flash and then hands it the upgrade file, page by page, in macro
commands to the board. What the board makes of a command, and how its macro register reads afterwards,
is a parameter. The 256 words of a page are taken by their octets. Reading the file does not fail.
-/

namespace V120.Tool

open V120.Common

/-- `REFLASH_BUFSIZE`. -/
def reflashBufsize : ℕ := 1024

/-- `buf` of `reflash`: 256 words, by their octets. -/
abbrev ReflashBuf := Fin reflashBufsize → BitVec 8

/-- `MACRO_ERASE_CMD`. -/
def macroEraseCmd : BitVec 32 := 0x83
/-- `MACRO_REFLASH_CMD`. -/
def macroReflashCmd : BitVec 32 := 0x84
/-- `MACRO_UNLOCK_CMD`. -/
def macroUnlockCmd : BitVec 32 := 0x86

/-- The configuration registers a macro takes its arguments from: `buf` and `mp[0]`. -/
structure ConfigRegs where
  buf : ReflashBuf
  mp0 : BitVec 32

/-- The board: a command on these registers makes the macro register read as a list of values, one a
look, and after them as it never settles. -/
structure Board (σ : Type*) where
  run : BitVec 32 → ConfigRegs → σ → List (BitVec 32) × σ

/-- The registers, what the macro register is going to read as, the commands so far with the registers
they found, and the board. -/
structure World (σ : Type*) where
  regs : ConfigRegs
  readings : List (BitVec 32)
  commands : List (BitVec 32 × ConfigRegs)
  outside : σ

section Upgrade

variable {σ : Type*} (board : Board σ)

/-- `v120_macro_write`. -/
def v120MacroWrite (val : BitVec 32) (w : World σ) : World σ :=
  let (readings, outside) := board.run val w.regs w.outside
  { w with readings := readings, commands := w.commands ++ [(val, w.regs)], outside := outside }

/-- The values `v120_macro_wait` reads until it knows: 0, or -1 for a failure, or it waits for ever. -/
def macroResult : List (BitVec 32) → Option ℤ
  | [] => none
  | val :: later =>
    if val = 0x8000 then some (-1)
    else if val ≠ 0 then macroResult later
    else some 0

/-- `v120_macro_wait`. -/
def v120MacroWait (w : World σ) : Option ℤ := macroResult w.readings

/-- `unlock_flash`. -/
def unlockFlash (w : World σ) : Option ℤ × World σ :=
  let w := v120MacroWrite board macroUnlockCmd w
  (v120MacroWait w, w)

/-- `erase_flash`. -/
def eraseFlash (macroOff : BitVec 32) (w : World σ) : Option ℤ × World σ :=
  let w := v120MacroWrite board (macroEraseCmd + macroOff) w
  (v120MacroWait w, w)

/-- The `do` loop of `reflash`, for so many turns at most: the result of the last macro, unless it waits
for ever. -/
def reflashLoop (macroOff : BitVec 32) :
    ℕ → BitVec 32 → ReflashBuf → InputStream (BitVec 8) → World σ → Option ℤ × World σ
  | 0, _, _, _, w => (none, w)
  | turns + 1, pgno, buf, fp, w =>
    let (octets, fp) := fp.read reflashBufsize
    let buf := fill octets buf
    let w := v120MacroWrite board (macroReflashCmd + macroOff) { w with regs := ⟨buf, pgno⟩ }
    match v120MacroWait w with
    | none => (none, w)
    | some result =>
      if result < 0 then (some result, w)
      else if fp.eof then (some result, w)
      else reflashLoop macroOff turns (pgno + 1) buf fp w

/-- `reflash`. Every turn but the last takes a whole page from the file, so there is at most one turn
more than there are whole pages. -/
def reflash (macroOff : BitVec 32) (uninitialised : ReflashBuf) (fp : InputStream (BitVec 8)) (w : World σ) :
    Option ℤ × World σ :=
  reflashLoop board macroOff (fp.rest.length / reflashBufsize + 1) 0 uninitialised fp w

/-- What `v120_flash_upgrade_` finds: whether a crate and a file name were given, whether the crate opens,
and the file, if it opens. -/
structure UpgradeSetup where
  crate : ℤ
  named : Bool
  opened : Bool
  file : Option (List (BitVec 8))

/-- `v120_flash_upgrade_`, or `none` when it waits for a macro for ever. -/
def v120FlashUpgrade_ (setup : UpgradeSetup) (macroOff : BitVec 32) (uninitialised : ReflashBuf) (w : World σ) :
    Option ℤ × World σ :=
  if setup.crate < 0 ∨ setup.crate = allCrates then (some exitFailure, w)
  else if !setup.named then (some exitFailure, w)
  else if !setup.opened then (some exitFailure, w)
  else
    match setup.file with
    | none => (some exitFailure, w)
    | some content =>
      let unlocked := unlockFlash board w
      match unlocked.1 with
      | none => (none, unlocked.2)
      | some result =>
        if result < 0 then (some exitFailure, unlocked.2)
        else
          let erased := eraseFlash board macroOff unlocked.2
          match erased.1 with
          | none => (none, erased.2)
          | some result =>
            if result < 0 then (some exitFailure, erased.2)
            else
              let flashed := reflash board macroOff uninitialised (.ofContent content) erased.2
              (flashed.1.map fun result => if result < 0 then exitFailure else exitSuccess, flashed.2)

/-- `v120_flash_upgrade`. -/
def v120FlashUpgrade (setup : UpgradeSetup) (uninitialised : ReflashBuf) (w : World σ) : Option ℤ × World σ :=
  v120FlashUpgrade_ board setup 0 uninitialised w

/-- `v120_lflash_upgrade`. -/
def v120LflashUpgrade (setup : UpgradeSetup) (uninitialised : ReflashBuf) (w : World σ) : Option ℤ × World σ :=
  v120FlashUpgrade_ board setup 0x20 uninitialised w

/-- Every macro the board is given ends, and without a failure. -/
def Board.Succeeds : Prop := ∀ val regs s, macroResult (board.run val regs s).1 = some 0

end Upgrade

section Pages

variable {σ : Type*} {board : Board σ}

/-- A macro that was just started ends. -/
theorem macroWait_macroWrite (hsucceeds : board.Succeeds) (val : BitVec 32) (w : World σ) :
    v120MacroWait (v120MacroWrite board val w) = some 0 := hsucceeds _ _ _

/-- The command of the macro that writes page `k` of a file. -/
def pageCommand (macroOff : BitVec 32) (content : List (BitVec 8)) (buf : ReflashBuf) (k : ℕ) :
    BitVec 32 × ConfigRegs :=
  (macroReflashCmd + macroOff, ⟨bufferBefore content buf (k + 1), BitVec.ofNat 32 k⟩)

/-- While the macros succeed, the loop hands over one page a turn, up to the read that comes up short. -/
theorem reflashLoop_commands (hsucceeds : board.Succeeds) (macroOff : BitVec 32) (content : List (BitVec 8))
    (buf : ReflashBuf) {whole : ℕ} (hwhole : content.length / reflashBufsize = whole) {turns k : ℕ}
    (hk : k ≤ whole) (hturns : k + turns = whole + 1) (w : World σ) :
    (reflashLoop board macroOff turns (BitVec.ofNat 32 k) (bufferBefore content buf k)
        ⟨content.drop (reflashBufsize * k), false⟩ w).1 = some 0 ∧
      (reflashLoop board macroOff turns (BitVec.ofNat 32 k) (bufferBefore content buf k)
        ⟨content.drop (reflashBufsize * k), false⟩ w).2.commands =
        w.commands ++ (List.range' k turns).map (pageCommand macroOff content buf) := by
  induction turns generalizing k w with
  | zero => omega
  | succ turns ih =>
    let w₁ := v120MacroWrite board (macroReflashCmd + macroOff)
      { w with regs := ⟨bufferBefore content buf (k + 1), BitVec.ofNat 32 k⟩ }
    have hcommands : w₁.commands = w.commands ++ [pageCommand macroOff content buf k] := rfl
    have hturn : reflashLoop board macroOff (turns + 1) (BitVec.ofNat 32 k) (bufferBefore content buf k)
        ⟨content.drop (reflashBufsize * k), false⟩ w =
        if (false || decide ((content.drop (reflashBufsize * k)).length < reflashBufsize)) = true then
          (some 0, w₁)
        else reflashLoop board macroOff turns (BitVec.ofNat 32 k + 1) (bufferBefore content buf (k + 1))
          ⟨(content.drop (reflashBufsize * k)).drop reflashBufsize,
            false || decide ((content.drop (reflashBufsize * k)).length < reflashBufsize)⟩ w₁ := by
      rw [reflashLoop]
      dsimp only [InputStream.read]
      rw [macroWait_macroWrite hsucceeds]
      rfl
    rw [hturn, Bool.false_or, List.length_drop]
    by_cases hlast : k = whole
    · -- the read came up short
      have hshort : content.length - reflashBufsize * k < reflashBufsize := by
        rw [hlast, ← hwhole, ← Nat.mod_eq_sub_mul_div]
        exact Nat.mod_lt _ (by decide)
      obtain rfl : turns = 0 := by omega
      rw [if_pos (decide_eq_true hshort)]
      exact ⟨rfl, hcommands⟩
    · have hfull : ¬ content.length - reflashBufsize * k < reflashBufsize := by
        have hnext : k + 1 ≤ content.length / reflashBufsize := by omega
        have hpages : reflashBufsize * (k + 1) ≤ content.length :=
          Nat.le_trans (Nat.mul_le_mul_left _ hnext) (Nat.mul_div_le content.length reflashBufsize)
        rw [Nat.mul_succ] at hpages
        omega
      have hpgno : BitVec.ofNat 32 k + 1 = BitVec.ofNat 32 (k + 1) := (BitVec.ofNat_add k 1).symm
      rw [decide_eq_false hfull, if_neg Bool.false_ne_true, hpgno, List.drop_drop, ← Nat.mul_succ]
      obtain ⟨hresult, hlater⟩ := @ih (k + 1) (by omega) (by omega) w₁
      refine ⟨hresult, ?_⟩
      rw [hlater, hcommands, List.append_assoc, List.range'_succ]
      rfl

/-- The commands of a whole upgrade: the flash is unlocked and erased, and then there is a page for each
whole block of the file and one for what is left. -/
theorem v120FlashUpgrade_commands (hsucceeds : board.Succeeds) {crate : ℤ} (hlow : 0 ≤ crate)
    (hhigh : crate ≤ 15) (macroOff : BitVec 32) (content : List (BitVec 8)) (buf : ReflashBuf) (w : World σ) :
    (v120FlashUpgrade_ board ⟨crate, true, true, some content⟩ macroOff buf w).1 = some exitSuccess ∧
      ∃ regs regs', (v120FlashUpgrade_ board ⟨crate, true, true, some content⟩ macroOff buf w).2.commands =
        w.commands ++ (macroUnlockCmd, regs) :: (macroEraseCmd + macroOff, regs') ::
          (List.range (content.length / reflashBufsize + 1)).map (pageCommand macroOff content buf) := by
  have hcrate : ¬ (crate < 0 ∨ crate = allCrates) := by
    rintro (hneg | hall)
    · omega
    · rw [hall, allCrates] at hhigh
      omega
  let unlocked := v120MacroWrite board macroUnlockCmd w
  let erased := v120MacroWrite board (macroEraseCmd + macroOff) unlocked
  have hloop := reflashLoop_commands hsucceeds macroOff content buf rfl (Nat.zero_le _) (Nat.zero_add _) erased
  have hcall : v120FlashUpgrade_ board ⟨crate, true, true, some content⟩ macroOff buf w =
      ((reflash board macroOff buf (.ofContent content) erased).1.map fun result =>
        if result < 0 then exitFailure else exitSuccess,
        (reflash board macroOff buf (.ofContent content) erased).2) := by
    unfold v120FlashUpgrade_ unlockFlash eraseFlash
    rw [if_neg hcrate]
    simp only [macroWait_macroWrite hsucceeds]
    rfl
  obtain ⟨hresult, hcommands⟩ := hloop
  have hreflash : reflash board macroOff buf (.ofContent content) erased =
      reflashLoop board macroOff (content.length / reflashBufsize + 1) (BitVec.ofNat 32 0)
        (bufferBefore content buf 0) ⟨content.drop (reflashBufsize * 0), false⟩ erased := rfl
  rw [hcall, hreflash, hresult]
  refine ⟨rfl, w.regs, unlocked.regs, ?_⟩
  dsimp only
  rw [hcommands, List.range_eq_range']
  change ((w.commands ++ [_]) ++ [_]) ++ _ = _
  rw [List.append_assoc, List.append_assoc]
  rfl

/-- The pages that were handed to the reflash macro, by their number and the contents of `buf`. -/
def reflashedPages (macroOff : BitVec 32) (w : World σ) : List (BitVec 32 × ReflashBuf) :=
  (w.commands.filter fun command => command.1 == macroReflashCmd + macroOff).map fun command =>
    (command.2.mp0, command.2.buf)

/-- An upgrade with a file, on a board that was given no command before. -/
def upgraded (board : Board σ) (crate : ℤ) (macroOff : BitVec 32) (buf : ReflashBuf) (regs : ConfigRegs)
    (s : σ) (content : List (BitVec 8)) : World σ :=
  (v120FlashUpgrade_ board ⟨crate, true, true, some content⟩ macroOff buf ⟨regs, [], [], s⟩).2

/-- The pages of an upgrade. -/
theorem reflashedPages_upgraded (hsucceeds : board.Succeeds) {crate : ℤ} (hlow : 0 ≤ crate)
    (hhigh : crate ≤ 15) {macroOff : BitVec 32} (hoff : macroOff = 0 ∨ macroOff = 0x20) (buf : ReflashBuf)
    (regs : ConfigRegs) (s : σ) (content : List (BitVec 8)) :
    reflashedPages macroOff (upgraded board crate macroOff buf regs s content) =
      (List.range (content.length / reflashBufsize + 1)).map fun k =>
        (BitVec.ofNat 32 k, bufferBefore content buf (k + 1)) := by
  obtain ⟨-, regs₁, regs₂, hcommands⟩ :=
    v120FlashUpgrade_commands hsucceeds hlow hhigh macroOff content buf ⟨regs, [], [], s⟩
  have hunlock : (macroUnlockCmd == macroReflashCmd + macroOff) = false := by
    rcases hoff with rfl | rfl <;> decide
  have herase : (macroEraseCmd + macroOff == macroReflashCmd + macroOff) = false := by
    rcases hoff with rfl | rfl <;> decide
  have hpage : ∀ k ∈ List.range (content.length / reflashBufsize + 1),
      ((fun command : BitVec 32 × ConfigRegs => command.1 == macroReflashCmd + macroOff) ∘
        pageCommand macroOff content buf) k = true := fun _ _ => beq_self_eq_true _
  rw [reflashedPages, upgraded, hcommands, List.nil_append, List.filter_cons_of_neg (by simp [hunlock]),
    List.filter_cons_of_neg (by simp [herase]), List.filter_map, List.filter_eq_self.mpr hpage, List.map_map]
  rfl

/-- An upgrade writes a file when it hands over the pages of the file in order and no others, each page
begins with its block of the file, and what is handed over for a page depends on this block only. -/
structure WritesFile (pages : List (BitVec 8) → List (BitVec 32 × ReflashBuf)) (content : List (BitVec 8)) :
    Prop where
  numbers : (pages content).map Prod.fst =
    (List.range ((content.length + (reflashBufsize - 1)) / reflashBufsize)).map (BitVec.ofNat 32)
  starts : ∀ k page, (pages content)[k]? = some page → ∀ i : Fin reflashBufsize,
    reflashBufsize * k + i < content.length → content[reflashBufsize * k + i]? = some (page.2 i)
  own : ∀ content', content'.length = content.length → ∀ k page page', (pages content)[k]? = some page →
    (pages content')[k]? = some page' →
    blockAt reflashBufsize content' k = blockAt reflashBufsize content k → page'.2 = page.2

/-- A file of a single block that is not full is written. -/
theorem writesFile_short {pages : List (BitVec 8) → List (BitVec 32 × ReflashBuf)} {buf : ReflashBuf}
    (hpages : ∀ content, pages content = (List.range (content.length / reflashBufsize + 1)).map fun k =>
      (BitVec.ofNat 32 k, bufferBefore content buf (k + 1)))
    {content : List (BitVec 8)} (hcontent : content ≠ []) (hshort : content.length < reflashBufsize) :
    WritesFile pages content := by
  have hpositive := List.length_pos_iff.mpr hcontent
  have hone (file : List (BitVec 8)) (hlength : file.length = content.length) :
      pages file = [(BitVec.ofNat 32 0, bufferBefore file buf 1)] := by
    rw [hpages, hlength, Nat.div_eq_of_lt hshort]
    rfl
  have hfirst (file : List (BitVec 8)) (hlength : file.length = content.length) {k : ℕ}
      {page : BitVec 32 × ReflashBuf} (hpage : (pages file)[k]? = some page) :
      k = 0 ∧ page.2 = bufferBefore file buf 1 := by
    rw [hone file hlength, List.getElem?_singleton] at hpage
    split_ifs at hpage with hk
    obtain rfl := Option.some.inj hpage
    exact ⟨hk, rfl⟩
  refine ⟨?_, fun k page hpage i hi => ?_, fun content' hlength k page page' hpage hpage' hblock => ?_⟩
  · have hcount : (content.length + (reflashBufsize - 1)) / reflashBufsize = 1 :=
      Nat.div_eq_of_lt_le (by omega) (by omega)
    rw [hone content rfl, hcount]
    rfl
  · obtain ⟨rfl, hbuf⟩ := hfirst content rfl hpage
    rw [hbuf, bufferBefore_inside content buf hi, List.getElem?_eq_getElem hi]
  · obtain ⟨rfl, hbuf⟩ := hfirst content rfl hpage
    obtain ⟨-, hbuf'⟩ := hfirst content' hlength hpage'
    rw [hbuf, hbuf', bufferBefore, bufferBefore, hblock]
    rfl

/-- Behind a full block the last page holds this block wherever the file has ended, also when nothing of
the file was left. -/
theorem not_writesFile_stale {pages : List (BitVec 8) → List (BitVec 32 × ReflashBuf)} {buf : ReflashBuf}
    (hpages : ∀ content, pages content = (List.range (content.length / reflashBufsize + 1)).map fun k =>
      (BitVec.ofNat 32 k, bufferBefore content buf (k + 1)))
    {content : List (BitVec 8)} (hlong : reflashBufsize ≤ content.length) : ¬ WritesFile pages content := by
  intro h
  have hsize : reflashBufsize = 1024 := rfl
  obtain ⟨k, hk⟩ : ∃ k, content.length / reflashBufsize = k + 1 :=
    Nat.exists_eq_succ_of_ne_zero (Nat.ne_of_gt (Nat.div_pos hlong (by decide)))
  rw [hsize] at hk
  -- the last octet of the last full block, and of the buffer
  let last : Fin reflashBufsize := ⟨1023, by decide⟩
  have hinside : 1024 * k + 1023 < content.length := by omega
  let content' := content.set (1024 * k + 1023) (content[1024 * k + 1023] ^^^ 1)
  have hlength : content'.length = content.length := List.length_set
  have hinside' : 1024 * k + 1023 < content'.length := hlength ▸ hinside
  have hpage (file : List (BitVec 8)) (hfile : file.length = content.length) :
      (pages file)[k + 1]? = some (BitVec.ofNat 32 (k + 1), bufferBefore file buf (k + 2)) := by
    have hcount : file.length / reflashBufsize = k + 1 := by rw [hfile]; exact hk
    rw [hpages, hcount, List.getElem?_map, List.getElem?_range (Nat.lt_succ_self _)]
    rfl
  have hblock : blockAt reflashBufsize content' (k + 1) = blockAt reflashBufsize content (k + 1) := by
    refine blockAt_congr fun i hi => ?_
    rw [hsize] at hi
    rw [List.getElem?_set_ne (by omega)]
  have hsame := h.own content' hlength (k + 1) _ _ (hpage content rfl) (hpage content' hlength) hblock
  have hstale (file : List (BitVec 8)) (hfile : file.length = content.length) :
      bufferBefore file buf (k + 2) last = bufferBefore file buf (k + 1) last := by
    refine bufferBefore_behind file buf ?_
    change file.length ≤ 1024 * (k + 1) + 1023
    omega
  have hlast : bufferBefore content' buf (k + 2) last = bufferBefore content buf (k + 2) last :=
    congrFun hsame last
  rw [hstale content rfl, hstale content' hlength, bufferBefore_inside (i := last) content buf hinside,
    bufferBefore_inside (i := last) content' buf hinside'] at hlast
  have hset : content'[1024 * k + 1023] = content[1024 * k + 1023] ^^^ 1 := List.getElem_set_self _
  have hflip : content[1024 * k + 1023] ^^^ 1 = content[1024 * k + 1023] := hset.symm.trans hlast
  have hbit := congrArg (fun octet => octet.getLsbD 0) hflip
  simp at hbit

/-- **When an upgrade writes exactly the file.** On a board on which every macro succeeds, an upgrade
with a file that is not empty writes the file exactly when the file is shorter than a page. -/
theorem upgrade_writes_file_iff (hsucceeds : board.Succeeds) {crate : ℤ} (hlow : 0 ≤ crate)
    (hhigh : crate ≤ 15) {macroOff : BitVec 32} (hoff : macroOff = 0 ∨ macroOff = 0x20) (buf : ReflashBuf)
    (regs : ConfigRegs) (s : σ) {content : List (BitVec 8)} (hcontent : content ≠ []) :
    WritesFile (fun file => reflashedPages macroOff (upgraded board crate macroOff buf regs s file)) content ↔
      content.length < reflashBufsize := by
  have hpages := reflashedPages_upgraded hsucceeds hlow hhigh hoff buf regs s
  refine ⟨fun h => ?_, writesFile_short hpages hcontent⟩
  by_contra hlong
  exact not_writesFile_stale hpages (Nat.le_of_not_lt hlong) h

end Pages

/-- A board on which every macro has ended by the first look. -/
def obedient : Board Unit := ⟨fun _ _ s => ([0], s)⟩

/-- A buffer of zeros. -/
def zeroBuf : ReflashBuf := fun _ => 0

/-- A file of two words is written. -/
theorem upgrade_writes_file_words :
    WritesFile (fun file => reflashedPages 0 (upgraded obedient 3 0 zeroBuf ⟨zeroBuf, 0⟩ () file))
      [1, 2, 3, 4, 5, 6, 7, 8] :=
  (upgrade_writes_file_iff (fun _ _ _ => rfl) (by decide) (by decide) (Or.inl rfl) zeroBuf ⟨zeroBuf, 0⟩ ()
    (by decide)).mpr (by decide)

/-- A file of exactly one page is written twice, and the last word of the second page of a file of 257
words is left over from the first. -/
theorem upgrade_writes_more :
    let pages := fun file => reflashedPages 0 (upgraded obedient 3 0 zeroBuf ⟨zeroBuf, 0⟩ () file)
    let page := List.replicate 1024 (0xa5 : BitVec 8)
    (pages page).map Prod.fst = [0, 1] ∧ (pages page)[1]?.map Prod.snd = (pages page)[0]?.map Prod.snd ∧
      (pages (page ++ [1, 2, 3, 4]))[1]?.map (fun last => (last.2 ⟨0, by decide⟩, last.2 ⟨1023, by decide⟩)) =
        some (1, 0xa5) := by
  intro pages page
  have hpages (file : List (BitVec 8)) : pages file =
      (List.range (file.length / reflashBufsize + 1)).map fun k =>
        (BitVec.ofNat 32 k, bufferBefore file zeroBuf (k + 1)) :=
    reflashedPages_upgraded (fun _ _ _ => rfl) (by decide) (by decide) (Or.inl rfl) zeroBuf ⟨zeroBuf, 0⟩ () file
  have hlength : page.length = 1024 := List.length_replicate
  have htwo (more : List (BitVec 8)) (hmore : more.length < 1024) : pages (page ++ more) =
      [(0, bufferBefore (page ++ more) zeroBuf 1), (1, bufferBefore (page ++ more) zeroBuf 2)] := by
    have hcount : (page ++ more).length / reflashBufsize = 1 := by
      have hsize : reflashBufsize = 1024 := rfl
      rw [List.length_append, hlength, hsize]
      omega
    rw [hpages, hcount]
    rfl
  have hnone := htwo [] (by decide)
  rw [List.append_nil] at hnone
  refine ⟨by rw [hnone]; rfl, ?_, ?_⟩
  · have hsame : bufferBefore page zeroBuf 2 = bufferBefore page zeroBuf 1 := by
      funext i
      exact bufferBefore_behind page zeroBuf (hlength ▸ Nat.le_add_right 1024 i)
    rw [hnone]
    simp only [List.getElem?_cons_succ, List.getElem?_cons_zero, Option.map_some, hsame]
  · rw [htwo [1, 2, 3, 4] (by decide)]
    have hfirst : bufferBefore (page ++ [1, 2, 3, 4]) zeroBuf 2 ⟨0, by decide⟩ = 1 := by decide +kernel
    have hlast : bufferBefore (page ++ [1, 2, 3, 4]) zeroBuf 2 ⟨1023, by decide⟩ = 0xa5 := by decide +kernel
    simp only [List.getElem?_cons_succ, List.getElem?_cons_zero, Option.map_some, hfirst, hlast]

end V120.Tool
