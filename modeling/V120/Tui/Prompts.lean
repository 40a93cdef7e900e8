import V120.Tui.EditLine

/-!
# Prompts

`mbgets` and `mbgetval` let the user edit a string in an array of 128 bytes. How much of it `editline` may
use follows from the width of the screen, which is asked for anew in each pass, and not from the array.
So the array is left when the screen is wide and the user keeps typing.
-/

namespace V120.Tui

open V120.Common

/-- The size of the array `s`. -/
def promptBufsize : ℕ := 128

/-- The array when it was cleared, with the byte in front of it. -/
def promptBuffer (before : Octet) : Cells Octet := ⟨before, List.replicate promptBufsize 0⟩

/-- `len`: what the prompt leaves of the width of the screen. -/
def promptRoom (prompt : List Octet) (ncols : ℤ) : ℤ := ncols - prompt.length - 2

/-- How a prompt ends: with an answer and keys that were not read, or it waits for a key, or is not finished
within the passes it was given, or has written outside of the array. -/
inductive PromptEnd (A : Type) where
  | returned (answer : Option A) (keys : List ℤ)
  | waiting
  | running
  | overrun
  deriving DecidableEq

/-- `mbgets`: a copy of the string, if it was entered and there is memory. Every key that ends the line ends
the only pass. -/
def mbgets (prompt : List Octet) (ncols : ℤ) (memory : Bool) (before : Octet) (keys : List ℤ) :
    PromptEnd (List Octet) :=
  match editline (promptRoom prompt ncols) [] 0 keys (promptBuffer before) with
  | none => .overrun
  | some (.waiting _) => .waiting
  | some (.returned outchar e more) =>
    .returned (if outchar = 0x0a ∧ memory then some (cString e.s.cells) else none) more

/-- The keys `hHtT` that set the base. -/
def baseKeys : List Octet := [0x68, 0x48, 0x74, 0x54]

/-- The loop of `mbgetval` for so many passes, with the width of the screen in each of them. The answer is the
string with the base in which its value is read. -/
def mbgetvalLoop (prompt : List Octet) :
    ℕ → (ℕ → ℤ) → ℤ → ℤ → List ℤ → Cells Octet → PromptEnd (List Octet × ℤ)
  | 0, _, _, _, _, _ => .running
  | passes + 1, ncols, base, cpos, keys, s =>
    match editline (promptRoom prompt (ncols 0)) baseKeys cpos keys s with
    | none => .overrun
    | some (.waiting _) => .waiting
    | some (.returned outchar e more) =>
      if outchar = 0x0a then .returned (some (cString e.s.cells, base)) more
      else if outchar = 0x68 ∨ outchar = 0x48 then
        mbgetvalLoop prompt passes (fun pass => ncols (pass + 1)) 16 e.tpos more e.s
      else if outchar = 0x74 ∨ outchar = 0x54 then
        mbgetvalLoop prompt passes (fun pass => ncols (pass + 1)) 0 e.tpos more e.s
      else .returned none more

/-- `mbgetval`. Each pass but the last one reads a key. -/
def mbgetval (prompt : List Octet) (ncols : ℕ → ℤ) (before : Octet) (keys : List ℤ) :
    PromptEnd (List Octet × ℤ) :=
  mbgetvalLoop prompt (keys.length + 1) ncols 16 0 keys (promptBuffer before)

/-- A string in an array of so many bytes. -/
def HoldsString (size : ℕ) (s : Cells Octet) : Prop :=
  ∃ text rest, s.cells = text ++ 0 :: rest ∧ 0 ∉ text ∧ text.length + rest.length + 1 = size

/-- The array is cleared first. -/
theorem holdsString_promptBuffer (before : Octet) : HoldsString promptBufsize (promptBuffer before) :=
  ⟨[], List.replicate (promptBufsize - 1) 0, rfl, List.not_mem_nil, by
    rw [List.length_nil, List.length_replicate, promptBufsize]⟩

/-- Keys either do not end the line, or some key does, and is the first one. -/
theorem exitKey_cases (exits : List Octet) (keys : List ℤ) :
    (∀ c ∈ keys, exitKey exits c = false) ∨ ∃ typed last more, keys = typed ++ last :: more ∧
      (∀ c ∈ typed, exitKey exits c = false) ∧ exitKey exits last = true := by
  cases hfind : keys.find? (exitKey exits) with
  | none =>
    left
    intro c hc
    exact Bool.not_eq_true _ ▸ List.find?_eq_none.mp hfind c hc
  | some last =>
    right
    obtain ⟨hlast, typed, more, hkeys, htyped⟩ := List.find?_eq_some_iff_append.mp hfind
    exact ⟨typed, last, more, hkeys, fun c hc => by simpa using htyped c hc, hlast⟩

/-- `editline` stays inside of an array that is as large as it is told, and leaves a string there; when it
returns, it has read a key. -/
theorem editline_inside {n : ℤ} {size : ℕ} (hn : n ≤ size) {s : Cells Octet} (hs : HoldsString size s)
    (exits : List Octet) (cpos : ℤ) (keys : List ℤ) :
    (∃ e, editline n exits cpos keys s = some (.waiting e)) ∨
      ∃ e last more, editline n exits cpos keys s = some (.returned last e more) ∧
        HoldsString size e.s ∧ more.length < keys.length := by
  obtain ⟨text, rest, hcells, hnul, hsize⟩ := hs
  obtain ⟨before, cells⟩ := s
  obtain rfl : cells = text ++ 0 :: rest := hcells
  have htext : (idealStart text cpos).text = text := TextCursor.text_ofText _ _
  have hroom : n ≤ (idealStart text cpos).text.length + rest.length + 1 := by
    rw [htext]
    omega
  rcases exitKey_cases exits keys with hkeys | ⟨typed, last, more, rfl, htyped, hlast⟩
  · obtain ⟨rest', hloop, -⟩ := editLoop_held hkeys before hroom
    have hwaiting := hloop []
    rw [List.append_nil] at hwaiting
    left
    rw [editline_eq n exits cpos keys before hnul rest, hwaiting]
    exact ⟨_, rfl⟩
  · obtain ⟨rest', hloop, hlength⟩ := editLoop_held htyped before hroom
    right
    rw [editline_eq n exits cpos _ before hnul rest, hloop, editLoop, if_pos hlast]
    refine ⟨_, last, more, rfl, ⟨_, rest', rfl, ?_, ?_⟩, ?_⟩
    · apply idealKeys_nul
      rwa [htext]
    · rw [htext] at hlength
      omega
    · rw [List.length_append, List.length_cons]
      omega

/-- Passes whose width fits stay inside of the array, and each of them but the last one reads a key. -/
theorem mbgetvalLoop_inside (prompt : List Octet) (passes : ℕ) {ncols : ℕ → ℤ}
    (hncols : ∀ pass, promptRoom prompt (ncols pass) ≤ promptBufsize) (base cpos : ℤ) (keys : List ℤ)
    {s : Cells Octet} (hs : HoldsString promptBufsize s) :
    (∃ answer more, mbgetvalLoop prompt passes ncols base cpos keys s = .returned answer more) ∨
      mbgetvalLoop prompt passes ncols base cpos keys s = .waiting ∨
        mbgetvalLoop prompt passes ncols base cpos keys s = .running ∧ passes ≤ keys.length := by
  induction passes generalizing ncols base cpos keys s with
  | zero => exact Or.inr (Or.inr ⟨rfl, Nat.zero_le _⟩)
  | succ passes ih =>
    rcases editline_inside (hncols 0) hs baseKeys cpos keys with
      ⟨e, hwaiting⟩ | ⟨e, last, more, hended, he, hmore⟩
    · rw [mbgetvalLoop, hwaiting]
      exact Or.inr (Or.inl rfl)
    · have hnext (base : ℤ) := (ih (fun pass => hncols (pass + 1)) base e.tpos more he).imp_right
        (Or.imp_right (And.imp_right fun hpasses => (Nat.succ_le_succ hpasses).trans hmore))
      rw [mbgetvalLoop, hended]
      dsimp only
      split_ifs
      · exact Or.inl ⟨_, _, rfl⟩
      · exact hnext 16
      · exact hnext 0
      · exact Or.inl ⟨_, _, rfl⟩

/-- The passes of `mbgetval` suffice. -/
theorem mbgetval_ends {prompt : List Octet} {ncols : ℕ → ℤ}
    (hncols : ∀ pass, promptRoom prompt (ncols pass) ≤ promptBufsize) (before : Octet) (keys : List ℤ) :
    (∃ answer more, mbgetval prompt ncols before keys = .returned answer more) ∨
      mbgetval prompt ncols before keys = .waiting := by
  rcases mbgetvalLoop_inside prompt (keys.length + 1) hncols 16 0 keys (holdsString_promptBuffer before) with
    hreturned | hwaiting | ⟨-, hpasses⟩
  · exact Or.inl hreturned
  · exact Or.inr hwaiting
  · exact absurd hpasses (Nat.not_succ_le_self _)

/-- `mbgets` stays inside of the array when the width fits. -/
theorem mbgets_inside {prompt : List Octet} {ncols : ℤ} (hncols : promptRoom prompt ncols ≤ promptBufsize)
    (memory : Bool) (before : Octet) (keys : List ℤ) :
    (∃ answer more, mbgets prompt ncols memory before keys = .returned answer more) ∨
      mbgets prompt ncols memory before keys = .waiting := by
  rcases editline_inside hncols (holdsString_promptBuffer before) [] 0 keys with
    ⟨e, hwaiting⟩ | ⟨e, last, more, hended, -, -⟩
  · rw [mbgets, hwaiting]
    exact Or.inr rfl
  · rw [mbgets, hended]
    exact Or.inl ⟨_, _, rfl⟩

section Overrun

variable {n c : ℤ}

/-- A character behind a string that fills the array, when it is thought to be larger. -/
theorem editKey_overrun (hkey : editKeyOf c = .other) (hprint : isprint c = true) (before : Octet)
    {t : TextCursor Octet} (hlarge : (t.text.length : ℤ) < n - 1) : editKey n c (held before [0] t) = none := by
  obtain ⟨left, right⟩ := t
  rw [TextCursor.length_text_mk, Nat.cast_add] at hlarge
  have houtside : (Cells.mk before (left.reverse ++ BitVec.ofInt 8 c :: (right ++ []))).write
      (left.length + right.length + 1) 0 = none := by
    apply Cells.write_of_length_le
    rw [List.append_nil, List.length_append, List.length_cons, List.length_reverse]
    omega
  rw [editKey, switchKey_insert hkey hprint before [] left right hlarge, Option.bind_eq_bind,
    Option.bind_some, houtside]
  rfl

/-- Characters typed into an array that has room for them. -/
theorem editLoop_typed {exits : List Octet} (hkey : editKeyOf c = .other) (hprint : isprint c = true)
    (hexit : exitKey exits c = false) (before : Octet) (count : ℕ) {rest : List Octet} {t : TextCursor Octet}
    (hroom : count ≤ rest.length) (hlarge : (t.text.length : ℤ) + count ≤ n - 1) (more : List ℤ) :
    ∃ rest' t', editLoop n exits (List.replicate count c ++ more) (held before (0 :: rest) t) =
        editLoop n exits more (held before (0 :: rest') t') ∧
      t'.text.length = t.text.length + count ∧ rest'.length + count = rest.length := by
  induction count generalizing rest t with
  | zero => exact ⟨rest, t, rfl, rfl, rfl⟩
  | succ count ih =>
    have hmore : rest ≠ [] := by
      rintro rfl
      rw [List.length_nil] at hroom
      omega
    have hshort : (t.text.length : ℤ) < n - 1 := by omega
    have hswitch : SwitchesTo n c before rest t (t.insert (BitVec.ofInt 8 c)) :=
      switch_insert hkey hprint hshort hmore
    obtain ⟨rest₁, hpressed, hsize⟩ := hswitch.editKey
    have hlength := t.length_text_insert (BitVec.ofInt 8 c)
    have hroom₁ : count ≤ rest₁.length := by omega
    have hlarge₁ : ((t.insert (BitVec.ofInt 8 c)).text.length : ℤ) + count ≤ n - 1 := by omega
    obtain ⟨rest', t', hloop, htext, hrest⟩ := ih hroom₁ hlarge₁
    refine ⟨rest', t', ?_, by omega, by omega⟩
    rw [List.replicate_succ, List.cons_append, editLoop, hexit, if_neg Bool.false_ne_true, hpressed,
      Option.bind_some, hloop]

/-- As many characters as an array has bytes, typed into the empty line, when it is thought to be larger. -/
theorem editline_overrun {exits : List Octet} (hkey : editKeyOf c = .other) (hprint : isprint c = true)
    (hexit : exitKey exits c = false) (before : Octet) (hlarge : (promptBufsize : ℤ) < n) :
    editline n exits 0 (List.replicate promptBufsize c) (promptBuffer before) = none := by
  have hsize : (promptBufsize : ℤ) = 128 := rfl
  have hkeys : List.replicate promptBufsize c = List.replicate 127 c ++ [c] := List.replicate_succ'
  have hroom : 127 ≤ (List.replicate 127 (0 : Octet)).length := List.length_replicate.ge
  have hstart : ((idealStart [] 0).text.length : ℤ) + 127 ≤ n - 1 := by
    rw [idealStart, TextCursor.text_ofText, List.length_nil]
    omega
  obtain ⟨rest, t, hloop, htext, hrest⟩ :=
    editLoop_typed hkey hprint hexit before 127 hroom hstart [c]
  rw [List.length_replicate] at hrest
  obtain rfl : rest = [] := List.length_eq_zero_iff.mp (by omega)
  have hfull : (t.text.length : ℤ) < n - 1 := by
    rw [htext, idealStart, TextCursor.text_ofText, List.length_nil]
    omega
  have hcall := editline_eq n exits 0 (List.replicate promptBufsize c) before List.not_mem_nil
    (List.replicate 127 0)
  rw [hkeys, hloop, editLoop, hexit, if_neg Bool.false_ne_true, editKey_overrun hkey hprint before hfull] at hcall
  rw [hkeys]
  exact hcall

/-- A key that ends the empty line at once. -/
theorem editline_exit {exits : List Octet} (hexit : exitKey exits c = true) (before : Octet) (more : List ℤ) :
    editline n exits 0 (c :: more) (promptBuffer before) =
      some (.returned c ⟨promptBuffer before, 0, 0⟩ more) := by
  have hcall := editline_eq n exits 0 (c :: more) before List.not_mem_nil (List.replicate 127 0)
  rw [editLoop, if_pos hexit] at hcall
  exact hcall

end Overrun

/-- The letter `a` is a character as any other. -/
theorem editKeyOf_a : editKeyOf 0x61 = .other := by decide

/-- The letter `a` is printable. -/
theorem isprint_a : isprint 0x61 = true := by decide

/-- `mbgets` leaves the array when the screen is too wide. -/
theorem mbgets_overrun {prompt : List Octet} {ncols : ℤ} (hwide : (promptBufsize : ℤ) < promptRoom prompt ncols)
    (memory : Bool) (before : Octet) :
    mbgets prompt ncols memory before (List.replicate promptBufsize 0x61) = .overrun := by
  have hexit : exitKey [] 0x61 = false := by decide
  rw [mbgets, editline_overrun editKeyOf_a isprint_a hexit before hwide]

/-- `mbgetval` leaves the array in any pass in which the screen is too wide. -/
theorem mbgetvalLoop_overrun (prompt : List Octet) (pass : ℕ) {ncols : ℕ → ℤ}
    (hwide : (promptBufsize : ℤ) < promptRoom prompt (ncols pass)) {passes : ℕ} (hpasses : pass < passes)
    (base : ℤ) (before : Octet) :
    mbgetvalLoop prompt passes ncols base 0 (List.replicate pass 0x68 ++ List.replicate promptBufsize 0x61)
      (promptBuffer before) = .overrun := by
  induction pass generalizing ncols passes base with
  | zero =>
    obtain ⟨passes, rfl⟩ := Nat.exists_eq_succ_of_ne_zero hpasses.ne'
    have hexit : exitKey baseKeys 0x61 = false := by decide
    rw [List.replicate_zero, List.nil_append, mbgetvalLoop,
      editline_overrun editKeyOf_a isprint_a hexit before hwide]
  | succ pass ih =>
    obtain ⟨passes, rfl⟩ := Nat.exists_eq_succ_of_ne_zero (Nat.ne_zero_of_lt hpasses)
    have hexit : exitKey baseKeys 0x68 = true := by decide
    rw [List.replicate_succ, List.cons_append, mbgetvalLoop, editline_exit hexit]
    exact ih hwide (Nat.lt_of_succ_lt_succ hpasses) 16

/-- The array is left by no keys exactly when the screen is no more than 130 characters wider than the prompt,
in the pass of `mbgets`, and in every pass of `mbgetval`. -/
theorem prompts_inside_iff (prompt : List Octet) :
    (∀ ncols : ℤ, (∀ memory before keys, mbgets prompt ncols memory before keys ≠ .overrun) ↔
        ncols ≤ prompt.length + 130) ∧
      ∀ ncols : ℕ → ℤ, (∀ before keys, mbgetval prompt ncols before keys ≠ .overrun) ↔
        ∀ pass, ncols pass ≤ prompt.length + 130 := by
  have hroom (ncols : ℤ) : promptRoom prompt ncols ≤ promptBufsize ↔ ncols ≤ prompt.length + 130 := by
    rw [promptRoom, promptBufsize]
    omega
  constructor
  · intro ncols
    rw [← hroom]
    constructor
    · intro hinside
      apply Int.not_lt.mp
      intro hwide
      exact hinside true 0 _ (mbgets_overrun hwide true 0)
    · intro hfits memory before keys hoverrun
      rcases mbgets_inside hfits memory before keys with ⟨answer, more, hreturned⟩ | hwaiting
      · cases hreturned.symm.trans hoverrun
      · cases hwaiting.symm.trans hoverrun
  · intro ncols
    constructor
    · intro hinside pass
      rw [← hroom]
      apply Int.not_lt.mp
      intro hwide
      refine hinside 0 _ (mbgetvalLoop_overrun prompt pass hwide ?_ 16 0)
      rw [List.length_append, List.length_replicate]
      omega
    · intro hfits before keys hoverrun
      rcases mbgetval_ends (fun pass => (hroom _).mpr (hfits pass)) before keys with
        ⟨answer, more, hreturned⟩ | hwaiting
      · cases hreturned.symm.trans hoverrun
      · cases hwaiting.symm.trans hoverrun

/-- A screen of 200 columns, the prompt `Enter command: `, and 128 times the key `a`. -/
theorem mbgets_wide_screen : ¬ ∀ prompt ncols memory before keys,
    mbgets prompt ncols memory before keys ≠ .overrun := by
  intro hinside
  have hwide : (promptBufsize : ℤ) < promptRoom [0x45, 0x6e, 0x74, 0x65, 0x72, 0x20, 0x63, 0x6f, 0x6d, 0x6d,
      0x61, 0x6e, 0x64, 0x3a, 0x20] 200 := by decide
  exact hinside _ 200 true 0 _ (mbgets_overrun hwide true 0)

end V120.Tui
