import V120.Common.Cells
import V120.Tui.RnmText

/-!
# Stripping a line in place

`linestrip` returns a pointer into the line it is given. The blanks in front are skipped, and the blanks
before the comment or the end of the line are overwritten with `'\0'` from behind. This loop looks at a
character before it looks whether the character is one of the text, so the one in front of the text is
read as well; it is not written.
-/

namespace V120.Tui

open V120.Common

/-- `slide`: how far the pointer moves, unless it leaves the array. -/
def slide (s : List Octet) : Option ℕ := s.findIdx? (!isblank ·)

/-- The `do` loop of `linestrip`, from a place on downwards. -/
def trimLoop (ssave : ℕ) : ℕ → Cells Octet → Option (Cells Octet)
  | 0, line => line.write 0 0 -- the character in front of the line is no longer at or behind `ssave`
  | s + 1, line => do
    let line ← line.write (s + 1) 0
    let c ← line.read s
    if isblank c ∧ ssave ≤ s then trimLoop ssave s line else some line

/-- `linestrip` on a line in memory: the place of the pointer it returns, and the line it leaves. -/
def linestripInPlace (line : Cells Octet) : Option (ℕ × Cells Octet) := do
  let ssave ← slide line.cells
  let eol ← (line.cells.drop ssave).findIdx? vmebriseol
  let line ← trimLoop ssave (ssave + eol) line
  some (ssave, line)

/-- The text before the first `'#'`, CR, LF or NUL without the blanks around it. -/
def strippedText (line : List Octet) : List Octet :=
  ((line.takeWhile (!vmebriseol ·)).dropWhile isblank).rdropWhile isblank

/-- What is dropped at the start may be dropped before or after the rest is cut off. -/
theorem takeWhile_dropWhile {p q : Octet → Bool} (hpq : ∀ c, p c = true → q c = true) (line : List Octet) :
    (line.dropWhile p).takeWhile q = (line.takeWhile q).dropWhile p := by
  induction line with
  | nil => rfl
  | cons c line ih =>
    by_cases hp : p c = true
    · rw [List.dropWhile_cons_of_pos hp, List.takeWhile_cons_of_pos (hpq c hp),
        List.dropWhile_cons_of_pos hp, ih]
    · rw [List.dropWhile_cons_of_neg hp]
      by_cases hq : q c = true
      · rw [List.takeWhile_cons_of_pos hq, List.dropWhile_cons_of_neg hp]
      · rw [List.takeWhile_cons_of_neg hq, List.dropWhile_nil]

/-- `linestrip` leaves the text that the parser of RNM files goes on with. -/
theorem linestrip_eq_strippedText (line : List Octet) : linestrip line = strippedText line := by
  have hplain (c : Octet) (hblank : isblank c = true) : (!vmebriseol c) = true := by
    rw [vmebriseol_of_isblank c hblank]
    rfl
  rw [linestrip, strippedText, takeWhile_dropWhile hplain]

/-- A line taken apart: blanks, the text, more blanks unless there is no text, and the character that ends
the line, with what is behind it. -/
structure LineFrame (cells lead text trail : List Octet) (eol : Octet) (behind : List Octet) : Prop where
  split : cells = lead ++ (text ++ (trail ++ eol :: behind))
  leading : Blanks lead
  stripped : Stripped text
  trailing : Blanks trail
  ends : vmebriseol eol = true
  empty : text = [] → trail = []

/-- A beginning that is not empty has the first character. -/
theorem head?_eq_of_start {s t : List Octet} {c : Octet} (hstart : s <+: t) (hs : s.head? = some c) :
    t.head? = some c := by
  obtain ⟨more, rfl⟩ := hstart
  rw [List.head?_append, hs]
  rfl

/-- The blanks at the end of a text that does not begin with one leave a stripped text. -/
theorem stripped_rdropWhile {s : List Octet} (hplain : ∀ c ∈ s, vmebriseol c = false)
    (hfirst : ∀ c, s.head? = some c → isblank c = false) : Stripped (s.rdropWhile isblank) := by
  have hstart : s.rdropWhile isblank <+: s := List.rdropWhile_prefix _ s
  constructor
  · intro c hc
    exact hplain c (hstart.subset hc)
  · intro c hc
    exact hfirst c (head?_eq_of_start hstart hc)
  · intro c hc
    have hne : s.rdropWhile isblank ≠ [] := by
      intro hnil
      rw [hnil] at hc
      exact absurd hc (Option.some_ne_none c).symm
    have hlast := List.rdropWhile_last_not isblank s hne
    rw [List.getLast?_eq_some_getLast hne] at hc
    rwa [Option.some.inj hc, Bool.not_eq_true] at hlast

/-- Every line that ends can be taken apart. -/
theorem exists_frame {cells : List Octet} (h : ∃ c ∈ cells, vmebriseol c = true) :
    ∃ lead text trail eol behind, LineFrame cells lead text trail eol behind := by
  have hcells : cells = cells.takeWhile isblank ++ cells.dropWhile isblank :=
    List.takeWhile_append_dropWhile.symm
  have hlead : Blanks (cells.takeWhile isblank) := fun c hc => List.mem_takeWhile_imp hc
  have hstop (c : Octet) (hc : (cells.dropWhile isblank).head? = some c) : isblank c = false :=
    stop_dropWhile hc
  generalize cells.dropWhile isblank = line at hcells hstop
  have hline : line = line.takeWhile (!vmebriseol ·) ++ line.dropWhile (!vmebriseol ·) :=
    List.takeWhile_append_dropWhile.symm
  have hplain (c : Octet) (hc : c ∈ line.takeWhile (!vmebriseol ·)) : vmebriseol c = false := by
    have hnot := List.mem_takeWhile_imp (p := fun c => !vmebriseol c) hc
    rwa [Bool.not_eq_true'] at hnot
  have hfirst (c : Octet) (hc : (line.takeWhile (!vmebriseol ·)).head? = some c) : isblank c = false :=
    hstop c (head?_eq_of_start (List.takeWhile_prefix _) hc)
  cases hend : line.dropWhile (!vmebriseol ·) with
  | nil =>
    -- no character ends the line
    rw [hend, List.append_nil] at hline
    obtain ⟨c, hc, heol⟩ := h
    rw [hcells] at hc
    rcases List.mem_append.mp hc with hblank | hmem
    · exact absurd heol (by rw [vmebriseol_of_isblank c (hlead c hblank)]; exact Bool.false_ne_true)
    · rw [hline] at hmem
      exact absurd heol (by rw [hplain c hmem]; exact Bool.false_ne_true)
  | cons eol behind =>
    have heol := stop_dropWhile (p := fun c => !vmebriseol c) (congrArg List.head? hend)
    generalize line.takeWhile (!vmebriseol ·) = s at hline hplain hfirst
    refine ⟨cells.takeWhile isblank, s.rdropWhile isblank, s.rtakeWhile isblank, eol, behind, ?_⟩
    constructor
    · rw [← List.append_assoc (s.rdropWhile isblank), List.rdropWhile_append_rtakeWhile, ← hend, ← hline]
      exact hcells
    · exact hlead
    · exact stripped_rdropWhile hplain hfirst
    · exact fun c hc => List.mem_rtakeWhile_imp hc
    · rwa [Bool.not_eq_false'] at heol
    · intro hnil
      cases hs : s with
      | nil => rfl
      | cons c more =>
        rw [List.rdropWhile_eq_nil_iff] at hnil
        have hblank := hnil c (hs ▸ List.mem_cons_self)
        rw [hfirst c (congrArg List.head? hs)] at hblank
        exact absurd hblank Bool.false_ne_true

section LineFrame

variable {cells lead text trail behind : List Octet} {eol : Octet}

/-- What ends a line is no blank. -/
theorem LineFrame.eol_not_blank (h : LineFrame cells lead text trail eol behind) : isblank eol = false := by
  by_contra hblank
  have hplain := vmebriseol_of_isblank eol (Bool.of_not_eq_false hblank)
  exact Bool.false_ne_true (hplain.symm.trans h.ends)

/-- The text does not begin with a blank, nor does the end of the line. -/
theorem LineFrame.head (h : LineFrame cells lead text trail eol behind) :
    ∃ c more, text ++ (trail ++ eol :: behind) = c :: more ∧ isblank c = false := by
  cases htext : text with
  | nil =>
    rw [h.empty htext]
    exact ⟨eol, behind, rfl, h.eol_not_blank⟩
  | cons c more => exact ⟨c, _, rfl, h.stripped.first c (congrArg List.head? htext)⟩

/-- The text and the blanks behind it do not end the line. -/
theorem LineFrame.plain (h : LineFrame cells lead text trail eol behind) :
    ∀ c ∈ text ++ trail, vmebriseol c = false := by
  intro c hc
  rcases List.mem_append.mp hc with htext | htrail
  · exact h.stripped.plain c htext
  · exact vmebriseol_of_isblank c (h.trailing c htrail)

/-- The text is what is wanted. -/
theorem LineFrame.strippedText_eq (h : LineFrame cells lead text trail eol behind) : strippedText cells = text := by
  have hends : EndsLine (eol :: behind) := fun c hc => Option.some.inj hc ▸ h.ends
  rw [← linestrip_eq_strippedText, h.split, ← List.append_assoc, ← List.append_assoc]
  exact linestrip_framed h.leading h.stripped h.trailing hends

end LineFrame

/-- A turn of the loop that is not at the start of the line. -/
theorem trimLoop_concat (ssave : ℕ) (before : Octet) (left : List Octet) (c x : Octet)
    (rest : List Octet) :
    trimLoop ssave (left ++ [c]).length ⟨before, (left ++ [c]) ++ x :: rest⟩ =
      if isblank c ∧ ssave ≤ left.length then trimLoop ssave left.length ⟨before, left ++ c :: 0 :: rest⟩
      else some ⟨before, (left ++ [c]) ++ 0 :: rest⟩ := by
  have hlength : (left ++ [c]).length = left.length + 1 := List.length_append
  have hplace : ((left.length + 1 : ℕ) : ℤ) = (left ++ [c]).length := congrArg Nat.cast hlength.symm
  have hcells : (left ++ [c]) ++ 0 :: rest = left ++ c :: 0 :: rest := List.append_assoc ..
  have hwrite := Cells.write_append before (left ++ [c]) rest x 0
  have hread := Cells.read_append before left (0 :: rest) c
  rw [← hplace] at hwrite
  rw [hlength, trimLoop, ← Nat.cast_succ, hwrite, Option.bind_eq_bind, Option.bind_some, hcells, hread]
  rfl

/-- The loop ends behind the text, with `'\0'` for the end of the line. -/
theorem trimLoop_text (before : Octet) (lead text rest : List Octet) (x : Octet)
    (htext : ∀ c, text.getLast? = some c → isblank c = false) :
    trimLoop lead.length (lead ++ text).length ⟨before, (lead ++ text) ++ x :: rest⟩ =
      some ⟨before, (lead ++ text) ++ 0 :: rest⟩ := by
  cases text using List.reverseRecOn with
  | nil =>
    -- there is no text, and the character before its place is in front of it
    rw [List.append_nil]
    cases lead using List.reverseRecOn with
    | nil => exact Cells.write_append before [] rest x 0
    | append_singleton lead c =>
      have hnot : ¬ (isblank c ∧ (lead ++ [c]).length ≤ lead.length) := by
        rw [List.length_append, List.length_singleton]
        omega
      rw [trimLoop_concat, if_neg hnot]
  | append_singleton text c =>
    have hnot : ¬ (isblank c ∧ lead.length ≤ (lead ++ text).length) := by
      rw [htext c List.getLast?_concat]
      exact fun h => Bool.false_ne_true h.1
    rw [← List.append_assoc, trimLoop_concat, if_neg hnot]

/-- The loop overwrites the blanks behind the text, from behind. -/
theorem trimLoop_trail (before : Octet) (lead text trail rest : List Octet) (x : Octet)
    (htext : ∀ c, text.getLast? = some c → isblank c = false) (htrail : Blanks trail) :
    trimLoop lead.length (lead ++ text ++ trail).length ⟨before, lead ++ text ++ trail ++ x :: rest⟩ =
      some ⟨before, lead ++ text ++ 0 :: (List.replicate trail.length 0 ++ rest)⟩ := by
  induction trail using List.reverseRecOn generalizing x rest with
  | nil =>
    rw [List.append_nil]
    exact trimLoop_text before lead text rest x htext
  | append_singleton trail c ih =>
    have hblank : isblank c = true := htrail c (List.mem_append_right _ List.mem_cons_self)
    have hplace : lead.length ≤ (lead ++ text ++ trail).length := by
      rw [List.append_assoc, List.length_append]
      exact Nat.le_add_right _ _
    have hreplicate : List.replicate (trail ++ [c]).length (0 : Octet) ++ rest =
        List.replicate trail.length 0 ++ 0 :: rest := by
      rw [List.length_append, List.length_singleton, List.replicate_succ', List.append_assoc]
      rfl
    rw [← List.append_assoc, trimLoop_concat, if_pos ⟨hblank, hplace⟩, hreplicate]
    exact ih (0 :: rest) c fun d hd => htrail d (List.mem_append_left _ hd)

/-- What is left of a line that can be taken apart. -/
theorem linestripInPlace_frame {cells lead text trail behind : List Octet} {eol : Octet}
    (h : LineFrame cells lead text trail eol behind) (before : Octet) :
    linestripInPlace ⟨before, cells⟩ =
      some (lead.length, ⟨before, lead ++ text ++ 0 :: (List.replicate trail.length 0 ++ behind)⟩) := by
  obtain ⟨c, more, hhead, hc⟩ := h.head
  have hslide : slide cells = some lead.length := by
    rw [slide, h.split, hhead]
    apply findIdx?_append_cons
    · intro d hd
      rw [h.leading d hd]
      rfl
    · rw [hc]
      rfl
  have hscan : (cells.drop lead.length).findIdx? vmebriseol = some (text ++ trail).length := by
    rw [h.split, List.drop_left, ← List.append_assoc]
    exact findIdx?_append_cons h.plain h.ends behind
  have hcells : cells = lead ++ text ++ trail ++ eol :: behind := by
    rw [h.split, List.append_assoc, List.append_assoc]
  have hplace : lead.length + (text ++ trail).length = (lead ++ text ++ trail).length := by
    rw [List.append_assoc]
    exact List.length_append.symm
  have htrim := trimLoop_trail before lead text trail behind eol h.stripped.last h.trailing
  rw [linestripInPlace, hslide, Option.bind_eq_bind, Option.bind_some, hscan, Option.bind_some, hplace,
    hcells, htrim]
  rfl

/-- A stripped text at the start of a line is left as it is. -/
theorem linestripInPlace_stripped {text : List Octet} (h : Stripped text) (before : Octet)
    (behind : List Octet) :
    linestripInPlace ⟨before, text ++ 0 :: behind⟩ = some (0, ⟨before, text ++ 0 :: behind⟩) :=
  @linestripInPlace_frame _ [] text [] behind 0
    ⟨rfl, fun _ hc => absurd hc List.not_mem_nil, h, fun _ hc => absurd hc List.not_mem_nil, rfl,
      fun _ => rfl⟩ before

/-- A call of `linestrip` on a line in memory gives a text: the pointer is to that text with its `'\0'`
behind it, nothing in front of the pointer has changed, and another call with the pointer finds the
text where it is and changes nothing. -/
structure StripsTo (line : Cells Octet) (text : List Octet) (s : ℕ) (line' : Cells Octet) : Prop where
  call : linestripInPlace line = some (s, line')
  found : ∃ behind, line'.cells.drop s = text ++ 0 :: behind
  string : 0 ∉ text
  before : line'.before = line.before
  frame : line'.cells.take s = line.cells.take s
  length : line'.cells.length = line.cells.length
  again : ∀ before, linestripInPlace ⟨before, line'.cells.drop s⟩ = some (0, ⟨before, line'.cells.drop s⟩)

/-- What is behind the end of the string does not count. -/
theorem strippedText_append_nul (line rest : List Octet) :
    strippedText (line ++ 0 :: rest) = strippedText line := by
  have htake : (line ++ 0 :: rest).takeWhile (!vmebriseol ·) = line.takeWhile (!vmebriseol ·) := by
    induction line with
    | nil => rfl
    | cons c line ih => rw [List.cons_append, List.takeWhile_cons, List.takeWhile_cons, ih]
  rw [strippedText, htake, strippedText]

/-- `linestrip` gives the text that is wanted, for every line that ends. -/
theorem linestrip_strips (before : Octet) (line rest : List Octet) :
    ∃ s line', StripsTo ⟨before, line ++ 0 :: rest⟩ (strippedText line) s line' := by
  have hends : ∃ c ∈ line ++ 0 :: rest, vmebriseol c = true :=
    ⟨0, List.mem_append_right _ List.mem_cons_self, rfl⟩
  obtain ⟨lead, text, trail, eol, behind, hframe⟩ := exists_frame hends
  have htext : strippedText line = text := by
    rw [← strippedText_append_nul line rest]
    exact hframe.strippedText_eq
  have hcells : lead ++ text ++ 0 :: (List.replicate trail.length 0 ++ behind) =
      lead ++ (text ++ 0 :: (List.replicate trail.length 0 ++ behind)) := List.append_assoc ..
  have hcall := linestripInPlace_frame hframe before
  rw [hcells] at hcall
  rw [htext]
  refine ⟨_, _, hcall, ?_, ?_, rfl, ?_, ?_, ?_⟩
  · exact ⟨_, List.drop_left⟩
  · intro hnul
    exact absurd (hframe.stripped.plain 0 hnul) (by decide)
  · dsimp only
    rw [hframe.split, List.take_left, List.take_left]
  · dsimp only
    rw [hframe.split]
    simp only [List.length_append, List.length_cons, List.length_replicate]
    omega
  · intro before'
    dsimp only
    rw [List.drop_left]
    exact linestripInPlace_stripped hframe.stripped before' _

/-- A line with blanks around its text and a comment behind them. -/
example : linestripInPlace ⟨0x20, [0x20, 0x41, 0x20, 0x09, 0x23, 0x42, 0x00]⟩ =
    some (1, ⟨0x20, [0x20, 0x41, 0x00, 0x00, 0x00, 0x42, 0x00]⟩) := by decide

end V120.Tui
