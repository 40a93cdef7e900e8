import Mathlib.Data.List.Infix
import V120.Common.BlockReads

/-!
# Reading a file line by line

`fgets` reads up to the end of a line, or as much as the buffer holds, and notices the end of the file
when it comes to it before either. A loop that reads until the end was noticed, or nothing was read, sees
a text of short lines as these lines.
-/

namespace V120.Common

variable {A : Type*} [DecidableEq A] (eol : A)

/-- The start of a text up to and including the end of a line, but no more than so many items. -/
def lineAt : ℕ → List A → List A
  | 0, _ => []
  | _ + 1, [] => []
  | room + 1, c :: text => if c = eol then [c] else c :: lineAt room text

/-- `fgets` with a buffer of this size, which also takes the end of the string. -/
def InputStream.fgets (size : ℕ) (stream : InputStream A) : Option (List A) × InputStream A :=
  let line := lineAt eol (size - 1) stream.rest
  let short := decide (line.length < size - 1 ∧ line.getLast? ≠ some eol)
  (if line.isEmpty then none else some line, ⟨stream.rest.drop line.length, stream.eof || short⟩)

/-- The lines that a loop reads which ends when the end of the file was noticed or nothing was read. -/
def InputStream.lines (size : ℕ) : ℕ → InputStream A → List (List A)
  | 0, _ => []
  | fuel + 1, stream =>
    if stream.eof then []
    else
      match stream.fgets eol size with
      | (none, _) => []
      | (some line, stream) => line :: InputStream.lines size fuel stream

/-- The lines of a file that was just opened. -/
def fileLines (size : ℕ) (content : List A) : List (List A) :=
  InputStream.lines eol size (content.length + 1) (InputStream.ofContent content)

/-- What is read is the start of the text. -/
theorem lineAt_append_drop (room : ℕ) (text : List A) :
    lineAt eol room text ++ text.drop (lineAt eol room text).length = text := by
  induction room generalizing text with
  | zero => rfl
  | succ room ih =>
    cases text with
    | nil => rfl
    | cons c text =>
      rw [lineAt]
      split
      · rfl
      · rw [List.cons_append, List.length_cons, List.drop_succ_cons, ih]

/-- No more is read than there is room for. -/
theorem length_lineAt_le (room : ℕ) (text : List A) : (lineAt eol room text).length ≤ room := by
  induction room generalizing text with
  | zero => exact le_rfl
  | succ room ih =>
    cases text with
    | nil => exact Nat.zero_le _
    | cons c text =>
      rw [lineAt]
      split
      · exact Nat.succ_le_succ (Nat.zero_le room)
      · exact Nat.succ_le_succ (ih text)

/-- What is behind the end of a line is not read. -/
theorem lineAt_append (room : ℕ) {text : List A} (h : eol ∈ text) (after : List A) :
    lineAt eol room (text ++ after) = lineAt eol room text := by
  induction room generalizing text with
  | zero => rfl
  | succ room ih =>
    cases text with
    | nil => exact absurd h List.not_mem_nil
    | cons c text =>
      rw [List.cons_append, lineAt, lineAt]
      by_cases hc : c = eol
      · rw [if_pos hc, if_pos hc]
      · rw [if_neg hc, if_neg hc, ih ((List.mem_cons.mp h).resolve_left fun heq => hc heq.symm)]

/-- Nothing is read at the end of the text only. -/
theorem lineAt_eq_nil_iff {room : ℕ} (hroom : 0 < room) (text : List A) :
    lineAt eol room text = [] ↔ text = [] := by
  obtain ⟨room, rfl⟩ := Nat.exists_eq_succ_of_ne_zero hroom.ne'
  cases text with
  | nil => exact iff_of_true rfl rfl
  | cons c text =>
    refine iff_of_false (fun h => ?_) (List.cons_ne_nil c text)
    rw [lineAt] at h
    split at h <;> exact absurd h (List.cons_ne_nil _ _)

/-- A line that fits is read as a whole. -/
theorem lineAt_line {room : ℕ} {line : List A} (hline : eol ∉ line) (hroom : line.length < room)
    (text : List A) : lineAt eol room (line ++ eol :: text) = line ++ [eol] := by
  induction line generalizing room with
  | nil =>
    obtain ⟨room, rfl⟩ := Nat.exists_eq_succ_of_ne_zero hroom.ne'
    exact if_pos rfl
  | cons c line ih =>
    obtain ⟨room, rfl⟩ := Nat.exists_eq_succ_of_ne_zero (Nat.ne_of_gt (Nat.zero_lt_of_lt hroom))
    obtain ⟨hc, hline⟩ := not_or.mp (List.mem_cons.not.mp hline)
    rw [List.cons_append, lineAt, if_neg (Ne.symm hc), ih hline (Nat.lt_of_succ_lt_succ hroom)]
    rfl

/-- A last line that fits and has no end. -/
theorem lineAt_last {room : ℕ} {line : List A} (hline : eol ∉ line) (hroom : line.length ≤ room) :
    lineAt eol room line = line := by
  induction line generalizing room with
  | nil => cases room <;> rfl
  | cons c line ih =>
    obtain ⟨room, rfl⟩ := Nat.exists_eq_succ_of_ne_zero (Nat.ne_of_gt (Nat.zero_lt_of_lt hroom))
    obtain ⟨hc, hline⟩ := not_or.mp (List.mem_cons.not.mp hline)
    rw [lineAt, if_neg (Ne.symm hc), ih hline (Nat.le_of_succ_le_succ hroom)]

/-- What `fgets` reads, and what it leaves: a stream with the rest of the text. -/
theorem InputStream.fgets_of_ne_nil {size : ℕ} (hsize : 1 < size) {stream : InputStream A}
    (h : stream.rest ≠ []) :
    (stream.fgets eol size).1 = some (lineAt eol (size - 1) stream.rest) := by
  have hne : lineAt eol (size - 1) stream.rest ≠ [] := fun hnil =>
    h ((lineAt_eq_nil_iff eol (by omega) _).mp hnil)
  rw [fgets]
  exact if_neg fun hempty => hne (List.isEmpty_iff.mp hempty)

/-- One turn of the loop, where the text goes on. -/
theorem InputStream.lines_succ {size : ℕ} (hsize : 1 < size) {fuel : ℕ} {text : List A} (h : text ≠ []) :
    InputStream.lines eol size (fuel + 1) ⟨text, false⟩ =
      lineAt eol (size - 1) text ::
        InputStream.lines eol size fuel ((⟨text, false⟩ : InputStream A).fgets eol size).2 := by
  have hread : ((⟨text, false⟩ : InputStream A).fgets eol size).1 = some (lineAt eol (size - 1) text) :=
    InputStream.fgets_of_ne_nil eol hsize h
  rw [InputStream.lines, if_neg Bool.false_ne_true]
  generalize (⟨text, false⟩ : InputStream A).fgets eol size = answer at hread ⊢
  obtain ⟨line, stream⟩ := answer
  obtain rfl : line = some _ := hread
  rfl

/-- The loop ends at the end of the file. -/
theorem InputStream.lines_nil {size fuel : ℕ} (eof : Bool) :
    InputStream.lines eol size fuel ⟨[], eof⟩ = [] := by
  have hread : lineAt eol (size - 1) ([] : List A) = [] := by cases size - 1 <;> rfl
  cases fuel with
  | zero => rfl
  | succ fuel =>
    rw [InputStream.lines]
    split
    · rfl
    · rw [InputStream.fgets, hread]
      rfl

/-- A line that was cut off neither by its end nor by the buffer is the rest of the text. -/
theorem lineAt_short {room : ℕ} {text : List A} (hroom : (lineAt eol room text).length < room)
    (hlast : (lineAt eol room text).getLast? ≠ some eol) : lineAt eol room text = text := by
  induction room generalizing text with
  | zero => exact absurd hroom (Nat.not_lt_zero _)
  | succ room ih =>
    cases text with
    | nil => rfl
    | cons c text =>
      rw [lineAt] at hroom hlast ⊢
      by_cases hc : c = eol
      · rw [if_pos hc] at hlast
        exact absurd (congrArg some hc) hlast
      · rw [if_neg hc] at hroom hlast ⊢
        rw [ih (Nat.lt_of_succ_lt_succ hroom) fun h => hlast ?_]
        rw [List.getLast?_cons, h]
        rfl

/-- After a line is read the loop goes on with the rest of the text, if there is any. -/
theorem InputStream.lines_fgets {size fuel : ℕ} {text : List A} :
    InputStream.lines eol size fuel ((⟨text, false⟩ : InputStream A).fgets eol size).2 =
      InputStream.lines eol size fuel ⟨text.drop (lineAt eol (size - 1) text).length, false⟩ := by
  by_cases hshort : (lineAt eol (size - 1) text).length < size - 1 ∧
      (lineAt eol (size - 1) text).getLast? ≠ some eol
  · have hrest : text.drop (lineAt eol (size - 1) text).length = [] := by
      rw [lineAt_short eol hshort.1 hshort.2, List.drop_length]
    simp only [fgets, hrest, lines_nil]
  · simp only [fgets, decide_eq_false hshort, Bool.or_false]

/-- Lines with their ends, where the last one has none. -/
def withEnds : List (List A) → List (List A)
  | [] => []
  | [line] => if line.isEmpty then [] else [line]
  | line :: next :: lines => (line ++ [eol]) :: withEnds (next :: lines)

/-- A text of lines that fit into the buffer with their ends is read as these lines. -/
theorem InputStream.lines_intercalate {size : ℕ} {lines : List (List A)} (hlines : ∀ line ∈ lines, eol ∉ line)
    (hsize : ∀ line ∈ lines, line.length < size - 1) {fuel : ℕ}
    (hfuel : ([eol].intercalate lines).length < fuel) :
    InputStream.lines eol size fuel ⟨[eol].intercalate lines, false⟩ = withEnds eol lines := by
  induction lines generalizing fuel with
  | nil => exact InputStream.lines_nil eol false
  | cons line lines ih =>
    obtain ⟨hline, hlines⟩ := List.forall_mem_cons.mp hlines
    obtain ⟨hroom, hrooms⟩ := List.forall_mem_cons.mp hsize
    have hbuffer : 1 < size := by omega
    obtain ⟨fuel, rfl⟩ := Nat.exists_eq_succ_of_ne_zero (Nat.ne_of_gt (Nat.zero_lt_of_lt hfuel))
    cases lines with
    | nil =>
      rw [List.intercalate_singleton]
      cases line with
      | nil => exact InputStream.lines_nil eol false
      | cons c line =>
        rw [InputStream.lines_succ eol hbuffer (List.cons_ne_nil c line), InputStream.lines_fgets,
          lineAt_last eol hline hroom.le, List.drop_length, InputStream.lines_nil]
        rfl
    | cons next lines =>
      rw [List.intercalate_cons_cons] at hfuel ⊢
      have htext : line ++ [eol] ++ [eol].intercalate (next :: lines) =
          line ++ eol :: [eol].intercalate (next :: lines) := List.append_cons _ _ _ |>.symm
      have hne : line ++ eol :: [eol].intercalate (next :: lines) ≠ [] :=
        List.append_ne_nil_of_right_ne_nil _ (List.cons_ne_nil _ _)
      rw [htext] at hfuel ⊢
      have hfuel : ([eol].intercalate (next :: lines)).length < fuel := by
        rw [List.length_append, List.length_cons] at hfuel
        omega
      rw [InputStream.lines_succ eol hbuffer hne, InputStream.lines_fgets, lineAt_line eol hline hroom,
        ← htext, List.drop_left, ih hlines hrooms hfuel]
      rfl

/-- The lines of a text that consists of short lines. -/
theorem fileLines_intercalate {size : ℕ} {lines : List (List A)} (hlines : ∀ line ∈ lines, eol ∉ line)
    (hsize : ∀ line ∈ lines, line.length < size - 1) :
    fileLines eol size ([eol].intercalate lines) = withEnds eol lines :=
  InputStream.lines_intercalate eol hlines hsize (Nat.lt_succ_self _)

end V120.Common
