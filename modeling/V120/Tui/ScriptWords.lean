import V120.Tui.Tokens

/-!
# The words of a script

The words of a line are separated by whitespace, a comment or a quoted word may begin where a word begins,
and no more than ten words count. The tokenizer finds them in a line whose words are plain, or quoted and
of the few forms whose end it does not have to look for, as long as the tenth word ends the line.
-/

namespace V120.Tui

open V120.Common

/-- How many characters are before the next quote that is not escaped. -/
def beforeQuote (quote : Octet) : List Octet → ℕ
  | [] => 0
  | [c] => if c = quote then 0 else 1
  | c :: d :: text =>
    if c = quote then 0
    else if c = 0x5c then 2 + beforeQuote quote text
    else 1 + beforeQuote quote (d :: text)

/-- The first words of a line, no more than so many, each with its place. What follows on a quoted word
without a space between them is a plain word. -/
def scriptWords : ℕ → Bool → ℕ → List Octet → List (ℕ × List Octet)
  | 0, _, _, _ => []
  | room + 1, quoted, s, text =>
    let start := s + (text.takeWhile isspace).length
    let joined := quoted && start = s
    match text.dropWhile isspace with
    | [] => []
    | c :: rest =>
      if c = 0x23 ∧ joined = false then []
      else if c = 0x22 ∧ joined = false then
        let n := beforeQuote 0x22 rest
        (start, c :: rest.take (n + 1)) :: scriptWords room true (start + (n + 2)) (rest.drop (n + 1))
      else if c = 0x27 ∧ joined = false then
        let n := beforeQuote 0x27 rest
        (start + 1, rest.take n) :: scriptWords room true (start + (n + 2)) (rest.drop (n + 1))
      else
        let word := c :: rest.takeWhile (!isspace ·)
        (start, word) :: scriptWords room false (start + word.length) (rest.dropWhile (!isspace ·))

/-- There is nothing but whitespace, or a comment behind it. -/
def NoWords (text : List Octet) : Prop := ∀ c, (text.dropWhile isspace).head? = some c → c = 0x23

/-- A string ends by itself before what is behind it. -/
def Terminated (ended : Bool) (behind : List Octet) : Prop :=
  (behind = [] ∧ ended = false) ∨ behind.head? = some 0

/-- The tenth word is terminated by what is behind it. -/
def LastWord (ended : Bool) (word behind : List Octet) : Prop :=
  word ≠ [] ∧ 0 ∉ word ∧ Terminated ended behind

/-- The tokenizer finds the words of a line, which goes on with this text and may have an end: there is no
`'\\0'` in it, no word behind a carriage return or in place of a vertical tab, a single-quoted word is the
tenth, a double-quoted one is empty or has a single character and no end, and the tenth word is the end of
the line. -/
def Clean (ended : Bool) : ℕ → ℕ → List Octet → Prop
  | 0, _, _ => True
  | room + 1, s, text =>
    let start := s + (text.takeWhile isblank).length
    match text.dropWhile isblank with
    | [] => True
    | c :: rest =>
      if c = 0x23 then True
      else if c = 0 then False
      else if c = 0x0d then NoWords rest
      else if c = 0x22 then
        let n := beforeQuote 0x22 rest
        if room = 0 then LastWord ended (c :: rest.take (n + 1)) (rest.drop (n + 1))
        else
          match rest with
          | [] => ended = false ∧ start + 2 < lineMax
          | [d] => d ≠ 0
          | d :: e :: behind => d = 0x22 ∧ isspace e = true ∧ Clean ended room (start + 3) behind
      else if c = 0x27 then
        let n := beforeQuote 0x27 rest
        room = 0 ∧ LastWord ended (rest.take n) (rest.drop n)
      else if isspace c then room ≠ 0 ∧ NoWords rest ∧ Clean ended room (start + 1) rest
      else
        let word := c :: rest.takeWhile (!isspace ·)
        let behind := rest.dropWhile (!isspace ·)
        if room = 0 then LastWord ended word behind
        else 0 ∉ word ∧ Clean ended room (start + word.length + 1) behind.tail

/-- What the calls of `token_next` answer is these words, and `NULL` behind them. -/
def Matches (found : Option (List (ℕ × List Octet))) (expected : List (ℕ × List Octet)) : Prop :=
  ∃ tokens : List (ℕ × List Octet), found = some tokens ∧ ∀ n : ℕ, tokens[n]?.filter nonNull = expected[n]?

section Matching

variable {found : Option (List (ℕ × List Octet))} {expected : List (ℕ × List Octet)}
  {token word : ℕ × List Octet}

/-- No argument. -/
theorem matches_nil_iff : Matches (some []) expected ↔ expected = [] := by
  constructor
  · rintro ⟨tokens, ⟨⟩, h⟩
    exact List.eq_nil_iff_forall_not_mem.mpr fun word hword => by
      obtain ⟨n, hn⟩ := List.getElem?_of_mem hword
      exact absurd ((h n).trans hn) (Option.some_ne_none word).symm
  · rintro rfl
    exact ⟨[], rfl, fun n => rfl⟩

/-- One argument for a word. -/
theorem matches_cons_iff : Matches (found.map (token :: ·)) (word :: expected) ↔
    (nonNull token = true ∧ token = word) ∧ Matches found expected := by
  constructor
  · rintro ⟨tokens, hfound, h⟩
    obtain ⟨others, hothers, rfl⟩ := Option.map_eq_some_iff.mp hfound
    obtain ⟨hword, hnonNull⟩ := Option.filter_eq_some_iff.mp (h 0)
    have heq : token = word := Option.some.inj hword
    exact ⟨⟨heq ▸ hnonNull, heq⟩, others, hothers, fun n => h (n + 1)⟩
  · rintro ⟨⟨hnonNull, rfl⟩, others, rfl, h⟩
    refine ⟨token :: others, rfl, fun n => ?_⟩
    cases n with
    | zero => exact Option.filter_eq_some_iff.mpr ⟨rfl, hnonNull⟩
    | succ n => exact h n

/-- An argument where there is no word. -/
theorem matches_cons_nil_iff :
    Matches (found.map (token :: ·)) [] ↔ nonNull token = false ∧ Matches found [] := by
  constructor
  · rintro ⟨tokens, hfound, h⟩
    obtain ⟨others, hothers, rfl⟩ := Option.map_eq_some_iff.mp hfound
    refine ⟨?_, others, hothers, fun n => h (n + 1)⟩
    by_contra hnonNull
    have hfirst : (some token).filter nonNull = none := h 0
    rw [Option.filter_some, if_pos (Bool.of_not_eq_false hnonNull)] at hfirst
    exact absurd hfirst (Option.some_ne_none token)
  · rintro ⟨hnull, others, rfl, h⟩
    refine ⟨token :: others, rfl, fun n => ?_⟩
    cases n with
    | zero => exact (Option.filter_some ..).trans (if_neg (by rw [hnull]; exact Bool.false_ne_true))
    | succ n => exact h n

/-- A single argument for a word. -/
theorem matches_singleton_iff : Matches (some [token]) (word :: expected) ↔
    (nonNull token = true ∧ token = word) ∧ expected = [] := by
  have hcons : Matches ((some []).map (token :: ·)) (word :: expected) ↔ _ := matches_cons_iff
  rwa [matches_nil_iff] at hcons

/-- A single argument where there is no word. -/
theorem matches_singleton_nil_iff : Matches (some [token]) [] ↔ nonNull token = false := by
  have hcons : Matches ((some []).map (token :: ·)) [] ↔ _ := matches_cons_nil_iff
  exact hcons.trans (and_iff_left (matches_nil_iff.mpr rfl))

/-- A word that no argument can be. -/
theorem not_matches (hfound : ∀ tokens, found = some tokens → ∀ token ∈ tokens, token ≠ word) :
    ¬Matches found (word :: expected) := by
  rintro ⟨tokens, hsome, h⟩
  obtain ⟨hword, -⟩ := Option.filter_eq_some_iff.mp (h 0)
  exact hfound tokens hsome word (List.mem_of_getElem? hword) rfl

end Matching

/-- Where the words begin. -/
theorem scriptWords_space {c : Octet} (hc : isspace c = true) (room : ℕ) (quoted : Bool) (s : ℕ)
    (text : List Octet) :
    scriptWords room quoted s (c :: text) = scriptWords room false (s + 1) text := by
  cases room with
  | zero => rfl
  | succ room =>
    have hstart : s + ((c :: text).takeWhile isspace).length = s + 1 + (text.takeWhile isspace).length := by
      rw [List.takeWhile_cons_of_pos hc, List.length_cons]
      omega
    have hjoined : (quoted && decide (s + 1 + (text.takeWhile isspace).length = s)) = false := by
      rw [decide_eq_false (by omega), Bool.and_false]
    simp only [scriptWords, List.dropWhile_cons_of_pos hc, hstart, hjoined, Bool.false_and]

/-- A blank is whitespace. -/
theorem isspace_of_isblank : ∀ c : Octet, isblank c = true → isspace c = true := by decide

/-- There are no words. -/
theorem scriptWords_eq_nil_iff (room s : ℕ) (text : List Octet) :
    scriptWords (room + 1) false s text = [] ↔ NoWords text := by
  rw [scriptWords, NoWords]
  cases text.dropWhile isspace with
  | nil => exact iff_of_true rfl fun c h => absurd h (Option.some_ne_none c).symm
  | cons c rest =>
    simp only [Bool.false_and, and_true, List.head?_cons, Option.some.injEq, forall_eq']
    by_cases hc : c = 0x23
    · rw [if_pos hc]
      exact iff_of_true rfl hc
    · rw [if_neg hc]
      refine iff_of_false (fun h => ?_) hc
      split at h
      · exact absurd h (List.cons_ne_nil _ _)
      · split at h <;> exact absurd h (List.cons_ne_nil _ _)

/-- Words begin in the part of the line that is left. -/
theorem le_of_head_scriptWords {room s : ℕ} {quoted : Bool} {text : List Octet} {word : ℕ × List Octet}
    (h : (scriptWords room quoted s text).head? = some word) : s ≤ word.1 := by
  cases room with
  | zero => exact absurd h (Option.some_ne_none word).symm
  | succ room =>
    rw [scriptWords] at h
    cases htext : text.dropWhile isspace with
    | nil =>
      rw [htext] at h
      exact absurd h (Option.some_ne_none word).symm
    | cons c rest =>
      simp only [htext] at h
      split at h
      · exact absurd h (Option.some_ne_none word).symm
      · split at h
        · obtain rfl := Option.some.inj h
          exact Nat.le_add_right _ _
        · split at h
          · obtain rfl := Option.some.inj h
            exact Nat.le_add_right_of_le (Nat.le_add_right _ _)
          · obtain rfl := Option.some.inj h
            exact Nat.le_add_right _ _

/-- What is in the buffer behind the text of a line: its end, if it has one, and zeros. -/
def lineEnd (ended : Bool) (k : ℕ) : List Octet :=
  (if ended then [newline] else []) ++ List.replicate (k + 1) 0

/-- The scanner ends at the end of a line. -/
theorem exists_lineEnd (ended : Bool) (k : ℕ) : ∃ c rest, lineEnd ended k = c :: rest ∧ isblank c = false ∧
    endsArguments c = true ∧ (!isspace c && c != 0) = false := by
  cases ended with
  | false => exact ⟨0, List.replicate k 0, rfl, by decide, by decide, by decide⟩
  | true => exact ⟨newline, List.replicate (k + 1) 0, rfl, by decide, by decide, by decide⟩

/-- There is a `'\0'`. -/
theorem zero_mem_lineEnd (ended : Bool) (k : ℕ) : 0 ∈ lineEnd ended k :=
  List.mem_append_right _ (List.mem_replicate.mpr ⟨Nat.succ_ne_zero k, rfl⟩)

/-- A string is this word exactly when the word ends by itself. -/
theorem cString_eq_iff (word behind : List Octet) (ended : Bool) (k : ℕ) :
    cString (word ++ (behind ++ lineEnd ended k)) = word ↔ 0 ∉ word ∧ Terminated ended behind := by
  induction word with
  | nil =>
    simp only [List.nil_append, List.not_mem_nil, not_false_eq_true, true_and, Terminated]
    cases behind with
    | nil => cases ended <;> simp [lineEnd, cString, newline, List.replicate_succ]
    | cons c behind => by_cases hc : c = 0 <;> simp [cString, hc]
  | cons c word ih =>
    by_cases hc : c = 0
    · simp [cString, hc]
    · have hne : ¬0 = c := fun h => hc h.symm
      rw [List.cons_append, cString_cons hc, List.cons.injEq, ih, List.mem_cons]
      simp only [true_and, hne, false_or]

/-- The scanner skips blanks. -/
theorem scanTokens_blank {c : Octet} (hc : isblank c = true) (room s : ℕ) (text : List Octet) :
    scanTokens room s (c :: text) = scanTokens room (s + 1) text := by
  cases room with
  | zero => rfl
  | succ room =>
    have hstart : s + ((c :: text).takeWhile isblank).length = s + 1 + (text.takeWhile isblank).length := by
      rw [List.takeWhile_cons_of_pos hc, List.length_cons]
      omega
    simp only [scanTokens, List.dropWhile_cons_of_pos hc, hstart]

/-- The condition skips blanks. -/
theorem clean_blank {c : Octet} (hc : isblank c = true) (ended : Bool) (room s : ℕ) (text : List Octet) :
    Clean ended room s (c :: text) ↔ Clean ended room (s + 1) text := by
  cases room with
  | zero => exact Iff.rfl
  | succ room =>
    have hstart : s + ((c :: text).takeWhile isblank).length = s + 1 + (text.takeWhile isblank).length := by
      rw [List.takeWhile_cons_of_pos hc, List.length_cons]
      omega
    simp only [Clean, List.dropWhile_cons_of_pos hc, hstart]

/-- The scanner at the end of the line. -/
theorem scanTokens_lineEnd (room s : ℕ) (ended : Bool) (k : ℕ) :
    scanTokens room s (lineEnd ended k) = some [] := by
  obtain ⟨c, rest, hlineEnd, hblank, hends, -⟩ := exists_lineEnd ended k
  cases room with
  | zero => rfl
  | succ room =>
    rw [hlineEnd, scanTokens, List.dropWhile_cons_of_neg (by rw [hblank]; exact Bool.false_ne_true)]
    exact if_pos hends

/-- The scanner where it may find an argument. -/
theorem scanTokens_cons {c : Octet} (hc : isblank c = false) (hends : endsArguments c = false) {arg stop : ℕ}
    {rest : List Octet} (harg : argument c rest = some (arg, stop)) (room s : ℕ) :
    scanTokens (room + 1) s (c :: rest) =
      if room = 0 then some [(s + arg, cString ((c :: rest).drop arg))]
      else
        match (c :: rest).drop stop with
        | [] => none
        | d :: behind =>
          if d = 0 then some [(s + arg, cString ((c :: rest).drop arg))]
          else
            (scanTokens room (s + stop + 1) behind).map
              ((s + arg, cString (((c :: rest).take stop).drop arg)) :: ·) := by
  have hneg : ¬isblank c = true := by rw [hc]; exact Bool.false_ne_true
  have hargument : ¬endsArguments c = true := by rw [hends]; exact Bool.false_ne_true
  rw [scanTokens, List.takeWhile_cons_of_neg hneg, List.dropWhile_cons_of_neg hneg]
  refine (if_neg hargument).trans ?_
  rw [harg]
  rfl

/-- The tenth argument is the word that ends there by itself. -/
theorem matches_last_iff (place : ℕ) (word behind : List Octet) (ended : Bool) (k : ℕ) :
    Matches (some [(place, cString (word ++ (behind ++ lineEnd ended k)))]) [(place, word)] ↔
      LastWord ended word behind := by
  rw [matches_singleton_iff, Prod.mk.injEq, LastWord, ← cString_eq_iff word behind ended k]
  constructor
  · rintro ⟨⟨hnonNull, -, hword⟩, -⟩
    rw [nonNull, hword] at hnonNull
    exact ⟨by simpa using hnonNull, hword⟩
  · rintro ⟨hne, hword⟩
    exact ⟨⟨by rw [nonNull, hword]; simpa using hne, rfl, hword⟩, rfl⟩

/-- A word that is neither quoted nor a comment. -/
theorem scriptWords_plain {c : Octet} (hspace : isspace c = false) (hplain : c ≠ 0x23 ∧ c ≠ 0x22 ∧ c ≠ 0x27)
    (room s : ℕ) (rest : List Octet) : scriptWords (room + 1) false s (c :: rest) =
      (s, c :: rest.takeWhile (!isspace ·)) ::
        scriptWords room false (s + (c :: rest.takeWhile (!isspace ·)).length)
          (rest.dropWhile (!isspace ·)) := by
  have hneg : ¬isspace c = true := by rw [hspace]; exact Bool.false_ne_true
  rw [scriptWords, List.takeWhile_cons_of_neg hneg, List.dropWhile_cons_of_neg hneg]
  simp only [hplain.1, hplain.2.1, hplain.2.2, false_and, if_false, List.length_nil, Nat.add_zero]

/-- A word in double quotes. -/
theorem scriptWords_double (room s : ℕ) (rest : List Octet) : scriptWords (room + 1) false s (0x22 :: rest) =
    (s, 0x22 :: rest.take (beforeQuote 0x22 rest + 1)) ::
      scriptWords room true (s + (beforeQuote 0x22 rest + 2)) (rest.drop (beforeQuote 0x22 rest + 1)) := by
  rw [scriptWords, List.takeWhile_cons_of_neg (by decide), List.dropWhile_cons_of_neg (by decide)]
  rfl

/-- A word in single quotes. -/
theorem scriptWords_single (room s : ℕ) (rest : List Octet) : scriptWords (room + 1) false s (0x27 :: rest) =
    (s + 1, rest.take (beforeQuote 0x27 rest)) ::
      scriptWords room true (s + (beforeQuote 0x27 rest + 2)) (rest.drop (beforeQuote 0x27 rest + 1)) := by
  rw [scriptWords, List.takeWhile_cons_of_neg (by decide), List.dropWhile_cons_of_neg (by decide)]
  rfl

/-- No words. -/
theorem scriptWords_nil (room s : ℕ) (quoted : Bool) : scriptWords room quoted s [] = [] := by
  cases room <;> rfl

section Kinds

variable {ended : Bool} {k : ℕ} {c : Octet} {rest : List Octet}

/-- The run of characters of a plain word. -/
theorem argument_plain (hspace : isspace c = false) (hplain : c ≠ 0x22 ∧ c ≠ 0x27)
    (hnul : 0 ∉ c :: rest.takeWhile (!isspace ·)) :
    argument c (rest ++ lineEnd ended k) = some (0, (c :: rest.takeWhile (!isspace ·)).length) := by
  have hrun : ∀ d ∈ c :: rest.takeWhile (!isspace ·), (!isspace d && d != 0) = true := fun d hd => by
    have hsolid : (!isspace d) = true := by
      rcases List.mem_cons.mp hd with rfl | hd
      · rw [hspace]
        rfl
      · exact List.mem_takeWhile_imp (p := fun d => !isspace d) hd
    rw [hsolid, Bool.true_and, bne_iff_ne]
    rintro rfl
    exact hnul hd
  have hstop :
      (rest.dropWhile (!isspace ·) ++ lineEnd ended k).takeWhile (fun d => !isspace d && d != 0) = [] := by
    cases hbehind : rest.dropWhile (!isspace ·) with
    | nil =>
      obtain ⟨d, behind, hlineEnd, -, -, hneg⟩ := exists_lineEnd ended k
      rw [List.nil_append, hlineEnd, List.takeWhile_cons_of_neg (by rw [hneg]; exact Bool.false_ne_true)]
    | cons d behind =>
      have hd := stop_dropWhile (congrArg List.head? hbehind)
      rw [List.cons_append, List.takeWhile_cons_of_neg (by rw [hd]; exact Bool.false_ne_true)]
  have hsplit : c :: (rest ++ lineEnd ended k) =
      (c :: rest.takeWhile (!isspace ·)) ++ (rest.dropWhile (!isspace ·) ++ lineEnd ended k) := by
    rw [← List.append_assoc, List.cons_append, List.takeWhile_append_dropWhile, List.cons_append]
  rw [argument, if_neg hplain.1, if_neg hplain.2, hsplit,
    List.takeWhile_append_of_pos hrun, hstop, List.append_nil]

/-- The condition behind a character that is not blank. -/
theorem clean_cons (hc : isblank c = false) (room s : ℕ) : Clean ended (room + 1) s (c :: rest) ↔
    if c = 0x23 then True
    else if c = 0 then False
    else if c = 0x0d then NoWords rest
    else if c = 0x22 then
      let n := beforeQuote 0x22 rest
      if room = 0 then LastWord ended (c :: rest.take (n + 1)) (rest.drop (n + 1))
      else
        match rest with
        | [] => ended = false ∧ s + 2 < lineMax
        | [d] => d ≠ 0
        | d :: e :: behind => d = 0x22 ∧ isspace e = true ∧ Clean ended room (s + 3) behind
    else if c = 0x27 then
      let n := beforeQuote 0x27 rest
      room = 0 ∧ LastWord ended (rest.take n) (rest.drop n)
    else if isspace c then room ≠ 0 ∧ NoWords rest ∧ Clean ended room (s + 1) rest
    else
      let word := c :: rest.takeWhile (!isspace ·)
      let behind := rest.dropWhile (!isspace ·)
      if room = 0 then LastWord ended word behind
      else 0 ∉ word ∧ Clean ended room (s + word.length + 1) behind.tail := by
  have hneg : ¬isblank c = true := by rw [hc]; exact Bool.false_ne_true
  rw [Clean, List.takeWhile_cons_of_neg hneg, List.dropWhile_cons_of_neg hneg]
  rfl

/-- With room for so many words the condition is exact. -/
def Agrees (ended : Bool) (k room : ℕ) : Prop :=
  ∀ s text, newline ∉ text → s + text.length + (lineEnd ended k).length = lineMax →
    (Matches (scanTokens room s (text ++ lineEnd ended k)) (scriptWords room false s text) ↔
      Clean ended room s text)

/-- Nothing is left. -/
theorem clean_nil (ended : Bool) (room s : ℕ) : Clean ended room s [] := by cases room <;> trivial

/-- An argument that is a word, with whitespace or the end of the line behind it. -/
theorem matches_word_iff {room : ℕ} (s t : ℕ) {word : List Octet} (behind : List Octet)
    (hne : word ≠ []) (hnul : 0 ∉ word) (hspace : ∀ d, behind.head? = some d → isspace d = true)
    (hline : newline ∉ behind)
    (hsize : t + behind.length + (lineEnd ended k).length = lineMax)
    (quoted : Bool) (ih : Agrees ended k room) :
    Matches
      (match behind ++ lineEnd ended k with
      | [] => none
      | d :: others =>
        if d = 0 then some [(s, cString (word ++ (behind ++ lineEnd ended k)))]
        else (scanTokens room (t + 1) others).map ((s, cString word) :: ·))
      ((s, word) :: scriptWords room quoted t behind) ↔ Clean ended room (t + 1) behind.tail := by
  have hstring : cString word = word := List.takeWhile_eq_self_iff.mpr fun d hd =>
    bne_iff_ne.mpr fun h => hnul (h ▸ hd)
  have hword : nonNull (s, word) = true := by simpa [nonNull] using hne
  have hiff (found : Option (List (ℕ × List Octet))) (expected : List (ℕ × List Octet)) :
      Matches (found.map ((s, word) :: ·)) ((s, word) :: expected) ↔ Matches found expected :=
    matches_cons_iff.trans (and_iff_right ⟨hword, rfl⟩)
  cases behind with
  | nil =>
    rw [scriptWords_nil]
    refine iff_of_true ?_ (clean_nil ended room (t + 1))
    cases ended with
    | false =>
      have hterminated := (cString_eq_iff word [] false k).mpr ⟨hnul, Or.inl ⟨rfl, rfl⟩⟩
      rw [hterminated]
      exact matches_singleton_iff.mpr ⟨⟨hword, rfl⟩, rfl⟩
    | true =>
      have hzeros := scanTokens_lineEnd room (t + 1) false k
      rw [hstring]
      refine (hiff _ []).mpr ?_
      have hrest : scanTokens room (t + 1) (List.replicate (k + 1) 0) = some [] := hzeros
      exact hrest ▸ matches_nil_iff.mpr rfl
  | cons d behind =>
    have hd := hspace d rfl
    have hd0 : d ≠ 0 := by
      rintro rfl
      exact absurd hd (by decide)
    rw [List.length_cons] at hsize
    rw [List.cons_append, hstring, scriptWords_space hd]
    simp only [if_neg hd0]
    rw [hiff]
    exact ih (t + 1) behind (fun h => hline (List.mem_cons_of_mem d h)) (by omega)

/-- A word that is neither quoted nor a comment. -/
theorem matches_plain_iff {room s : ℕ} (hspace : isspace c = false) (hblank : isblank c = false)
    (hends : endsArguments c = false) (hplain : c ≠ 0x23 ∧ c ≠ 0x22 ∧ c ≠ 0x27) (hline : newline ∉ rest)
    (hsize : s + (c :: rest).length + (lineEnd ended k).length = lineMax) (ih : Agrees ended k room) :
    Matches (scanTokens (room + 1) s (c :: (rest ++ lineEnd ended k)))
        (scriptWords (room + 1) false s (c :: rest)) ↔
      if room = 0 then LastWord ended (c :: rest.takeWhile (!isspace ·)) (rest.dropWhile (!isspace ·))
      else 0 ∉ c :: rest.takeWhile (!isspace ·) ∧
        Clean ended room (s + (c :: rest.takeWhile (!isspace ·)).length + 1)
          (rest.dropWhile (!isspace ·)).tail := by
  rw [scriptWords_plain hspace hplain]
  by_cases hnul : 0 ∈ c :: rest.takeWhile (!isspace ·)
  · refine iff_of_false (not_matches fun tokens htokens token htoken heq => ?_) fun h => ?_
    · exact (scanTokens_spec htokens token htoken).2 (heq ▸ hnul)
    · split at h
      · exact h.2.1 hnul
      · exact h.1 hnul
  · have hsplit : c :: (rest ++ lineEnd ended k) =
        (c :: rest.takeWhile (!isspace ·)) ++ (rest.dropWhile (!isspace ·) ++ lineEnd ended k) := by
      rw [← List.append_assoc, List.cons_append, List.takeWhile_append_dropWhile, List.cons_append]
    have hsize' : s + (c :: rest.takeWhile (!isspace ·)).length + (rest.dropWhile (!isspace ·)).length +
        (lineEnd ended k).length = lineMax := by
      have hlength := congrArg List.length
        (List.takeWhile_append_dropWhile (p := fun d => !isspace d) (l := rest))
      rw [List.length_append] at hlength
      rw [List.length_cons] at hsize ⊢
      omega
    rw [scanTokens_cons hblank hends (argument_plain hspace hplain.2 hnul)]
    have hline' : newline ∉ rest.dropWhile (!isspace ·) := fun h => hline ((List.dropWhile_sublist _).mem h)
    generalize hword : c :: rest.takeWhile (!isspace ·) = word at *
    generalize hbehind : rest.dropWhile (!isspace ·) = behind at *
    rw [hsplit, List.drop_zero, List.drop_left, List.take_left, List.drop_zero, Nat.add_zero]
    by_cases hroom : room = 0
    · subst hroom
      simp only [if_true]
      exact matches_last_iff s word behind ended k
    · simp only [if_neg hroom]
      have hstop (d : Octet) (hd : behind.head? = some d) : isspace d = true := by
        have hnot := stop_dropWhile (p := fun d => !isspace d) (hbehind ▸ hd)
        rwa [Bool.not_eq_false'] at hnot
      rw [and_iff_right hnul]
      exact matches_word_iff s _ behind (hword ▸ List.cons_ne_nil _ _) hnul hstop hline' hsize' false ih

/-- A double quote, behind which the scanner goes on with the second character. -/
theorem argument_double : argument 0x22 (rest ++ lineEnd ended k) = some (0, 2) := by
  obtain ⟨found, hfound⟩ := Option.isSome_iff_exists.mp
    (tokcslide_isSome 0x22 (List.mem_append_right rest (zero_mem_lineEnd ended k)))
  rw [argument, if_pos rfl, hfound]
  rfl

/-- A single quote, behind which the scanner goes on. -/
theorem argument_single : argument 0x27 (rest ++ lineEnd ended k) = some (1, 1) := by
  obtain ⟨found, hfound⟩ := Option.isSome_iff_exists.mp
    (tokcslide_isSome 0x27 (List.mem_append_right rest (zero_mem_lineEnd ended k)))
  rw [argument, if_neg (by decide), if_pos rfl, hfound]
  rfl

/-- A word in double quotes which is the tenth. -/
theorem matches_double_last_iff (s : ℕ) :
    Matches (scanTokens 1 s (0x22 :: (rest ++ lineEnd ended k))) (scriptWords 1 false s (0x22 :: rest)) ↔
      LastWord ended (0x22 :: rest.take (beforeQuote 0x22 rest + 1))
        (rest.drop (beforeQuote 0x22 rest + 1)) := by
  rw [scriptWords_double, scanTokens_cons (by decide) (by decide) argument_double]
  have hlast := matches_last_iff s (0x22 :: rest.take (beforeQuote 0x22 rest + 1))
    (rest.drop (beforeQuote 0x22 rest + 1)) ended k
  rwa [List.cons_append, ← List.append_assoc, List.take_append_drop] at hlast

/-- A word in single quotes which is the tenth. -/
theorem matches_single_last_iff (s : ℕ) :
    Matches (scanTokens 1 s (0x27 :: (rest ++ lineEnd ended k))) (scriptWords 1 false s (0x27 :: rest)) ↔
      LastWord ended (rest.take (beforeQuote 0x27 rest)) (rest.drop (beforeQuote 0x27 rest)) := by
  rw [scriptWords_single, scanTokens_cons (by decide) (by decide) argument_single]
  have hlast := matches_last_iff (s + 1) (rest.take (beforeQuote 0x27 rest))
    (rest.drop (beforeQuote 0x27 rest)) ended k
  rwa [← List.append_assoc, List.take_append_drop] at hlast

/-- Another word in single quotes is never found. -/
theorem not_matches_single {room : ℕ} (hroom : room ≠ 0) (s : ℕ) :
    ¬Matches (scanTokens (room + 1) s (0x27 :: (rest ++ lineEnd ended k)))
      (scriptWords (room + 1) false s (0x27 :: rest)) := by
  rw [scriptWords_single, scanTokens_cons (by decide) (by decide) argument_single, if_neg hroom]
  obtain ⟨d, others, htext⟩ := List.exists_cons_of_ne_nil
    (List.append_ne_nil_of_right_ne_nil rest (List.ne_nil_of_mem (zero_mem_lineEnd ended k)))
  rw [htext]
  simp only [List.drop_succ_cons, List.drop_zero]
  intro h
  split at h
  · rename_i hnul
    have hempty : cString (d :: others) = [] := by rw [hnul]; rfl
    have hnonNull := (matches_singleton_iff.mp h).1.1
    rw [nonNull, hempty] at hnonNull
    exact Bool.false_ne_true hnonNull
  · exact Bool.false_ne_true (matches_cons_iff.mp h).1.1

/-- What follows on a quoted word without a space is a word of its own. -/
theorem scriptWords_joined (hspace : isspace c = false) (room s : ℕ) (rest : List Octet) :
    ∃ word words, scriptWords (room + 1) true s (c :: rest) = (s, word) :: words := by
  have hneg : ¬isspace c = true := by rw [hspace]; exact Bool.false_ne_true
  rw [scriptWords, List.takeWhile_cons_of_neg hneg, List.dropWhile_cons_of_neg hneg]
  simp only [List.length_nil, Nat.add_zero, decide_true, Bool.and_true,
    Bool.true_eq_false, and_false, if_false]
  exact ⟨_, _, rfl⟩

/-- The scanner behind a double quote: the argument has at most one more character. -/
theorem scanTokens_double {room : ℕ} (hroom : room ≠ 0) (s : ℕ) (d e : Octet) (behind : List Octet)
    (ended : Bool) (k : ℕ) :
    ∃ found, scanTokens (room + 1) s (0x22 :: (d :: e :: behind ++ lineEnd ended k)) =
        found.map ((s, cString [0x22, d]) :: ·) ∧
      found = if e = 0 then some [] else scanTokens room (s + 3) (behind ++ lineEnd ended k) := by
  refine ⟨_, ?_, rfl⟩
  rw [scanTokens_cons (by decide) (by decide) argument_double, if_neg hroom]
  simp only [List.cons_append, List.drop_succ_cons, List.drop_zero]
  by_cases he : e = 0
  · subst he
    have hstring : cString (0x22 :: d :: 0 :: (behind ++ lineEnd ended k)) = cString [0x22, d] :=
      cString_append_zero [0x22, d] _
    rw [if_pos rfl, if_pos rfl, hstring]
    rfl
  · rw [if_neg he, if_neg he]
    rfl

/-- A double quote at the end of the line. -/
theorem matches_double_nil_iff {room s : ℕ} (hroom : room ≠ 0)
    (hsize : s + 1 + (lineEnd ended k).length = lineMax) :
    Matches (scanTokens (room + 1) s (0x22 :: ([] ++ lineEnd ended k)))
        (scriptWords (room + 1) false s [0x22]) ↔
      ended = false ∧ s + 2 < lineMax := by
  rw [scriptWords_double, scanTokens_cons (by decide) (by decide) argument_double, if_neg hroom,
    List.nil_append, List.drop_succ_cons, List.drop_one, List.take_nil, List.drop_nil, scriptWords_nil]
  cases ended with
  | true =>
    refine iff_of_false (fun h => ?_) fun h => Bool.false_ne_true h.1.symm
    have hword := (matches_singleton_iff.mp h).1.2
    have hlength := congrArg List.length (Prod.mk.inj hword).2
    exact absurd hlength (by simp [lineEnd, newline, cString])
  | false =>
    have hlength : (lineEnd false k).length = k + 1 := List.length_replicate
    cases k with
    | zero =>
      -- the scanner would go on behind the buffer
      refine iff_of_false (fun h => ?_) fun h => ?_
      · obtain ⟨tokens, hnone, -⟩ := h
        exact absurd hnone (Option.some_ne_none tokens).symm
      · omega
    | succ k =>
      have hinside : s + 2 < lineMax := by omega
      exact iff_of_true (matches_singleton_iff.mpr ⟨⟨rfl, rfl⟩, rfl⟩) ⟨rfl, hinside⟩

/-- A double quote with one character behind it. -/
theorem matches_double_single_iff {room s : ℕ} (d : Octet) (hroom : room ≠ 0)
    (hsize : s + 2 + (lineEnd ended k).length = lineMax) (ih : Agrees ended k room) :
    Matches (scanTokens (room + 1) s (0x22 :: ([d] ++ lineEnd ended k)))
      (scriptWords (room + 1) false s [0x22, d]) ↔ d ≠ 0 := by
  rw [scriptWords_double, List.take_succ_cons, List.take_nil, List.drop_succ_cons,
    List.drop_nil, scriptWords_nil]
  by_cases hd : d = 0
  · refine iff_of_false (not_matches fun tokens htokens token htoken heq => ?_) fun h => h hd
    have hnul := (scanTokens_spec htokens token htoken).2
    rw [heq, hd] at hnul
    exact hnul (List.mem_cons_of_mem _ (List.mem_singleton_self 0))
  · have hnul : (0 : Octet) ∉ [0x22, d] := by simpa using fun h => hd h.symm
    have hword := matches_word_iff s (s + 2) [] (List.cons_ne_nil _ _) hnul
      (fun _ h => absurd h (Option.some_ne_none _).symm) List.not_mem_nil hsize true ih
    rw [scriptWords_nil] at hword
    rw [scanTokens_cons (by decide) (by decide) argument_double, if_neg hroom]
    exact hword.trans (iff_of_true (clean_nil _ _ _) hd)

/-- Two double quotes: the word and the argument end at the second. -/
theorem matches_double_closed_iff {room s : ℕ} (e : Octet) (behind : List Octet) (hroom : room ≠ 0)
    (hline : newline ∉ e :: behind)
    (hsize : s + 2 + (e :: behind).length + (lineEnd ended k).length = lineMax)
    (ih : Agrees ended k room) :
    Matches (scanTokens (room + 1) s (0x22 :: (0x22 :: e :: behind ++ lineEnd ended k)))
        (scriptWords (room + 1) false s (0x22 :: 0x22 :: e :: behind)) ↔
      isspace e = true ∧ Clean ended room (s + 3) behind := by
  have hquote : beforeQuote 0x22 (0x22 :: e :: behind) = 0 := if_pos rfl
  rw [scriptWords_double]
  simp only [hquote, Nat.zero_add, List.take_succ_cons, List.take_zero, List.drop_succ_cons, List.drop_zero]
  by_cases he : isspace e = true
  · have hnul : (0 : Octet) ∉ [0x22, 0x22] := by decide
    have hspace (c : Octet) (hc : (e :: behind).head? = some c) : isspace c = true := Option.some.inj hc ▸ he
    have hword := matches_word_iff s (s + 2) (e :: behind) (List.cons_ne_nil _ _) hnul
      hspace hline hsize true ih
    rw [scanTokens_cons (by decide) (by decide) argument_double, if_neg hroom]
    exact hword.trans (and_iff_right he).symm
  · -- the next word begins before the next argument
    obtain ⟨found, hscan, hfound⟩ := scanTokens_double hroom s 0x22 e behind ended k
    obtain ⟨room, rfl⟩ := Nat.exists_eq_succ_of_ne_zero hroom
    obtain ⟨word, words, hwords⟩ := scriptWords_joined (Bool.eq_false_of_not_eq_true he) room (s + 2) behind
    rw [hscan, hwords]
    refine iff_of_false (fun h => ?_) fun h => he h.1
    refine not_matches (fun tokens htokens token htoken heq => ?_) (matches_cons_iff.mp h).2
    rw [hfound] at htokens
    split at htokens
    · cases htokens
      exact absurd htoken List.not_mem_nil
    · have hplace := (scanTokens_spec htokens token htoken).1
      rw [heq] at hplace
      exact absurd hplace (by omega)

/-- A word in double quotes which is not the tenth. -/
theorem matches_double_iff {room s : ℕ} (rest : List Octet) (hroom : room ≠ 0) (ih : Agrees ended k room) :
    newline ∉ rest → s + (0x22 :: rest).length + (lineEnd ended k).length = lineMax →
      (Matches (scanTokens (room + 1) s (0x22 :: (rest ++ lineEnd ended k)))
          (scriptWords (room + 1) false s (0x22 :: rest)) ↔
        match rest with
        | [] => ended = false ∧ s + 2 < lineMax
        | [d] => d ≠ 0
        | d :: e :: behind => d = 0x22 ∧ isspace e = true ∧ Clean ended room (s + 3) behind) := by
  intro hline hsize
  cases rest with
  | nil => exact matches_double_nil_iff hroom hsize
  | cons d rest =>
    cases rest with
    | nil => exact matches_double_single_iff d hroom hsize ih
    | cons e behind =>
      by_cases hd : d = 0x22
      · subst hd
        have hsize' : s + 2 + (e :: behind).length + (lineEnd ended k).length = lineMax := by
          rw [List.length_cons, List.length_cons] at hsize
          omega
        have hline' : newline ∉ e :: behind := fun h => hline (List.mem_cons_of_mem _ h)
        exact (matches_double_closed_iff e behind hroom hline' hsize' ih).trans (and_iff_right rfl).symm
      · -- the argument is shorter than the word
        obtain ⟨found, hscan, -⟩ := scanTokens_double hroom s d e behind ended k
        rw [hscan, scriptWords_double]
        refine iff_of_false (fun h => ?_) fun h => hd h.1
        have hlength := congrArg List.length (Prod.mk.inj (matches_cons_iff.mp h).1.2).2
        have hshort : (cString [0x22, d]).length ≤ 2 := (List.takeWhile_sublist _).length_le
        have hlong : 1 ≤ beforeQuote 0x22 (d :: e :: behind) := by
          rw [beforeQuote, if_neg hd]
          split <;> omega
        rw [List.length_cons, List.length_take, List.length_cons, List.length_cons] at hlength
        omega

/-- A vertical tab or a form feed where a word is looked for. -/
theorem matches_gap_iff {room s : ℕ} (hspace : isspace c = true) (hblank : isblank c = false)
    (hends : endsArguments c = false) (hline : newline ∉ rest)
    (hsize : s + (c :: rest).length + (lineEnd ended k).length = lineMax) (ih : Agrees ended k room) :
    Matches (scanTokens (room + 1) s (c :: (rest ++ lineEnd ended k)))
        (scriptWords (room + 1) false s (c :: rest)) ↔
      room ≠ 0 ∧ NoWords rest ∧ Clean ended room (s + 1) rest := by
  have hc0 : c ≠ 0 := by
    rintro rfl
    exact absurd hspace (by decide)
  have harg : argument c (rest ++ lineEnd ended k) = some (0, 0) := by
    have hquote : c ≠ 0x22 ∧ c ≠ 0x27 := by
      constructor <;> rintro rfl <;> exact absurd hspace (by decide)
    rw [argument, if_neg hquote.1, if_neg hquote.2,
      List.takeWhile_cons_of_neg (by rw [hspace]; exact Bool.false_ne_true)]
    rfl
  rw [scanTokens_cons hblank hends harg, scriptWords_space hspace]
  simp only [List.drop_zero, List.take_zero, Nat.add_zero, if_neg hc0]
  by_cases hroom : room = 0
  · subst hroom
    refine iff_of_false (fun h => ?_) fun h => h.1 rfl
    rw [if_pos rfl] at h
    cases hwords : scriptWords 1 false (s + 1) rest with
    | nil =>
      rw [hwords] at h
      have hnull := matches_singleton_nil_iff.mp h
      rw [nonNull, cString_cons hc0] at hnull
      exact Bool.false_ne_true hnull.symm
    | cons word words =>
      rw [hwords] at h
      have hplace := le_of_head_scriptWords (congrArg List.head? hwords)
      rw [← (matches_singleton_iff.mp h).1.2] at hplace
      exact absurd hplace (Nat.not_succ_le_self s)
  · rw [if_neg hroom, and_iff_right hroom]
    obtain ⟨room, rfl⟩ := Nat.exists_eq_succ_of_ne_zero hroom
    by_cases hnone : NoWords rest
    · have hnil (room : ℕ) := scriptWords_eq_nil_iff room (s + 1) rest
      have hrest := ih (s + 1) rest hline (by rw [List.length_cons] at hsize; omega)
      rw [(hnil room).mpr hnone] at hrest
      rw [(hnil (room + 1)).mpr hnone, matches_cons_nil_iff, hrest]
      exact and_congr_left' (iff_of_true rfl hnone)
    · refine iff_of_false (fun h => ?_) fun h => hnone h.1
      cases hwords : scriptWords (room + 2) false (s + 1) rest with
      | nil => exact hnone ((scriptWords_eq_nil_iff (room + 1) (s + 1) rest).mp hwords)
      | cons word words =>
        rw [hwords] at h
        exact Bool.false_ne_true (matches_cons_iff.mp h).1.1

end Kinds

/-- The kinds of characters at which the scanner ends. -/
theorem endsArguments_cases :
    ∀ c : Octet, endsArguments c = true → c = 0x23 ∨ c = 0 ∨ c = 0x0d ∨ c = newline := by
  decide

/-- The condition is exact for what is left of a line. -/
theorem agrees (ended : Bool) (k room : ℕ) : Agrees ended k room := by
  induction room with
  | zero => exact fun s text _ _ => iff_of_true ⟨[], rfl, fun n => rfl⟩ trivial
  | succ room ih =>
    intro s text hline hsize
    induction text generalizing s with
    | nil =>
      rw [List.nil_append, scanTokens_lineEnd, scriptWords_nil]
      exact iff_of_true (matches_nil_iff.mpr rfl) (clean_nil _ _ _)
    | cons c rest ihtext =>
      obtain ⟨hc, hrest⟩ := not_or.mp (List.mem_cons.not.mp hline)
      by_cases hblank : isblank c = true
      · rw [List.length_cons] at hsize
        rw [List.cons_append, scanTokens_blank hblank, clean_blank hblank,
          scriptWords_space (isspace_of_isblank c hblank)]
        exact ihtext (s + 1) hrest (by omega)
      · rw [Bool.not_eq_true] at hblank
        rw [List.cons_append, clean_cons hblank]
        by_cases hends : endsArguments c = true
        · have hscan : scanTokens (room + 1) s (c :: (rest ++ lineEnd ended k)) = some [] := by
            have hneg : ¬isblank c = true := by rw [hblank]; exact Bool.false_ne_true
            rw [scanTokens, List.dropWhile_cons_of_neg hneg]
            exact if_pos hends
          rw [hscan, matches_nil_iff]
          rcases endsArguments_cases c hends with rfl | rfl | rfl | rfl
          · exact iff_of_true rfl trivial
          · rw [scriptWords_plain (by decide) (by decide)]
            exact iff_of_false (List.cons_ne_nil _ _) id
          · rw [scriptWords_space (by decide), scriptWords_eq_nil_iff]
            rfl
          · exact absurd rfl hc
        · rw [Bool.not_eq_true] at hends
          have hplain : c ≠ 0x23 ∧ c ≠ 0 ∧ c ≠ 0x0d := by
            refine ⟨?_, ?_, ?_⟩ <;> rintro rfl <;> exact absurd hends (by decide)
          rw [if_neg hplain.1, if_neg hplain.2.1, if_neg hplain.2.2]
          by_cases hdouble : c = 0x22
          · subst hdouble
            rw [if_pos rfl]
            by_cases hroom : room = 0
            · subst hroom
              exact matches_double_last_iff s
            · simp only [if_neg hroom]
              exact matches_double_iff rest hroom ih hrest hsize
          · rw [if_neg hdouble]
            by_cases hsingle : c = 0x27
            · subst hsingle
              rw [if_pos rfl]
              by_cases hroom : room = 0
              · subst hroom
                exact (matches_single_last_iff s).trans (and_iff_right rfl).symm
              · exact iff_of_false (not_matches_single hroom s) fun h => hroom h.1
            · rw [if_neg hsingle]
              by_cases hspace : isspace c = true
              · rw [if_pos hspace]
                exact matches_gap_iff hspace hblank hends hrest hsize ih
              · rw [if_neg hspace]
                exact matches_plain_iff (Bool.eq_false_of_not_eq_true hspace) hblank hends
                  ⟨hplain.1, hdouble, hsingle⟩ hrest hsize ih

end V120.Tui
