import V120.Tui.ScriptWords

/-!
# Scripts line by line

A line without a word is skipped, and of any other `token_next` is to answer with the words. Exactly the
lines that fit into the buffer and meet the condition for their words are taken so, and longer ones when
they have no word and each piece is skipped.
-/

namespace V120.Tui

open V120.Common

/-- A line with its end, which the last one may lack. -/
def lineText (body : List Octet) (ended : Bool) : List Octet := body ++ if ended then [newline] else []

/-- The tokenizer takes a line as it should, with this text behind it: it skips a line without words, or
stops behind a line that is in the buffer as a whole, and `token_next` answers with its words. -/
def TakesLine (body : List Octet) (ended : Bool) (after : List Octet) : Prop :=
  let stream : InputStream Octet := ⟨lineText body ended ++ after, false⟩
  (scriptWords nargs false 0 body = [] ∧ tokenStart stream = tokenStart ⟨after, false⟩) ∨
    ∃ tok behind, tokenStart stream = some (tok, behind) ∧ behind.rest = after ∧
      (stream.fgets newline lineMax).1 = some (lineText body ended) ∧
        ∀ n, tok.answer n = (scriptWords nargs false 0 body)[n]?

/-- The tokenizer finds no argument in a piece of a line. -/
def Skipped (text : List Octet) : Prop :=
  ∀ c, (text.dropWhile isblank).head? = some c → endsArguments c = true

/-- The pieces in which a line is read. -/
def pieces (line : List Octet) : List (List Octet) := fileLines newline lineMax line

/-- The scanner finds no argument in a text exactly when the text is skipped. -/
theorem scanTokens_skipped_iff (room s k : ℕ) (text : List Octet) :
    scanTokens (room + 1) s (text ++ List.replicate (k + 1) 0) = some [] ↔ Skipped text := by
  induction text generalizing s with
  | nil =>
    exact iff_of_true (scanTokens_lineEnd (room + 1) s false k) fun c h => absurd h (Option.some_ne_none c).symm
  | cons c text ih =>
    by_cases hblank : isblank c = true
    · rw [List.cons_append, scanTokens_blank hblank, ih, Skipped, Skipped, List.dropWhile_cons_of_pos hblank]
    · have hskipped : Skipped (c :: text) ↔ endsArguments c = true := by
        rw [Skipped, List.dropWhile_cons_of_neg hblank]
        exact ⟨fun h => h c rfl, fun h d hd => Option.some.inj hd ▸ h⟩
      rw [hskipped, List.cons_append]
      by_cases hends : endsArguments c = true
      · refine iff_of_true ?_ hends
        rw [scanTokens, List.dropWhile_cons_of_neg hblank]
        exact if_pos hends
      · refine iff_of_false (fun h => ?_) hends
        cases harg : argument c (text ++ List.replicate (k + 1) 0) with
        | none =>
          rw [scanTokens, List.dropWhile_cons_of_neg hblank] at h
          simp only [if_neg hends, harg, Option.bind_none] at h
          exact absurd h (Option.some_ne_none []).symm
        | some places =>
          rw [scanTokens_cons (Bool.eq_false_of_not_eq_true hblank)
            (Bool.eq_false_of_not_eq_true hends) harg] at h
          split at h
          · exact absurd (Option.some.inj h) (List.cons_ne_nil _ _)
          · split at h
            · exact absurd h (Option.some_ne_none []).symm
            · split at h
              · exact absurd (Option.some.inj h) (List.cons_ne_nil _ _)
              · obtain ⟨_, -, hcons⟩ := Option.map_eq_some_iff.mp h
                exact absurd hcons (List.cons_ne_nil _ _)

/-- The scanner finds no argument in a line in the buffer exactly when the line is skipped. -/
theorem scanTokens_lineBuffer_iff {text : List Octet} (h : text.length < lineMax) :
    scanTokens nargs 0 (lineBuffer text) = some [] ↔ Skipped text := by
  obtain ⟨k, hk⟩ := Nat.exists_eq_succ_of_ne_zero (Nat.sub_ne_zero_of_lt h)
  rw [lineBuffer, hk]
  exact scanTokens_skipped_iff 9 0 k text

/-- A piece fits into the buffer. -/
theorem length_lineAt_lt (text : List Octet) : (lineAt newline (lineMax - 1) text).length < lineMax :=
  Nat.lt_of_le_of_lt (length_lineAt_le newline (lineMax - 1) text) (by decide)

/-- Some of the line is in its first piece. -/
theorem drop_piece_lt {line : List Octet} (h : line ≠ []) :
    (line.drop (lineAt newline (lineMax - 1) line).length).length < line.length ∧
      (lineAt newline (lineMax - 1) line).length ≤ line.length := by
  have hroom : 0 < lineMax - 1 := by decide
  have hpos := List.length_pos_iff.mpr ((lineAt_eq_nil_iff newline hroom line).not.mpr h)
  have hpieces := congrArg List.length (lineAt_append_drop newline (lineMax - 1) line)
  rw [List.length_append] at hpieces
  omega

/-- A line all of whose pieces are skipped. -/
theorem tokenStart_skip {fuel : ℕ} {line after : List Octet} (hfuel : line.length < fuel)
    (hend : after = [] ∨ line = [] ∨ line.getLast? = some newline)
    (hskipped : ∀ piece ∈ InputStream.lines newline lineMax fuel ⟨line, false⟩, Skipped piece) :
    tokenStart ⟨line ++ after, false⟩ = tokenStart ⟨after, false⟩ := by
  induction fuel generalizing line with
  | zero => exact absurd hfuel (Nat.not_lt_zero _)
  | succ fuel ih =>
    by_cases hline : line = []
    · rw [hline, List.nil_append]
    · rw [InputStream.lines_succ newline (by decide) hline, InputStream.lines_fgets,
        List.forall_mem_cons] at hskipped
      have hpiece : lineAt newline (lineMax - 1) (line ++ after) = lineAt newline (lineMax - 1) line := by
        rcases hend with hafter | hnil | hlast
        · rw [hafter, List.append_nil]
        · exact absurd hnil hline
        · exact lineAt_append newline _ (List.mem_of_getLast? hlast) after
      obtain ⟨hshorter, hle⟩ := drop_piece_lt hline
      obtain ⟨line', eof, hstart, -⟩ := exists_tokenStart (List.append_ne_nil_of_left_ne_nil hline after)
      rw [hpiece, (scanTokens_lineBuffer_iff (length_lineAt_lt line)).mpr hskipped.1,
        Option.bind_some, if_pos rfl, List.drop_append_of_le_length hle] at hstart
      rw [hstart]
      refine ih (by omega) (hend.imp_right fun hlast => ?_) hskipped.2
      rw [List.getLast?_drop]
      split
      · rename_i hshort
        exact Or.inl (List.drop_eq_nil_of_le hshort)
      · exact Or.inr (hlast.resolve_left hline)

/-- Without anything behind it, a line is skipped only when all its pieces are. -/
theorem skipped_of_tokenStart {fuel : ℕ} {line : List Octet}
    (hskip : tokenStart ⟨line, false⟩ = tokenStart ⟨[], false⟩) :
    ∀ piece ∈ InputStream.lines newline lineMax fuel ⟨line, false⟩, Skipped piece := by
  induction fuel generalizing line with
  | zero => exact fun piece h => absurd h List.not_mem_nil
  | succ fuel ih =>
    by_cases hline : line = []
    · rw [hline, InputStream.lines_nil]
      exact fun piece h => absurd h List.not_mem_nil
    · rw [InputStream.lines_succ newline (by decide) hline, InputStream.lines_fgets, List.forall_mem_cons]
      obtain ⟨line', eof, hstart, -⟩ := exists_tokenStart hline
      rw [hskip, tokenStart_nil] at hstart
      obtain ⟨tokens, htokens, hrest⟩ := Option.bind_eq_some_iff.mp hstart.symm
      by_cases hnil : tokens = []
      · rw [hnil] at htokens
        rw [if_pos hnil, ← tokenStart_nil false] at hrest
        exact ⟨(scanTokens_lineBuffer_iff (length_lineAt_lt line)).mp htokens, ih hrest⟩
      · rw [if_neg hnil] at hrest
        have hargv := congrArg (fun start => start.1.argv) (Option.some.inj hrest)
        exact absurd (List.map_eq_nil_iff.mp hargv) hnil

/-- A line in the buffer. -/
theorem exists_lineBuffer {body : List Octet} {ended : Bool} (h : (lineText body ended).length < lineMax) :
    ∃ k, lineBuffer (lineText body ended) = body ++ lineEnd ended k ∧
      body.length + (lineEnd ended k).length = lineMax := by
  obtain ⟨k, hk⟩ := Nat.exists_eq_succ_of_ne_zero (Nat.sub_ne_zero_of_lt h)
  have hbuffer : lineBuffer (lineText body ended) = body ++ lineEnd ended k := by
    rw [lineBuffer, hk, lineText, lineEnd, List.append_assoc]
  refine ⟨k, hbuffer, ?_⟩
  rw [← List.length_append, ← hbuffer, lineBuffer, List.length_append, List.length_replicate]
  omega

/-- The condition is exact for such a line. -/
theorem matches_line_iff {body : List Octet} {ended : Bool} (hline : newline ∉ body)
    (h : (lineText body ended).length < lineMax) :
    Matches (scanTokens nargs 0 (lineBuffer (lineText body ended))) (scriptWords nargs false 0 body) ↔
      Clean ended nargs 0 body := by
  obtain ⟨k, hbuffer, hsize⟩ := exists_lineBuffer h
  rw [hbuffer]
  exact agrees ended k nargs 0 body hline (by omega)

/-- Such a line is read at once. -/
theorem lineAt_lineText {body : List Octet} {ended : Bool} (hline : newline ∉ body)
    (h : (lineText body ended).length < lineMax) {after : List Octet} (hafter : ended = false → after = []) :
    lineAt newline (lineMax - 1) (lineText body ended ++ after) = lineText body ended := by
  have hmax : lineMax = 256 := rfl
  cases ended with
  | false =>
    rw [lineText, List.length_append] at h
    rw [hafter rfl, List.append_nil, lineText]
    simp only [Bool.false_eq_true, if_false, List.append_nil, List.length_nil] at h ⊢
    exact lineAt_last newline hline (by omega)
  | true =>
    rw [lineText, if_pos rfl, List.length_append, List.length_singleton] at h
    rw [lineText, if_pos rfl, List.append_assoc, List.singleton_append]
    exact lineAt_line newline hline (by omega) after

/-- The last character of a line with an end. -/
theorem lineText_ends (body : List Octet) {ended : Bool} {after : List Octet}
    (hafter : ended = false → after = []) :
    after = [] ∨ lineText body ended = [] ∨ (lineText body ended).getLast? = some newline := by
  cases ended with
  | false => exact Or.inl (hafter rfl)
  | true => exact Or.inr (Or.inr (by rw [lineText, if_pos rfl, List.getLast?_concat]))

/-- A line whose arguments are its words is taken. -/
theorem takesLine_of_matches {body after : List Octet} {ended : Bool} (hline : newline ∉ body)
    (h : (lineText body ended).length < lineMax) (hafter : ended = false → after = [])
    (hmatches : Matches (scanTokens nargs 0 (lineBuffer (lineText body ended)))
      (scriptWords nargs false 0 body)) :
    TakesLine body ended after := by
  by_cases hempty : lineText body ended = []
  · have hbody : body = [] := (List.append_eq_nil_iff.mp hempty).1
    refine Or.inl ⟨by rw [hbody, scriptWords_nil], by rw [hempty, List.nil_append]⟩
  · have hpiece := lineAt_lineText hline h hafter
    obtain ⟨line', eof, hstart, hstrings⟩ :=
      exists_tokenStart (List.append_ne_nil_of_left_ne_nil hempty after)
    rw [hpiece, List.drop_left] at hstart
    rw [hpiece] at hstrings
    obtain ⟨tokens, htokens, hanswers⟩ := hmatches
    rw [htokens, Option.bind_some] at hstart
    by_cases hnil : tokens = []
    · rw [if_pos hnil] at hstart
      rw [hnil] at htokens
      exact Or.inl ⟨matches_nil_iff.mp ⟨[], rfl, hnil ▸ hanswers⟩, hstart⟩
    · rw [if_neg hnil] at hstart
      refine Or.inr ⟨_, _, hstart, rfl, ?_, fun n => ?_⟩
      · rw [InputStream.fgets_of_ne_nil newline (by decide)
          (List.append_ne_nil_of_left_ne_nil hempty after), hpiece]
      · rw [answer_eq rfl (hstrings tokens htokens), Nat.zero_add]
        exact hanswers n

/-- With nothing behind it, a line that is taken has its words as its arguments. -/
theorem matches_of_takesLine {body : List Octet} {ended : Bool} (hline : newline ∉ body)
    (h : (lineText body ended).length < lineMax) (htakes : TakesLine body ended []) :
    Matches (scanTokens nargs 0 (lineBuffer (lineText body ended))) (scriptWords nargs false 0 body) := by
  by_cases hempty : lineText body ended = []
  · have hbody : body = [] := (List.append_eq_nil_iff.mp hempty).1
    rw [hempty, hbody, scriptWords_nil]
    exact ⟨[], rfl, fun n => rfl⟩
  · have hpiece : lineAt newline (lineMax - 1) (lineText body ended ++ []) = lineText body ended :=
      lineAt_lineText hline h fun _ => rfl
    obtain ⟨line', eof, hstart, hstrings⟩ := exists_tokenStart hempty
    rw [List.append_nil] at hpiece
    rw [hpiece, List.drop_length] at hstart
    rw [hpiece] at hstrings
    rw [TakesLine, List.append_nil] at htakes
    rcases htakes with ⟨hwords, hskip⟩ | ⟨tok, behind, hstop, -, -, hanswers⟩
    · rw [hskip, tokenStart_nil] at hstart
      obtain ⟨tokens, htokens, hrest⟩ := Option.bind_eq_some_iff.mp hstart.symm
      by_cases hnil : tokens = []
      · rw [htokens, hnil, hwords]
        exact matches_nil_iff.mpr rfl
      · rw [if_neg hnil] at hrest
        have hargv := congrArg (fun start => start.1.argv) (Option.some.inj hrest)
        exact absurd (List.map_eq_nil_iff.mp hargv) hnil
    · rw [hstop] at hstart
      obtain ⟨tokens, htokens, hrest⟩ := Option.bind_eq_some_iff.mp hstart.symm
      refine ⟨tokens, htokens, fun n => ?_⟩
      rw [← hanswers n]
      by_cases hnil : tokens = []
      · rw [if_pos hnil, tokenStart_nil] at hrest
        have htok := (Prod.mk.inj (Option.some.inj hrest)).1
        subst htok hnil
        exact (answer_eq rfl (fun token h => absurd h List.not_mem_nil) n).symm
      · rw [if_neg hnil] at hrest
        have htok := (Prod.mk.inj (Option.some.inj hrest)).1
        subst htok
        rw [answer_eq rfl (hstrings tokens htokens), Nat.zero_add]

/-- **Which lines the tokenizer takes as it should.** Whatever follows on it, a line is skipped when it has no
word, or the answers of `token_next` are its words, exactly when it fits into the buffer and meets the
condition for words, or has no word and is skipped in each piece in which it is read. -/
theorem token_start_line_iff (body : List Octet) (ended : Bool) (hline : newline ∉ body) :
    (∀ after, (ended = false → after = []) → TakesLine body ended after) ↔
      ((lineText body ended).length < lineMax ∧ Clean ended nargs 0 body) ∨
        (NoWords body ∧ ∀ piece ∈ pieces (lineText body ended), Skipped piece) := by
  constructor
  · intro htakes
    have halone := htakes [] fun _ => rfl
    by_cases hsize : (lineText body ended).length < lineMax
    · exact Or.inl ⟨hsize, (matches_line_iff hline hsize).mp (matches_of_takesLine hline hsize halone)⟩
    · right
      rw [TakesLine, List.append_nil] at halone
      rcases halone with ⟨hwords, hskip⟩ | ⟨tok, behind, -, -, hread, -⟩
      · exact ⟨(scriptWords_eq_nil_iff 9 0 body).mp hwords, skipped_of_tokenStart hskip⟩
      · -- no more than the buffer holds is read at once
        have hne : lineText body ended ≠ [] := fun hnil => hsize (by rw [hnil]; decide)
        rw [InputStream.fgets_of_ne_nil newline (by decide) hne] at hread
        have hlt := length_lineAt_lt (lineText body ended)
        rw [Option.some.inj hread] at hlt
        exact absurd hlt hsize
  · rintro (⟨hsize, hclean⟩ | ⟨hnone, hskipped⟩) after hafter
    · exact takesLine_of_matches hline hsize hafter ((matches_line_iff hline hsize).mpr hclean)
    · exact Or.inl ⟨(scriptWords_eq_nil_iff 9 0 body).mpr hnone,
        tokenStart_skip (Nat.lt_succ_self _) (lineText_ends body hafter) hskipped⟩

/-- The line `"ab"`. -/
def quotedLine : List Octet := [0x22, 0x61, 0x62, 0x22]

/-- The word of the line `"ab"` is cut off behind its first character. -/
theorem token_start_cuts : ¬∀ body ended after, newline ∉ body → (ended = false → after = []) →
    TakesLine body ended after := by
  intro h
  have hanswer : (tokenStart ⟨lineText quotedLine true ++ [], false⟩).map (fun start => start.1.answer 0) =
      some (some (0, [0x22, 0x61])) := by decide
  rcases h quotedLine true [] (by decide) (fun _ => rfl) with
    ⟨hwords, -⟩ | ⟨tok, behind, hstop, -, -, hanswers⟩
  · exact absurd hwords (by decide)
  · rw [hstop, Option.map_some, hanswers 0] at hanswer
    exact absurd hanswer (by decide)

/-- The line `w ""` with the word `x` in front of its comment. -/
def emptyQuotes : List Octet := [0x77, 0x20, 0x22, 0x22, 0x20, 0x78, 0x20, 0x23, 0x63]

/-- Empty quotes between two words are taken as a word, and the comment is left out. -/
theorem token_start_empty_quotes : scriptWords nargs false 0 emptyQuotes =
      [(0, [0x77]), (2, [0x22, 0x22]), (5, [0x78])] ∧
    ∀ after, TakesLine emptyQuotes true after := by
  have hclean : Clean true nargs 0 emptyQuotes :=
    ⟨(by decide : (0 : Octet) ∉ [0x77]), rfl, rfl, (by decide : (0 : Octet) ∉ [0x78]), trivial⟩
  have htakes := (token_start_line_iff emptyQuotes true (by decide)).mpr (Or.inl ⟨by decide, hclean⟩)
  exact ⟨by decide, fun after => htakes after fun h => absurd h (by decide)⟩

end V120.Tui
