import V120.Common.Lines
import V120.Common.Numerals
import V120.Tui.Files

/-!
# The tokenizer for scripts

A line of a script is read into a buffer and cut into arguments in place: an argument is a pointer into the
buffer, and the character at which the scanner stopped behind it is overwritten with `'\0'`. What the
scanner does from some place on follows from the buffer from there on, so the arguments with their strings
are a function of that part alone.
-/

namespace V120.Tui

open V120.Common

/-- `LINE_MAX`. -/
def lineMax : ℕ := 256

/-- `NARGS`. -/
def nargs : ℕ := 10

/-- `struct token_buf`. An argument is its place in the line. -/
structure TokenBuf where
  argv : List ℕ
  argi : ℕ
  line : List Octet

/-- The bytes of a line that `fgets` read into a buffer full of zeros. -/
def lineBuffer (text : List Octet) : List Octet := text ++ List.replicate (lineMax - text.length) 0

/-- `tokcslide`: the buffer from where it stops on, unless it comes to the end of the buffer before. -/
def tokcslide (c : Octet) : List Octet → Option (List Octet)
  | [] => none
  | [d] => if d = c ∨ d = 0 then some [d] else none
  | d :: e :: rest =>
    if d = c ∨ d = 0 then some (d :: e :: rest)
    else if d = 0x5c ∧ e ≠ 0 then tokcslide c rest
    else tokcslide c (e :: rest)

/-- The characters at which the scanner ends. -/
def endsArguments (c : Octet) : Bool := c == 0 || c == 0x0d || c == 0x0a || c == 0x23

/-- Behind the blanks: where the argument begins, and where the scanner goes on. Both quotes call
`tokcslide`, but go on without what it answers. -/
def argument (c : Octet) (rest : List Octet) : Option (ℕ × ℕ) :=
  if c = 0x22 then (tokcslide 0x22 rest).map fun _ => (0, 2)
  else if c = 0x27 then (tokcslide 0x27 rest).map fun _ => (1, 1)
  else some (0, ((c :: rest).takeWhile fun d => !isspace d && d != 0).length)

/-- The scanner of `token_start`, with room for so many arguments. There is no answer when it reads or writes
outside of the line. -/
def scanLine : ℕ → List Octet → ℕ → List ℕ → Option (List ℕ × List Octet)
  | 0, line, _, argv => some (argv, line)
  | room + 1, line, s, argv =>
    let s := s + ((line.drop s).takeWhile isblank).length
    match line.drop s with
    | [] => none
    | c :: rest =>
      if endsArguments c then some (argv, line)
      else
        (argument c rest).bind fun (arg, stop) =>
          let argv := argv ++ [s + arg]
          if room = 0 then some (argv, line)
          else
            match (line.drop (s + stop)).head? with
            | none => none
            | some d =>
              if d = 0 then some (argv, line)
              else scanLine room (line.set (s + stop) 0) (s + stop + 1) argv

/-- The loop of `token_start` over lines without an argument. -/
def tokenStartLoop : ℕ → InputStream Octet → Option (TokenBuf × InputStream Octet)
  | 0, _ => none
  | fuel + 1, stream =>
    match stream.fgets newline lineMax with
    | (none, stream) => some (⟨[], 0, lineBuffer []⟩, stream)
    | (some text, stream) =>
      (scanLine nargs (lineBuffer text) 0 []).bind fun (argv, line) =>
        if argv = [] then tokenStartLoop fuel stream else some (⟨argv, 0, line⟩, stream)

/-- `token_start` for a stream that is not the keyboard. Every line takes something from the stream. -/
def tokenStart (stream : InputStream Octet) : Option (TokenBuf × InputStream Octet) :=
  tokenStartLoop (stream.rest.length + 1) stream

/-- `token_next`: a pointer into the line with the string at it, or `NULL`. -/
def TokenBuf.tokenNext (tok : TokenBuf) : Option (ℕ × List Octet) × TokenBuf :=
  match tok.argv[tok.argi]? with
  | none => (none, tok)
  | some arg =>
    let string := cString (tok.line.drop arg)
    (if string = [] then none else some (arg, string), { tok with argi := tok.argi + 1 })

/-- The arguments that the scanner finds from a place in the line on, each with its string. -/
def scanTokens : ℕ → ℕ → List Octet → Option (List (ℕ × List Octet))
  | 0, _, _ => some []
  | room + 1, s, text =>
    let start := s + (text.takeWhile isblank).length
    match text.dropWhile isblank with
    | [] => none
    | c :: rest =>
      if endsArguments c then some []
      else
        (argument c rest).bind fun (arg, stop) =>
          if room = 0 then some [(start + arg, cString ((c :: rest).drop arg))]
          else
            match (c :: rest).drop stop with
            | [] => none
            | d :: behind =>
              if d = 0 then some [(start + arg, cString ((c :: rest).drop arg))]
              else
                (scanTokens room (start + stop + 1) behind).map
                  ((start + arg, cString (((c :: rest).take stop).drop arg)) :: ·)

/-- The line from the first place on that is not blank. -/
theorem drop_blanks (line : List Octet) (s : ℕ) :
    line.drop (s + ((line.drop s).takeWhile isblank).length) = (line.drop s).dropWhile isblank := by
  have hsplit : ((line.drop s).takeWhile isblank ++ (line.drop s).dropWhile isblank).drop
      ((line.drop s).takeWhile isblank).length = (line.drop s).dropWhile isblank := List.drop_left
  rwa [List.takeWhile_append_dropWhile, List.drop_drop] at hsplit

/-- A string goes on with a character that is not `'\0'`. -/
theorem cString_cons {c : Octet} (hc : c ≠ 0) (text : List Octet) : cString (c :: text) = c :: cString text :=
  List.takeWhile_cons_of_pos (p := (· != 0)) (bne_iff_ne.mpr hc)

/-- A string ends at the first `'\0'`. -/
theorem cString_append_zero (text rest : List Octet) : cString (text ++ 0 :: rest) = cString text := by
  induction text with
  | nil => rfl
  | cons c text ih =>
    rw [cString, cString, List.cons_append, List.takeWhile_cons, List.takeWhile_cons, ← cString, ← cString, ih]

/-- A line that agrees with another one up to a `'\0'` written there. -/
theorem eq_take_append_zero {line line' : List Octet} {n : ℕ} (hn : n < line.length)
    (h : line'.take (n + 1) = (line.set n 0).take (n + 1)) :
    line' = line.take n ++ 0 :: line'.drop (n + 1) := by
  have hwritten : (line.set n 0).take (n + 1) = line.take n ++ [0] := by
    rw [List.set_eq_take_append_cons_drop, if_pos hn, List.take_append,
      List.take_of_length_le, List.length_take, Nat.min_eq_left hn.le, Nat.add_sub_cancel_left]
    · rfl
    · rw [List.length_take]
      omega
  conv_lhs => rw [← List.take_append_drop (n + 1) line', h, hwritten]
  rw [List.append_assoc, List.singleton_append]

/-- Before the `'\0'` the line is as it was. -/
theorem take_of_written {line line' : List Octet} {n s : ℕ} (hn : n < line.length) (hs : s ≤ n)
    (h : line'.take (n + 1) = (line.set n 0).take (n + 1)) : line'.take s = line.take s := by
  have hsize : s ≤ (line.take n).length := by
    rw [List.length_take]
    omega
  rw [eq_take_append_zero hn h, List.take_append_of_le_length hsize, List.take_take, Nat.min_eq_left hs]

/-- A string that begins before the `'\0'` ends there at the latest. -/
theorem cString_of_written {line line' : List Octet} {n arg : ℕ} (hn : n < line.length) (harg : arg ≤ n)
    (h : line'.take (n + 1) = (line.set n 0).take (n + 1)) :
    cString (line'.drop arg) = cString ((line.drop arg).take (n - arg)) := by
  have hsize : arg ≤ (line.take n).length := by
    rw [List.length_take]
    omega
  rw [eq_take_append_zero hn h, List.drop_append_of_le_length hsize, cString_append_zero, List.drop_take]

/-- An argument begins no later than where the scanner goes on. -/
theorem argument_le {c : Octet} {rest : List Octet} {arg stop : ℕ} (h : argument c rest = some (arg, stop)) :
    arg ≤ stop := by
  rw [argument] at h
  split at h
  · obtain ⟨_, -, h⟩ := Option.map_eq_some_iff.mp h
    cases h
    exact Nat.zero_le 2
  · split at h
    · obtain ⟨_, -, h⟩ := Option.map_eq_some_iff.mp h
      cases h
      exact le_rfl
    · cases h
      exact Nat.zero_le _

/-- A scan of a line from `s` on, behind the arguments `argv`, finds these tokens: it leaves them with
their strings in the line, and what is before the place where it begins is as it was. -/
def Scanned (line : List Octet) (s : ℕ) (argv : List ℕ) (tokens : Option (List (ℕ × List Octet)))
    (scan : Option (List ℕ × List Octet)) : Prop :=
  ∃ line', scan = tokens.map (fun tokens => (argv ++ tokens.map Prod.fst, line')) ∧
    line'.take s = line.take s ∧
      ∀ found, tokens = some found →
        ∀ token ∈ found, s ≤ token.1 ∧ cString (line'.drop token.1) = token.2

/-- A scan that is given up. -/
theorem scanned_none (line : List Octet) (s : ℕ) (argv : List ℕ) : Scanned line s argv none none :=
  ⟨line, rfl, rfl, fun tokens h => absurd h (Option.some_ne_none tokens).symm⟩

/-- A scan that finds nothing more. -/
theorem scanned_nil (line : List Octet) (s : ℕ) (argv : List ℕ) :
    Scanned line s argv (some []) (some (argv, line)) := by
  refine ⟨line, ?_, rfl, fun tokens h token htoken => ?_⟩
  · rw [Option.map_some, List.map_nil, List.append_nil]
  · cases h
    exact absurd htoken List.not_mem_nil

/-- The last argument, behind which nothing is overwritten. -/
theorem scanned_last (line : List Octet) {s place : ℕ} (argv : List ℕ) (hplace : s ≤ place) :
    Scanned line s argv (some [(place, cString (line.drop place))]) (some (argv ++ [place], line)) := by
  refine ⟨line, rfl, rfl, ?_⟩
  rintro tokens ⟨⟩ token htoken
  obtain rfl := List.mem_singleton.mp htoken
  exact ⟨hplace, rfl⟩

/-- An argument that is ended by a `'\0'` at `n`, and a scan that goes on behind it. -/
theorem Scanned.next {line : List Octet} {s place n : ℕ} {argv : List ℕ}
    {tokens : Option (List (ℕ × List Octet))} {scan : Option (List ℕ × List Octet)}
    (h : Scanned (line.set n 0) (n + 1) (argv ++ [place]) tokens scan) (hn : n < line.length)
    (hs : s ≤ place) (hplace : place ≤ n) :
    Scanned line s argv (tokens.map ((place, cString ((line.drop place).take (n - place))) :: ·)) scan := by
  obtain ⟨line', hscan, htake, htokens⟩ := h
  refine ⟨line', ?_, take_of_written hn (hs.trans hplace) htake, fun found h token htoken => ?_⟩
  · rw [hscan, Option.map_map]
    congr 1
    funext tokens
    simp only [Function.comp_apply, List.map_cons, List.append_assoc, List.singleton_append]
  · obtain ⟨others, hothers, rfl⟩ := Option.map_eq_some_iff.mp h
    rcases List.mem_cons.mp htoken with rfl | htoken
    · exact ⟨hs, cString_of_written hn hplace htake⟩
    · obtain ⟨hbehind, hstring⟩ := htokens others hothers token htoken
      exact ⟨by omega, hstring⟩

/-- The scanner finds the tokens of the line. -/
theorem scanned_scanLine (room : ℕ) (line : List Octet) (s : ℕ) (argv : List ℕ) :
    Scanned line s argv (scanTokens room s (line.drop s)) (scanLine room line s argv) := by
  induction room generalizing line s argv with
  | zero => exact scanned_nil line s argv
  | succ room ih =>
    have hdrop := drop_blanks line s
    rw [scanLine, scanTokens, ← hdrop]
    generalize hstart : s + ((line.drop s).takeWhile isblank).length = start at hdrop
    simp only []
    cases htext : line.drop start with
    | nil => exact scanned_none line s argv
    | cons c rest =>
      have hstring (place : ℕ) : (c :: rest).drop place = line.drop (start + place) := by
        rw [← htext, List.drop_drop]
      simp only []
      by_cases hends : endsArguments c = true
      · rw [if_pos hends, if_pos hends]
        exact scanned_nil line s argv
      · simp only [if_neg hends]
        cases harg : argument c rest with
        | none => exact scanned_none line s argv
        | some places =>
          obtain ⟨arg, stop⟩ := places
          have hbefore := argument_le harg
          have hlast : Scanned line s argv (some [(start + arg, cString (line.drop (start + arg)))])
              (some (argv ++ [start + arg], line)) := scanned_last line argv (by omega)
          simp only [Option.bind_some, hstring]
          by_cases hroom : room = 0
          · simp only [if_pos hroom]
            exact hlast
          · simp only [if_neg hroom]
            cases hstop : line.drop (start + stop) with
            | nil => exact scanned_none line s argv
            | cons d behind =>
              simp only [List.head?_cons]
              by_cases hnul : d = 0
              · simp only [if_pos hnul]
                exact hlast
              · simp only [if_neg hnul]
                have hrest : (line.set (start + stop) 0).drop (start + stop + 1) = behind := by
                  have hbehind : line.drop (start + stop + 1) = (line.drop (start + stop)).drop 1 := by
                    rw [List.drop_drop]
                  rw [List.drop_set_of_lt (Nat.lt_succ_self _), hbehind, hstop]
                  rfl
                have hsize : start + stop < line.length := by
                  have hne := congrArg List.length hstop
                  rw [List.length_drop, List.length_cons] at hne
                  omega
                have hnext := (ih (line.set (start + stop) 0) (start + stop + 1)
                  (argv ++ [start + arg])).next (s := s) hsize (by omega) (by omega)
                rwa [hrest, ← hstring, Nat.add_sub_add_left, ← List.drop_take] at hnext

/-- An argument begins in the part of the line that is scanned, and there is no `'\0'` in its string. -/
theorem scanTokens_spec {room s : ℕ} {text : List Octet} {tokens : List (ℕ × List Octet)}
    (h : scanTokens room s text = some tokens) : ∀ token ∈ tokens, s ≤ token.1 ∧ 0 ∉ token.2 := by
  intro token htoken
  have hdrop : (List.replicate s 0 ++ text).drop s = text := by
    rw [List.drop_append_of_le_length (by rw [List.length_replicate]), List.drop_replicate, Nat.sub_self]
    rfl
  obtain ⟨line', -, -, htokens⟩ := scanned_scanLine room (List.replicate s 0 ++ text) s []
  rw [hdrop] at htokens
  obtain ⟨hplace, hstring⟩ := htokens tokens h token htoken
  refine ⟨hplace, fun hnul => ?_⟩
  rw [← hstring, cString] at hnul
  exact absurd (List.mem_takeWhile_imp hnul) (by decide)

/-- Looking for a quote ends at a `'\0'`. -/
theorem tokcslide_isSome (c : Octet) {text : List Octet} (h : 0 ∈ text) : (tokcslide c text).isSome := by
  induction text using tokcslide.induct c with
  | case1 => exact absurd h List.not_mem_nil
  | case2 d hd => rw [tokcslide, if_pos hd]; rfl
  | case3 d hd =>
    obtain rfl := List.mem_singleton.mp h
    exact absurd (Or.inr rfl) hd
  | case4 d e rest hd => rw [tokcslide, if_pos hd]; rfl
  | case5 d e rest hd hescape ih =>
    rw [tokcslide, if_neg hd, if_pos hescape]
    refine ih ?_
    rcases List.mem_cons.mp h with rfl | h
    · exact absurd (Or.inr rfl) hd
    · exact (List.mem_cons.mp h).resolve_left fun hnul => hescape.2 hnul.symm
  | case6 d e rest hd hescape ih =>
    rw [tokcslide, if_neg hd, if_neg hescape]
    refine ih ((List.mem_cons.mp h).resolve_left fun hnul => hd (Or.inr hnul.symm))

/-- What a call of `token_next` answers, with so many calls before it. -/
def TokenBuf.answer (tok : TokenBuf) : ℕ → Option (ℕ × List Octet)
  | 0 => tok.tokenNext.1
  | n + 1 => tok.tokenNext.2.answer n

/-- An argument counts when its string is not empty. -/
def nonNull (token : ℕ × List Octet) : Bool := !token.2.isEmpty

/-- Each call of `token_next` answers with the next argument. -/
theorem answer_eq {tok : TokenBuf} {tokens : List (ℕ × List Octet)} (hargv : tok.argv = tokens.map Prod.fst)
    (hstrings : ∀ token ∈ tokens, cString (tok.line.drop token.1) = token.2) (n : ℕ) :
    tok.answer n = (tokens[tok.argi + n]?).filter nonNull := by
  induction n generalizing tok with
  | zero =>
    rw [TokenBuf.answer, TokenBuf.tokenNext, hargv, List.getElem?_map, Nat.add_zero]
    cases htoken : tokens[tok.argi]? with
    | none => rfl
    | some token =>
      have hstring := hstrings token (List.mem_of_getElem? htoken)
      simp only [Option.map_some, hstring]
      by_cases hempty : token.2 = [] <;> simp [Option.filter, nonNull, hempty]
  | succ n ih =>
    have harg : tok.argv[tok.argi]? = tokens[tok.argi]?.map Prod.fst := by rw [hargv, List.getElem?_map]
    cases htoken : tokens[tok.argi]? with
    | none =>
      have hlater (k : ℕ) : tokens[tok.argi + k]? = none :=
        List.getElem?_eq_none (Nat.le_trans (List.getElem?_eq_none_iff.mp htoken) (Nat.le_add_right _ _))
      have hnext : tok.tokenNext.2 = tok := by simp only [TokenBuf.tokenNext, harg, htoken, Option.map_none]
      rw [TokenBuf.answer, hnext, ih hargv hstrings, hlater, hlater]
    | some token =>
      have hnext : tok.tokenNext.2 = { tok with argi := tok.argi + 1 } := by
        simp only [TokenBuf.tokenNext, harg, htoken, Option.map_some]
      have hrest := @ih { tok with argi := tok.argi + 1 } hargv hstrings
      rw [TokenBuf.answer, hnext, hrest, Nat.add_assoc, Nat.add_comm 1 n]

/-- With more fuel than there are characters the loop does not run out of it. -/
theorem tokenStartLoop_fuel {fuel fuel' : ℕ} {stream : InputStream Octet} (hfuel : stream.rest.length < fuel)
    (hfuel' : stream.rest.length < fuel') : tokenStartLoop fuel stream = tokenStartLoop fuel' stream := by
  induction fuel generalizing fuel' stream with
  | zero => exact absurd hfuel (Nat.not_lt_zero _)
  | succ fuel ih =>
    obtain ⟨fuel', rfl⟩ := Nat.exists_eq_succ_of_ne_zero (Nat.ne_of_gt (Nat.zero_lt_of_lt hfuel'))
    rw [tokenStartLoop, tokenStartLoop, InputStream.fgets]
    by_cases hline : lineAt newline (lineMax - 1) stream.rest = []
    · simp only [hline, List.isEmpty_nil, if_true]
    · have hpos := List.length_pos_iff.mpr hline
      have hle := congrArg List.length (lineAt_append_drop newline (lineMax - 1) stream.rest)
      rw [List.length_append, List.length_drop] at hle
      have hshorter : (stream.rest.drop (lineAt newline (lineMax - 1) stream.rest).length).length < fuel := by
        rw [List.length_drop]
        omega
      have hshorter' :
          (stream.rest.drop (lineAt newline (lineMax - 1) stream.rest).length).length < fuel' := by
        rw [List.length_drop]
        omega
      simp only [List.isEmpty_eq_false_iff.mpr hline, Bool.false_eq_true, if_false]
      refine Option.bind_congr fun scanned _ => ?_
      rw [ih hshorter hshorter']

/-- At the end of the file there is no argument. -/
theorem tokenStart_nil (eof : Bool) :
    tokenStart ⟨[], eof⟩ = some (⟨[], 0, lineBuffer []⟩, ⟨[], true⟩) := by
  cases eof <;> rfl

/-- What `token_start` makes of the next line: it goes on with the one behind it, or has these arguments. -/
theorem exists_tokenStart {text : List Octet} (htext : text ≠ []) : ∃ line' eof,
    tokenStart ⟨text, false⟩ =
      (scanTokens nargs 0 (lineBuffer (lineAt newline (lineMax - 1) text))).bind (fun tokens =>
        if tokens = [] then tokenStart ⟨text.drop (lineAt newline (lineMax - 1) text).length, false⟩
        else some (⟨tokens.map Prod.fst, 0, line'⟩,
          ⟨text.drop (lineAt newline (lineMax - 1) text).length, eof⟩)) ∧
      ∀ tokens, scanTokens nargs 0 (lineBuffer (lineAt newline (lineMax - 1) text)) = some tokens →
        ∀ token ∈ tokens, cString (line'.drop token.1) = token.2 := by
  have hline : lineAt newline (lineMax - 1) text ≠ [] :=
    (lineAt_eq_nil_iff newline (by decide) text).not.mpr htext
  have hshort (h : (lineAt newline (lineMax - 1) text).length < lineMax - 1 ∧
      (lineAt newline (lineMax - 1) text).getLast? ≠ some newline) :
      text.drop (lineAt newline (lineMax - 1) text).length = [] := by
    rw [lineAt_short newline h.1 h.2, List.drop_length]
  have hpieces := congrArg List.length (lineAt_append_drop newline (lineMax - 1) text)
  rw [List.length_append] at hpieces
  rw [tokenStart, tokenStartLoop, InputStream.fgets]
  generalize lineAt newline (lineMax - 1) text = line at *
  have hpos := List.length_pos_iff.mpr hline
  obtain ⟨line', hscan, -, htokens⟩ := scanned_scanLine nargs (lineBuffer line) 0 []
  rw [List.drop_zero] at hscan htokens
  refine ⟨line', decide (line.length < lineMax - 1 ∧ line.getLast? ≠ some newline), ?_,
    fun tokens h token htoken => (htokens tokens h token htoken).2⟩
  simp only [List.isEmpty_eq_false_iff.mpr hline, Bool.false_eq_true, if_false, Bool.false_or, hscan]
  cases scanTokens nargs 0 (lineBuffer line) with
  | none => rfl
  | some tokens =>
    simp only [Option.map_some, Option.bind_some, List.nil_append, List.map_eq_nil_iff]
    by_cases htokens : tokens = []
    · rw [if_pos htokens, if_pos htokens]
      have hshorter (eof : Bool) :
          (⟨text.drop line.length, eof⟩ : InputStream Octet).rest.length < text.length := by
        show (text.drop line.length).length < text.length
        omega
      rw [tokenStartLoop_fuel (hshorter _) (Nat.lt_succ_self _), ← tokenStart]
      by_cases hend : line.length < lineMax - 1 ∧ line.getLast? ≠ some newline
      · rw [hshort hend, tokenStart_nil, tokenStart_nil]
      · rw [decide_eq_false hend]
    · rw [if_neg htokens, if_neg htokens]

end V120.Tui
