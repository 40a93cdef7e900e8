import V120.Tool.StdinRegion

/-!
# What is reported of the standard input

`v120_write_stdin` takes a positive count of written values for a success. The loop over a text also ends
with such a count when it meets a character that belongs to no word, a word is accepted when it only
begins with a number, and the loop over a binary input ends as soon as one buffer was filled. Nothing can
be said of a run that stores behind its buffer, which is what a word of 512 characters makes it do.
-/

namespace V120.Tool

open V120.Common V120.Vme

/-- The whole input was written in order: it is a list of units, not an empty one, each of them complete,
and these were stored one behind the other. -/
def WrittenWhole (rw : UnitAccess) (binary : Bool) (stdin : List Octet) (base : Pointer)
    (stores : List Store) : Prop :=
  ∃ units, units ≠ [] ∧ Supplied binary rw.size stdin units ∧ stores = placeUnits rw units base

/-- How many characters of a word `gettok` takes: the first one, and letters and digits behind it. -/
def tokenLength (word : List Octet) : ℕ := 1 + (word.tail.takeWhile isalnum).length

/-- There is a character behind the token that does not belong to it. -/
def Broken (word : List Octet) : Prop := tokenLength word < stdinBufsize ∧ tokenLength word ≠ word.length

/-- The word is a token which begins with a number that is in range. -/
def Accepted (word : List Octet) : Prop :=
  tokenLength word < stdinBufsize ∧ tokenLength word = word.length ∧
    (strtoul word).endptr ≠ 0 ∧ (strtoul word).erange = false

/-- The word is a token in which no number is found, or one that is out of range. -/
def Refused (word : List Octet) : Prop :=
  tokenLength word < stdinBufsize ∧ tokenLength word = word.length ∧
    ((strtoul word).endptr = 0 ∨ (strtoul word).erange = true)

/-- The token does not leave room for its `'\0'` in the buffer. -/
def TooLong (word : List Octet) : Prop := stdinBufsize ≤ tokenLength word

/-- A word is a complete number. -/
def Complete (word : List Octet) : Prop := ∃ value, IsNumeral word value

/-- A word is accepted, or broken, or refused, or too long. -/
theorem accepted_or (word : List Octet) :
    Accepted word ∨ Broken word ∨ Refused word ∨ TooLong word := by
  by_cases hlong : stdinBufsize ≤ tokenLength word
  · exact Or.inr (Or.inr (Or.inr hlong))
  · have hshort := Nat.lt_of_not_le hlong
    by_cases hwhole : tokenLength word = word.length
    · by_cases hnumber : (strtoul word).endptr = 0 ∨ (strtoul word).erange = true
      · exact Or.inr (Or.inr (Or.inl ⟨hshort, hwhole, hnumber⟩))
      · rw [not_or, Bool.not_eq_true] at hnumber
        exact Or.inl ⟨hshort, hwhole, hnumber⟩
    · exact Or.inr (Or.inl ⟨hshort, hwhole⟩)

/-- The token is the word when nothing but letters and digits follows its first character. -/
theorem tokenLength_eq_iff {word : List Octet} (hne : word ≠ []) :
    tokenLength word = word.length ↔ ∀ c ∈ word.tail, isalnum c = true := by
  obtain ⟨c, more, rfl⟩ := List.exists_cons_of_ne_nil hne
  rw [tokenLength, List.tail_cons, List.length_cons]
  constructor
  · intro hlength d hd
    have hsame : more.takeWhile isalnum = more :=
      (List.takeWhile_prefix isalnum).eq_of_length (by omega)
    rw [← hsame] at hd
    exact List.mem_takeWhile_imp hd
  · intro hall
    rw [List.takeWhile_eq_self_iff.mpr hall]
    omega

/-- A complete number is a token. -/
theorem Complete.tokenLength_eq {word : List Octet} (h : Complete word) :
    tokenLength word = word.length := by
  obtain ⟨value, hnumeral⟩ := h
  exact (tokenLength_eq_iff hnumeral.nonempty).mpr hnumeral.tail

/-- A complete number is not broken. -/
theorem Complete.not_broken {word : List Octet} (h : Complete word) : ¬ Broken word :=
  fun hbroken => hbroken.2 h.tokenLength_eq

variable {stdin word behind : List Octet}

/-- A word from its second character on: letters and digits, and what follows them. -/
theorem firstWord_token (h : FirstWord isspace stdin word behind) : ∃ c others,
    stdin.dropWhile isspace = c :: (word.tail.takeWhile isalnum ++ (others ++ behind)) ∧
      word = c :: (word.tail.takeWhile isalnum ++ others) ∧
      ∀ d, others.head? = some d → isalnum d = false ∧ isspace d = false := by
  obtain ⟨c, more, rfl⟩ := List.exists_cons_of_ne_nil h.nonempty
  have hsplit : more = more.takeWhile isalnum ++ more.dropWhile isalnum :=
    List.takeWhile_append_dropWhile.symm
  refine ⟨c, more.dropWhile isalnum, ?_, congrArg (List.cons c) hsplit, fun d hd => ⟨stop_dropWhile hd, ?_⟩⟩
  · rw [h.split, List.tail_cons, ← List.append_assoc, ← hsplit, List.cons_append]
  · have hmem : d ∈ more.dropWhile isalnum := List.mem_of_mem_head? hd
    exact h.solid d (List.mem_cons_of_mem c ((List.dropWhile_sublist isalnum).subset hmem))

/-- What `gettok` takes of a word is nothing but letters and digits behind the first character. -/
theorem isalnum_token {word : List Octet} : ∀ c ∈ word.tail.takeWhile isalnum, isalnum c = true :=
  fun _ hc => List.mem_takeWhile_imp hc

/-- A token that is too long fills the buffer, and its `'\0'` goes behind it. -/
theorem gettok_long {len : ℕ} (h : FirstWord isspace stdin word behind) (hpositive : 0 < len)
    (hlong : len ≤ tokenLength word) : len < (gettok len stdin).stored.length := by
  obtain ⟨c, others, hstdin, -, -⟩ := firstWord_token h
  rw [tokenLength] at hlong
  have hroom : len - 1 ≤ (word.tail.takeWhile isalnum).length := by omega
  have hfull := length_tokenLoop (others ++ behind) isalnum_token hroom
  rw [gettok, hstdin]
  dsimp only
  rw [List.length_append, List.length_cons, hfull, List.length_singleton]
  omega

/-- Behind a token that is not the whole word `gettok` finds something unexpected. -/
theorem gettok_broken {len : ℕ} (h : FirstWord isspace stdin word behind)
    (hshort : tokenLength word < len) (hlonger : tokenLength word ≠ word.length) :
    (gettok len stdin).result = -1 ∧ (gettok len stdin).stored.length ≤ len := by
  obtain ⟨c, others, hstdin, hword, hothers⟩ := firstWord_token h
  rw [tokenLength] at hshort hlonger
  have hlength := congrArg List.length hword
  rw [List.length_cons, List.length_append] at hlength
  obtain ⟨d, others, rfl⟩ : ∃ d rest, others = d :: rest := by
    refine List.exists_cons_of_ne_nil fun hnil => ?_
    rw [hnil, List.length_nil] at hlength
    omega
  obtain ⟨halnum, hspace⟩ := hothers d rfl
  have hstop (e : Octet) (he : (d :: others ++ behind).head? = some e) : isalnum e = false :=
    Option.some.inj he ▸ halnum
  have hroom : (word.tail.takeWhile isalnum).length ≤ len - 1 := by omega
  have hended := tokenLoop_word isalnum_token hstop hroom
  rw [gettok, hstdin]
  dsimp only
  rw [hended]
  dsimp only
  refine ⟨if_neg ?_, ?_⟩
  · rw [List.cons_append, List.head?_cons, Option.all_some, hspace]
    exact Bool.false_ne_true
  · rw [List.length_append, List.length_cons, List.length_singleton]
    omega

/-- What the loop of `v120_write_stdin_ascii` does with a clean `errno`, as a loop over the words of the input. -/
def writeWords (rw : UnitAccess) : List (List Octet) → Pointer → ℤ → List Store × Outcome
  | [], _, count => ([], .returned count)
  | word :: more, dst, count =>
    if stdinBufsize ≤ tokenLength word then ([], .overrun)
    else if tokenLength word ≠ word.length then ([], .returned count)
    else if (strtoul word).endptr = 0 ∨ (strtoul word).erange = true then ([], .returned (-1))
    else
      let written := writeWords rw more (dst + BitVec.ofNat 64 rw.size) (count + 1)
      (rw.put dst ((strtoul word).value.setWidth 32) :: written.1, written.2)

/-- A token is read as the word is: a `'\0'` can only be its first character, where no number begins. -/
theorem strtoul_token (hword : word ≠ []) (htoken : ∀ c ∈ word.tail, isalnum c = true) :
    strtoul (cString (word ++ [0])) = strtoul word ∨
      (strtoul (cString (word ++ [0]))).endptr = 0 ∧ (strtoul word).endptr = 0 := by
  obtain ⟨c, more, rfl⟩ := List.exists_cons_of_ne_nil hword
  by_cases hnul : c = 0
  · subst hnul
    exact Or.inr ⟨rfl, rfl⟩
  · refine Or.inl (congrArg strtoul
      (cString_append_nul (List.forall_mem_cons.mpr ⟨hnul, fun d hd hzero => ?_⟩)))
    have halnum := htoken d hd
    rw [hzero] at halnum
    exact absurd halnum (by decide)

/-- A clean `errno` is set by a value that is out of range, and by no other. -/
theorem strtoulErrno_clean {v : Strtoul} : strtoulErrno v 0 ≠ 0 ↔ v.erange = true := by
  rw [strtoulErrno]
  split_ifs with hrange
  · exact ⟨fun _ => hrange, fun _ => by decide⟩
  · exact ⟨fun h => absurd rfl h, fun h => absurd h hrange⟩

/-- A token is refused when its word is, and otherwise the value is that of the word. -/
theorem token_refused_iff (hword : word ≠ []) (htoken : ∀ c ∈ word.tail, isalnum c = true) :
    ((strtoul (cString (word ++ [0]))).endptr = 0 ∨
        strtoulErrno (strtoul (cString (word ++ [0]))) 0 ≠ 0 ↔
      (strtoul word).endptr = 0 ∨ (strtoul word).erange = true) ∧
    (¬ ((strtoul word).endptr = 0 ∨ (strtoul word).erange = true) →
      strtoul (cString (word ++ [0])) = strtoul word) := by
  rcases strtoul_token hword htoken with hvalue | ⟨hnone, hnumber⟩
  · rw [hvalue]
    exact ⟨or_congr_right strtoulErrno_clean, fun _ => rfl⟩
  · exact ⟨iff_of_true (Or.inl hnone) (Or.inl hnumber), fun h => absurd (Or.inl hnumber) h⟩

/-- The loop of `v120_write_stdin_ascii` goes over the words of the input. -/
theorem writeStdinAsciiLoop_words (rw : UnitAccess) {turns : ℕ} {stdin : List Octet}
    (hturns : stdin.length < turns) (dst : Pointer) (count : ℤ) :
    (writeStdinAsciiLoop rw turns stdin dst count 0).stores =
        (writeWords rw (words isspace stdin) dst count).1 ∧
      (writeStdinAsciiLoop rw turns stdin dst count 0).outcome =
        (writeWords rw (words isspace stdin) dst count).2 := by
  induction turns generalizing stdin dst count with
  | zero => exact absurd hturns (Nat.not_lt_zero _)
  | succ turns ih =>
    rw [writeStdinAsciiLoop]
    rcases firstWord_cases isspace stdin with hspaces | ⟨word, behind, hfirst⟩
    · rw [gettok_spaces hspaces, words_spaces hspaces]
      exact ⟨rfl, rfl⟩
    · rw [hfirst.words, writeWords]
      dsimp only
      by_cases hlong : stdinBufsize ≤ tokenLength word
      · rw [if_pos hlong, if_pos (gettok_long hfirst (by decide) hlong)]
        exact ⟨rfl, rfl⟩
      · rw [if_neg hlong]
        by_cases hwhole : tokenLength word = word.length
        · have htail := (tokenLength_eq_iff hfirst.nonempty).mp hwhole
          have hshort : word.length < stdinBufsize := hwhole ▸ Nat.lt_of_not_le hlong
          have hroom : ¬ stdinBufsize < (word ++ [(0 : Octet)]).length := by
            rw [List.length_append, List.length_singleton]
            omega
          have hsame : ¬ tokenLength word ≠ word.length := fun h => h hwhole
          rw [gettok_word hfirst htail hshort, if_neg hsame]
          dsimp only
          rw [if_neg hroom, if_neg fun h => h rfl]
          obtain ⟨hsame, hvalue⟩ := token_refused_iff hfirst.nonempty htail
          by_cases hrefused : (strtoul word).endptr = 0 ∨ (strtoul word).erange = true
          · rw [if_pos (hsame.mpr hrefused), if_pos hrefused]
            exact ⟨rfl, rfl⟩
          · rw [if_neg (mt hsame.mp hrefused), if_neg hrefused, hvalue hrefused]
            have hclean : strtoulErrno (strtoul word) 0 = 0 :=
              not_not.mp fun h => hrefused (Or.inr (strtoulErrno_clean.mp h))
            have hrest := hfirst.shorter
            have hless : behind.tail.length < turns := by omega
            obtain ⟨hstores, houtcome⟩ := ih hless (dst + BitVec.ofNat 64 rw.size) (count + 1)
            rw [hclean]
            exact ⟨congrArg (List.cons _) hstores, houtcome⟩
        · obtain ⟨hresult, hstored⟩ := gettok_broken hfirst (Nat.lt_of_not_le hlong) hwhole
          rw [if_pos hwhole, if_neg (Nat.not_lt.mpr hstored), hresult, if_pos (by decide)]
          exact ⟨rfl, rfl⟩

/-- The unit read from a word. -/
def wordUnit (word : List Octet) : BitVec 32 := (strtoul word).value.setWidth 32

/-- Either all words are accepted, or there is a first one that is not. -/
theorem accepted_or_first (ws : List (List Octet)) :
    (∀ word ∈ ws, Accepted word) ∨ ∃ before word after, ws = before ++ word :: after ∧
      (∀ earlier ∈ before, Accepted earlier) ∧ (Broken word ∨ Refused word ∨ TooLong word) := by
  induction ws with
  | nil => exact Or.inl fun word hword => absurd hword List.not_mem_nil
  | cons word ws ih =>
    rcases accepted_or word with haccepted | hfailed
    · rcases ih with hall | ⟨before, failed, after, rfl, hbefore, hfailed⟩
      · exact Or.inl (List.forall_mem_cons.mpr ⟨haccepted, hall⟩)
      · exact Or.inr ⟨word :: before, failed, after, rfl, List.forall_mem_cons.mpr ⟨haccepted, hbefore⟩,
          hfailed⟩
    · exact Or.inr ⟨[], word, ws, rfl, fun earlier h => absurd h List.not_mem_nil, hfailed⟩

/-- The loop stores a word that is accepted. -/
theorem writeWords_cons (rw : UnitAccess) {word : List Octet} (haccepted : Accepted word)
    (more : List (List Octet)) (dst : Pointer) (count : ℤ) :
    writeWords rw (word :: more) dst count =
      (rw.put dst (wordUnit word) :: (writeWords rw more (dst + BitVec.ofNat 64 rw.size) (count + 1)).1,
        (writeWords rw more (dst + BitVec.ofNat 64 rw.size) (count + 1)).2) := by
  obtain ⟨hshort, hwhole, hnumber, hrange⟩ := haccepted
  have hconverted : ¬ ((strtoul word).endptr = 0 ∨ (strtoul word).erange = true) :=
    not_or.mpr ⟨hnumber, hrange ▸ Bool.false_ne_true⟩
  rw [writeWords, if_neg (Nat.not_le.mpr hshort), if_neg fun h => h hwhole, if_neg hconverted]
  rfl

/-- The loop stores words that are accepted one behind the other, and goes on behind them. -/
theorem writeWords_append (rw : UnitAccess) {before : List (List Octet)}
    (hbefore : ∀ word ∈ before, Accepted word) (more : List (List Octet)) (dst : Pointer) (count : ℤ) :
    (writeWords rw (before ++ more) dst count).1 = placeUnits rw (before.map wordUnit) dst ++
        (writeWords rw more (dst + BitVec.ofNat 64 (before.length * rw.size)) (count + before.length)).1 ∧
      (writeWords rw (before ++ more) dst count).2 =
        (writeWords rw more (dst + BitVec.ofNat 64 (before.length * rw.size))
          (count + before.length)).2 := by
  induction before generalizing dst count with
  | nil =>
    rw [List.length_nil, Nat.zero_mul, BitVec.add_zero, Nat.cast_zero, add_zero]
    exact ⟨rfl, rfl⟩
  | cons word before ih =>
    obtain ⟨hword, hbefore⟩ := List.forall_mem_cons.mp hbefore
    obtain ⟨hstores, houtcome⟩ := ih hbefore (dst + BitVec.ofNat 64 rw.size) (count + 1)
    have hplace : dst + BitVec.ofNat 64 ((word :: before).length * rw.size) =
        dst + BitVec.ofNat 64 rw.size + BitVec.ofNat 64 (before.length * rw.size) := by
      rw [List.length_cons, Nat.succ_mul, Nat.add_comm, BitVec.ofNat_add, BitVec.add_assoc]
    have hcount : count + ((word :: before).length : ℤ) = count + 1 + before.length := by
      rw [List.length_cons]
      omega
    rw [List.cons_append, writeWords_cons rw hword, hplace, hcount]
    exact ⟨congrArg (List.cons _) hstores, houtcome⟩

/-- The loop ends at a broken word, with the count it had. -/
theorem writeWords_broken (rw : UnitAccess) {word : List Octet} (hbroken : Broken word)
    (more : List (List Octet)) (dst : Pointer) (count : ℤ) :
    writeWords rw (word :: more) dst count = ([], .returned count) := by
  rw [writeWords, if_neg (Nat.not_le.mpr hbroken.1), if_pos hbroken.2]

/-- The loop ends with an error at a word that is refused. -/
theorem writeWords_refused (rw : UnitAccess) {word : List Octet} (hrefused : Refused word)
    (more : List (List Octet)) (dst : Pointer) (count : ℤ) :
    writeWords rw (word :: more) dst count = ([], .returned (-1)) := by
  obtain ⟨hshort, hwhole, hnumber⟩ := hrefused
  rw [writeWords, if_neg (Nat.not_le.mpr hshort), if_neg fun h => h hwhole, if_pos hnumber]

/-- The loop stores behind its buffer at a word that is too long. -/
theorem writeWords_long (rw : UnitAccess) {word : List Octet} (hlong : TooLong word)
    (more : List (List Octet)) (dst : Pointer) (count : ℤ) :
    writeWords rw (word :: more) dst count = ([], .overrun) := by
  rw [writeWords]
  exact if_pos hlong

variable {rw : UnitAccess} {base : Pointer} {errno : ℤ}

/-- `v120_write_stdin` succeeds with a positive count, and with no other result. -/
theorem v120WriteStdin_success {binary : Bool} :
    (v120WriteStdin rw stdin base binary errno).outcome = .returned exitSuccess ↔
      ∃ count, 0 < count ∧ (if binary then v120WriteStdinBinary rw stdin base errno
        else v120WriteStdinAscii rw stdin base errno).outcome = .returned count := by
  unfold v120WriteStdin
  dsimp only
  generalize (if binary then v120WriteStdinBinary rw stdin base errno
    else v120WriteStdinAscii rw stdin base errno) = written
  obtain ⟨stores, errno, outcome⟩ := written
  cases outcome with
  | running =>
    constructor
    · intro hreturned
      cases hreturned
    · rintro ⟨_, -, hreturned⟩
      cases hreturned
  | overrun =>
    constructor
    · intro hreturned
      cases hreturned
    · rintro ⟨_, -, hreturned⟩
      cases hreturned
  | returned count =>
    dsimp only
    by_cases hcount : count ≤ 0
    · rw [if_pos hcount]
      refine ⟨fun h => absurd (Outcome.returned.inj h) (by decide), ?_⟩
      rintro ⟨result, hpositive, hreturned⟩
      obtain rfl := Outcome.returned.inj hreturned
      exact absurd hpositive (Int.not_lt.mpr hcount)
    · rw [if_neg hcount]
      exact ⟨fun _ => ⟨count, Int.not_le.mp hcount, rfl⟩, fun _ => rfl⟩

/-- `v120_write_stdin` stores behind its buffer when the loop does. -/
theorem v120WriteStdin_overrun {binary : Bool} :
    (v120WriteStdin rw stdin base binary errno).outcome = .overrun ↔
      (if binary then v120WriteStdinBinary rw stdin base errno
        else v120WriteStdinAscii rw stdin base errno).outcome = .overrun := by
  unfold v120WriteStdin
  dsimp only
  generalize (if binary then v120WriteStdinBinary rw stdin base errno
    else v120WriteStdinAscii rw stdin base errno) = written
  obtain ⟨stores, errno, outcome⟩ := written
  cases outcome with
  | running => rfl
  | overrun => rfl
  | returned count =>
    constructor
    · intro hoverrun
      cases hoverrun
    · intro hoverrun
      cases hoverrun

/-- A word that spells a unit is a complete number. -/
theorem complete_of_spells {ws : List (List Octet)} {units : List (BitVec 32)}
    (hspells : List.Forall₂ Spells ws units) : ∀ word ∈ ws, Complete word := by
  induction hspells with
  | nil => exact fun word hword => absurd hword List.not_mem_nil
  | cons hword _ ih =>
    obtain ⟨value, hnumeral, -⟩ := hword
    exact List.forall_mem_cons.mpr ⟨⟨value, hnumeral⟩, ih⟩

/-- A complete number spells its unit. -/
theorem Complete.spells (h : Complete word) : Spells word (wordUnit word) := by
  obtain ⟨value, hnumeral⟩ := h
  refine ⟨value, hnumeral, ?_⟩
  rw [wordUnit, hnumeral.strtoul]

/-- A text is written whole only when all of its words are complete numbers. -/
theorem WrittenWhole.complete {stores : List Store} (h : WrittenWhole rw false stdin base stores) :
    ∀ word ∈ words isspace stdin, Complete word := by
  obtain ⟨units, -, hsupplied, -⟩ := h
  exact complete_of_spells hsupplied

/-- The words of a text whose success is one: they are complete numbers that fit in the buffer, or the
first one that is not accepted is refused, or broken with nothing written before it. -/
def TextReported (ws : List (List Octet)) : Prop :=
  (∀ word ∈ ws, Complete word ∧ word.length < stdinBufsize) ∨
    ∃ before word after, ws = before ++ word :: after ∧
      (∀ earlier ∈ before, Accepted earlier) ∧ (Refused word ∨ before = [] ∧ Broken word)

/-- What the loop does behind words that are accepted, from the start of the input on. -/
theorem v120WriteStdinAscii_append (rw : UnitAccess) {before more : List (List Octet)}
    (hsplit : words isspace stdin = before ++ more) (hbefore : ∀ word ∈ before, Accepted word)
    (base : Pointer) :
    (v120WriteStdinAscii rw stdin base 0).stores = placeUnits rw (before.map wordUnit) base ++
        (writeWords rw more (base + BitVec.ofNat 64 (before.length * rw.size)) before.length).1 ∧
      (v120WriteStdinAscii rw stdin base 0).outcome =
        (writeWords rw more (base + BitVec.ofNat 64 (before.length * rw.size)) before.length).2 := by
  obtain ⟨hstores, houtcome⟩ := writeStdinAsciiLoop_words rw (Nat.lt_succ_self stdin.length) base 0
  obtain ⟨hmoreStores, hmoreOutcome⟩ := writeWords_append rw hbefore more base 0
  rw [hsplit] at hstores houtcome
  rw [zero_add] at hmoreStores hmoreOutcome
  exact ⟨hstores.trans hmoreStores, houtcome.trans hmoreOutcome⟩

/-- The loop over a text ends with a positive count. -/
def AsciiSuccess (rw : UnitAccess) (stdin : List Octet) (base : Pointer) (errno : ℤ) : Prop :=
  ∃ count, 0 < count ∧ (v120WriteStdinAscii rw stdin base errno).outcome = .returned count

/-- The loop ends without a positive count at a word that is refused, and at a broken one with nothing
written before it. -/
theorem v120WriteStdinAscii_bad {before after : List (List Octet)}
    (hsplit : words isspace stdin = before ++ word :: after)
    (hbefore : ∀ earlier ∈ before, Accepted earlier)
    (hbad : Refused word ∨ before = [] ∧ Broken word) :
    ∃ count ≤ 0, (v120WriteStdinAscii rw stdin base 0).outcome = .returned count := by
  obtain ⟨-, houtcome⟩ := v120WriteStdinAscii_append rw hsplit hbefore base
  rcases hbad with hrefused | ⟨rfl, hbroken⟩
  · rw [writeWords_refused rw hrefused] at houtcome
    exact ⟨-1, by decide, houtcome⟩
  · rw [writeWords_broken rw hbroken] at houtcome
    exact ⟨0, Int.le_refl 0, houtcome⟩

/-- The report of the loop over a text can be trusted: it stays within its buffer, and it ends with a
positive count only when the whole text was written. -/
def AsciiTrusted (rw : UnitAccess) (stdin : List Octet) (base : Pointer) (errno : ℤ) : Prop :=
  (v120WriteStdinAscii rw stdin base errno).outcome ≠ .overrun ∧
    (AsciiSuccess rw stdin base errno →
      WrittenWhole rw false stdin base (v120WriteStdinAscii rw stdin base errno).stores)

/-- A loop that ends without a positive count reports nothing false. -/
theorem asciiTrusted_of_nonpositive
    (h : ∃ count ≤ 0, (v120WriteStdinAscii rw stdin base errno).outcome = .returned count) :
    AsciiTrusted rw stdin base errno := by
  obtain ⟨count, hcount, houtcome⟩ := h
  constructor
  · intro hoverrun
    rw [houtcome] at hoverrun
    cases hoverrun
  · rintro ⟨result, hpositive, hreturned⟩
    rw [houtcome] at hreturned
    rw [← Outcome.returned.inj hreturned] at hpositive
    exact absurd hpositive (Int.not_lt.mpr hcount)

/-- A text whose words are all accepted is written whole when these are complete numbers. -/
theorem asciiTrusted_accepted (hall : ∀ word ∈ words isspace stdin, Accepted word) :
    AsciiTrusted rw stdin base 0 ↔ ∀ word ∈ words isspace stdin, Complete word := by
  obtain ⟨hstores, houtcome⟩ := v120WriteStdinAscii_append rw (List.append_nil _).symm hall base
  rw [writeWords] at houtcome
  constructor
  · rintro ⟨-, hwhole⟩ word hword
    have hsome : 0 < (words isspace stdin).length :=
      List.length_pos_iff.mpr (List.ne_nil_of_mem hword)
    exact (hwhole ⟨_, Int.natCast_pos.mpr hsome, houtcome⟩).complete word hword
  · intro hcomplete
    refine ⟨fun hoverrun => ?_, fun hreported => ?_⟩
    · rw [houtcome] at hoverrun
      cases hoverrun
    · refine ⟨(words isspace stdin).map wordUnit, fun hnil => ?_, ?_, hstores.trans (List.append_nil _)⟩
      · obtain ⟨count, hpositive, hreturned⟩ := hreported
        rw [houtcome, List.map_eq_nil_iff.mp hnil] at hreturned
        rw [← Outcome.returned.inj hreturned] at hpositive
        exact Int.lt_irrefl _ hpositive
      · exact List.forall₂_map_right_iff.mpr
          (List.forall₂_same.mpr fun word hword => (hcomplete word hword).spells)

/-- Behind words that are accepted, a broken one ends the loop with a positive count, and one that is too
long makes it store behind its buffer. -/
theorem not_asciiTrusted {before after : List (List Octet)}
    (hsplit : words isspace stdin = before ++ word :: after)
    (hbefore : ∀ earlier ∈ before, Accepted earlier)
    (hbad : before ≠ [] ∧ Broken word ∨ TooLong word) : ¬ AsciiTrusted rw stdin base 0 := by
  rintro ⟨hwithin, hwhole⟩
  obtain ⟨-, houtcome⟩ := v120WriteStdinAscii_append rw hsplit hbefore base
  rcases hbad with ⟨hsome, hbroken⟩ | hlong
  · have hmem : word ∈ words isspace stdin := hsplit ▸ List.mem_append_cons_self
    rw [writeWords_broken rw hbroken] at houtcome
    have hpositive : (0 : ℤ) < before.length := Int.natCast_pos.mpr (List.length_pos_iff.mpr hsome)
    exact ((hwhole ⟨_, hpositive, houtcome⟩).complete word hmem).not_broken hbroken
  · rw [writeWords_long rw hlong] at houtcome
    exact hwithin houtcome

/-- With a clean `errno` the report of the loop can be trusted exactly when the words are complete numbers
that fit in the buffer, or the loop ends at its first bad word without a positive count. -/
theorem asciiTrusted_iff : AsciiTrusted rw stdin base 0 ↔ TextReported (words isspace stdin) := by
  have hgood (hbad : ∃ before word after, words isspace stdin = before ++ word :: after ∧
      (∀ earlier ∈ before, Accepted earlier) ∧ (Refused word ∨ before = [] ∧ Broken word)) :
      AsciiTrusted rw stdin base 0 := by
    obtain ⟨before, word, after, hsplit, hbefore, hbad⟩ := hbad
    exact asciiTrusted_of_nonpositive (v120WriteStdinAscii_bad hsplit hbefore hbad)
  rcases accepted_or_first (words isspace stdin) with hall | ⟨before, word, after, hsplit, hbefore, hfailed⟩
  · constructor
    · intro htrusted
      refine Or.inl fun word hword => ⟨(asciiTrusted_accepted hall).mp htrusted word hword, ?_⟩
      exact (hall word hword).2.1 ▸ (hall word hword).1
    · rintro (hcomplete | hbad)
      · exact (asciiTrusted_accepted hall).mpr fun word hword => (hcomplete word hword).1
      · exact hgood hbad
  · have hmem : word ∈ words isspace stdin := hsplit ▸ List.mem_append_cons_self
    by_cases hbad : Refused word ∨ before = [] ∧ Broken word
    · have hfirst : TextReported (words isspace stdin) :=
        Or.inr ⟨before, word, after, hsplit, hbefore, hbad⟩
      exact iff_of_true (asciiTrusted_of_nonpositive (v120WriteStdinAscii_bad hsplit hbefore hbad)) hfirst
    · -- a success although nothing was made of the word, or a store behind the buffer
      rw [not_or] at hbad
      have hworse : before ≠ [] ∧ Broken word ∨ TooLong word := by
        rcases hfailed with hbroken | hrefused | hlong
        · exact Or.inl ⟨fun hnil => hbad.2 ⟨hnil, hbroken⟩, hbroken⟩
        · exact absurd hrefused hbad.1
        · exact Or.inr hlong
      have hnot : ¬ AsciiTrusted rw stdin base 0 := not_asciiTrusted hsplit hbefore hworse
      refine iff_of_false hnot ?_
      rintro (hcomplete | hbad)
      · obtain ⟨hword, hshort⟩ := hcomplete word hmem
        rcases hworse with ⟨-, hbroken⟩ | hlong
        · exact hword.not_broken hbroken
        · rw [TooLong, hword.tokenLength_eq] at hlong
          exact absurd hlong (Nat.not_le.mpr hshort)
      · exact hnot (hgood hbad)

/-- With any other `errno` there is no success: the first token is refused, if there is one and it fits in
the buffer. -/
theorem asciiTrusted_stale_iff (hstale : errno ≠ 0) :
    AsciiTrusted rw stdin base errno ↔ ∀ word ∈ (words isspace stdin).head?, ¬ TooLong word := by
  have hany (v : Strtoul) : strtoulErrno v errno ≠ 0 := by
    rw [strtoulErrno]
    split_ifs
    · decide
    · exact hstale
  rcases firstWord_cases isspace stdin with hspaces | ⟨word, behind, hfirst⟩
  · rw [words_spaces hspaces]
    refine iff_of_true (asciiTrusted_of_nonpositive ⟨0, Int.le_refl 0, ?_⟩) fun word hword => ?_
    · rw [v120WriteStdinAscii, writeStdinAsciiLoop, gettok_spaces hspaces]
      rfl
    · cases hword
  · rw [hfirst.words, List.head?_cons]
    by_cases hlong : TooLong word
    · refine iff_of_false (fun htrusted => htrusted.1 ?_) fun hshort => hshort word rfl hlong
      rw [v120WriteStdinAscii, writeStdinAsciiLoop]
      dsimp only
      rw [if_pos (gettok_long hfirst (by decide) hlong)]
    · refine iff_of_true (asciiTrusted_of_nonpositive ?_) fun word hword => Option.some.inj hword ▸ hlong
      have hshort := Nat.lt_of_not_le hlong
      rw [v120WriteStdinAscii, writeStdinAsciiLoop]
      dsimp only
      by_cases hwhole : tokenLength word = word.length
      · have htail := (tokenLength_eq_iff hfirst.nonempty).mp hwhole
        have hroom : ¬ stdinBufsize < (word ++ [(0 : Octet)]).length := by
          rw [List.length_append, List.length_singleton]
          omega
        rw [gettok_word hfirst htail (hwhole ▸ hshort)]
        dsimp only
        rw [if_neg hroom, if_neg fun h => h rfl, if_pos (Or.inr (hany _))]
        exact ⟨-1, by decide, rfl⟩
      · obtain ⟨hresult, hstored⟩ := gettok_broken hfirst hshort hwhole
        rw [if_neg (Nat.not_lt.mpr hstored), hresult, if_pos (by decide)]
        exact ⟨0, Int.le_refl 0, rfl⟩

/-- Units are stored one by one. -/
theorem length_placeUnits (rw : UnitAccess) (units : List (BitVec 32)) (dst : Pointer) :
    (placeUnits rw units dst).length = units.length := by
  induction units generalizing dst with
  | nil => rfl
  | cons unit units ih => rw [placeUnits, List.length_cons, List.length_cons, ih]

/-- The loop over a binary input ends with a positive count when a buffer was filled, and not before. -/
theorem binarySuccess_iff (hrw : rw.Regular) :
    (∃ count, 0 < count ∧ (v120WriteStdinBinary rw stdin base errno).outcome = .returned count) ↔
      stdinBufsize ≤ stdin.length := by
  obtain ⟨hpositive, hbuffer⟩ := hrw.buffer
  rw [v120WriteStdinBinary]
  by_cases hshort : stdin.length < stdinBufsize
  · rw [writeStdinBinaryLoop_short hrw errno 1 hshort]
    refine iff_of_false ?_ (Nat.not_le.mpr hshort)
    rintro ⟨_, -, hreturned⟩
    cases hreturned
  · have hfull := Nat.le_of_not_lt hshort
    have hcount : (stdin.take stdinBufsize).length / rw.size = stdinBufsize / rw.size := by
      rw [List.length_take, Nat.min_eq_left hfull]
    have hsome : 0 < stdinBufsize / rw.size := by
      refine Nat.pos_of_ne_zero fun hzero => ?_
      rw [hzero, Nat.mul_zero] at hbuffer
      exact absurd hbuffer (by decide)
    refine iff_of_true ⟨(stdinBufsize / rw.size : ℕ), Int.natCast_pos.mpr hsome, ?_⟩ hfull
    rw [writeStdinBinaryLoop]
    dsimp only
    rw [hbuffer, hcount, if_neg fun h => h rfl, zero_add]

/-- The loop over a binary input stays within its buffer. -/
theorem v120WriteStdinBinary_within (hrw : rw.Regular) :
    (v120WriteStdinBinary rw stdin base errno).outcome ≠ .overrun := by
  intro hoverrun
  by_cases hfull : stdinBufsize ≤ stdin.length
  · have hsuccess : ∃ count, 0 < count ∧
        (v120WriteStdinBinary rw stdin base errno).outcome = .returned count :=
      (binarySuccess_iff hrw).mpr hfull
    obtain ⟨count, -, hreturned⟩ := hsuccess
    rw [hreturned] at hoverrun
    cases hoverrun
  · rw [v120WriteStdinBinary, writeStdinBinaryLoop_short hrw errno 1 (Nat.lt_of_not_le hfull)] at hoverrun
    cases hoverrun

/-- A binary input that fills the buffer is written whole exactly when nothing is behind the buffer. -/
theorem binary_whole_iff (hrw : rw.Regular) (hfull : stdinBufsize ≤ stdin.length) :
    WrittenWhole rw true stdin base (v120WriteStdinBinary rw stdin base errno).stores ↔
      stdin.length ≤ stdinBufsize := by
  obtain ⟨hpositive, hbuffer⟩ := hrw.buffer
  constructor
  · rintro ⟨units, -, hsupplied, hstores⟩
    change BinaryUnits rw.size stdin units at hsupplied
    have hlength := congrArg List.length
      ((v120WriteStdinBinary_stores hrw hsupplied base errno).symm.trans hstores)
    rw [length_placeUnits, length_placeUnits, List.length_take] at hlength
    calc stdin.length = rw.size * units.length := hsupplied.length
      _ ≤ rw.size * (stdinBufsize / rw.size) := Nat.mul_le_mul_left _ (hlength ▸ Nat.min_le_left _ _)
      _ = stdinBufsize := hbuffer
  · intro hsmall
    have hlength : stdin.length = rw.size * (stdinBufsize / rw.size) :=
      (Nat.le_antisymm hsmall hfull).trans hbuffer.symm
    have hunits : BinaryUnits rw.size stdin
        ((List.range (stdinBufsize / rw.size)).map fun i => hostValue (blockAt rw.size stdin i)) := by
      refine ⟨by rw [List.length_map, List.length_range, hlength], fun i unit hunit => ?_⟩
      rw [List.getElem?_map, Option.map_eq_some_iff] at hunit
      obtain ⟨j, hj, rfl⟩ := hunit
      obtain ⟨hi, hj⟩ := List.getElem?_eq_some_iff.mp hj
      rw [← hj, List.getElem_range]
    have hstores := v120WriteStdinBinary_stores hrw hunits base errno
    refine ⟨_, fun hnil => ?_, hunits, ?_⟩
    · rw [List.map_eq_nil_iff, List.range_eq_nil] at hnil
      rw [hnil, Nat.mul_zero] at hbuffer
      exact absurd hbuffer (by decide)
    · rw [hstores, List.take_of_length_le]
      rw [List.length_map, List.length_range]

/-- **When a success says that the input was written.** For every input and every data width,
`v120_write_stdin` stays within its buffer, and succeeds only if it has written the whole input in order,
exactly when a binary input fits in one buffer, and of a text with a clean `errno` the words are complete
numbers that fit in the buffer, or the first one that is not accepted as a token that begins with a number
in range is one that has no number, or none in range, or has something unexpected in it with no word
before; with any other `errno`, when the first word fits in the buffer. -/
theorem v120WriteStdin_whole_iff (args : V120Args) (stdin : List Octet) (base : Pointer) (binary : Bool)
    (errno : ℤ) :
    (v120WriteStdin (setUpDwidth args) stdin base binary errno).outcome ≠ .overrun ∧
        ((v120WriteStdin (setUpDwidth args) stdin base binary errno).outcome = .returned exitSuccess →
          WrittenWhole (setUpDwidth args) binary stdin base
            (v120WriteStdin (setUpDwidth args) stdin base binary errno).stores) ↔
      (binary = true → stdin.length ≤ stdinBufsize) ∧
        (binary = false → errno = 0 → TextReported (words isspace stdin)) ∧
        (binary = false → errno ≠ 0 → ∀ word ∈ (words isspace stdin).head?, ¬ TooLong word) := by
  have hrw := setUpDwidth_regular args
  rw [v120WriteStdin_success, v120WriteStdin_stores, Ne, v120WriteStdin_overrun]
  cases binary with
  | true =>
    have hbinary : (stdin.length ≤ stdinBufsize) ↔ (true = true → stdin.length ≤ stdinBufsize) ∧
        (true = false → errno = 0 → TextReported (words isspace stdin)) ∧
        (true = false → errno ≠ 0 → ∀ word ∈ (words isspace stdin).head?, ¬ TooLong word) :=
      ⟨fun hsmall => ⟨fun _ => hsmall, fun h => absurd h (by decide), fun h => absurd h (by decide)⟩,
        fun h => h.1 rfl⟩
    rw [← hbinary]
    refine (and_iff_right (v120WriteStdinBinary_within hrw)).trans ?_
    change ((∃ count, 0 < count ∧ (v120WriteStdinBinary _ stdin base errno).outcome = .returned count) →
      WrittenWhole _ true stdin base (v120WriteStdinBinary _ stdin base errno).stores) ↔ _
    rw [binarySuccess_iff hrw]
    constructor
    · refine fun hwhole => Nat.le_of_not_lt fun hlong => ?_
      have hfull := Nat.le_of_lt hlong
      exact absurd ((binary_whole_iff hrw hfull).mp (hwhole hfull)) (Nat.not_le.mpr hlong)
    · exact fun hsmall hfull => (binary_whole_iff hrw hfull).mpr hsmall
  | false =>
    refine Iff.trans ?_ (and_iff_right fun h => absurd h (by decide)).symm
    change AsciiTrusted _ stdin base errno ↔ _
    by_cases hclean : errno = 0
    · rw [hclean, asciiTrusted_iff]
      exact ⟨fun h => ⟨fun _ _ => h, fun _ hstale => absurd rfl hstale⟩, fun h => h.1 rfl rfl⟩
    · rw [asciiTrusted_stale_iff hclean]
      exact ⟨fun h => ⟨fun _ hzero => absurd hzero hclean, fun _ _ => h⟩, fun h => h.2 rfl hclean⟩

/-- `1 2,3` on the standard input. -/
def oneAndComma : List Octet := [0x31, 0x20, 0x32, 0x2c, 0x33]

/-- A success is reported of `1 2,3`, of which nothing but the first word was written. -/
theorem v120WriteStdin_unwritten :
    (v120WriteStdin wordAccess oneAndComma 0 false 0).outcome = .returned exitSuccess ∧
      (v120WriteStdin wordAccess oneAndComma 0 false 0).stores.map Store.value = [1] ∧
      ¬ WrittenWhole wordAccess false oneAndComma 0
        (v120WriteStdin wordAccess oneAndComma 0 false 0).stores := by
  refine ⟨by decide, by decide, fun hwhole => ?_⟩
  have hmem : [0x32, 0x2c, 0x33] ∈ words isspace oneAndComma := by decide
  obtain ⟨value, hnumeral⟩ := hwhole.complete _ hmem
  have hcomma : isalnum 0x2c = true := hnumeral.tail 0x2c (by decide)
  exact absurd hcomma (by decide)

/-- A refused word keeps the loop from reporting a success of a word it took for a number, here `12x`. -/
example : (v120WriteStdin wordAccess [0x31, 0x32, 0x78] 0 false 0).outcome = .returned exitSuccess ∧
    (v120WriteStdin wordAccess [0x31, 0x32, 0x78, 0x20, 0x78] 0 false 0).outcome = .returned exitFailure :=
  ⟨by decide, by decide⟩

end V120.Tool
