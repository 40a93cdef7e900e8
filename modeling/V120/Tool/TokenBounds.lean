import V120.Tool.StdinReports

/-!
# A token and the buffer it is read into

`gettok` stores a character before it looks whether there is room for the next one, and ends what it
stored with `'\0'`. It comes to this store with all of the buffer filled when the token is as long as the
buffer, or longer.
-/

namespace V120.Tool

open V120.Common

variable {len : ℕ} {stdin word behind : List Octet}

/-- A call of `gettok` is that of a bounded tokenizer: it stores nothing behind the buffer; a success
means the next word and its `'\0'` are in the buffer and the character behind the word is consumed; `1`
means the end of the input; and a word that does not fit is an error. -/
structure BoundedToken (len : ℕ) (stdin : List Octet) : Prop where
  inside : (gettok len stdin).stored.length ≤ len
  success : (gettok len stdin).result = 0 → ∃ word behind, FirstWord isspace stdin word behind ∧
    (gettok len stdin).stored = word ++ [0] ∧ (gettok len stdin).rest = behind.tail
  ended : (gettok len stdin).result = 1 → stdin.dropWhile isspace = [] ∧ (gettok len stdin).rest = []
  tooLong : ∀ word behind, FirstWord isspace stdin word behind → len ≤ word.length →
    (gettok len stdin).result = -1

/-- An input has one first word at most. -/
theorem firstWord_unique {word' behind' : List Octet} (h : FirstWord isspace stdin word behind)
    (h' : FirstWord isspace stdin word' behind') : word' = word := by
  have hwords := h.words.symm.trans h'.words
  exact (List.cons.inj hwords).1.symm

/-- Nothing is stored when there is no word. -/
theorem boundedToken_spaces (h : stdin.dropWhile isspace = []) : BoundedToken len stdin := by
  have hnone (word behind : List Octet) (hword : FirstWord isspace stdin word behind) : False := by
    have hsplit := hword.split
    rw [h] at hsplit
    exact hword.nonempty (List.append_eq_nil_iff.mp hsplit.symm).1
  have hended : gettok len stdin = ⟨1, [], []⟩ := gettok_spaces h
  constructor
  · rw [hended]
    exact Nat.zero_le len
  · intro hresult
    rw [hended] at hresult
    exact absurd hresult (by decide)
  · intro _
    rw [hended]
    exact ⟨h, rfl⟩
  · intro word behind hword _
    exact (hnone word behind hword).elim

/-- A word that is a token and leaves room for its `'\0'` is stored. -/
theorem boundedToken_whole (h : FirstWord isspace stdin word behind) (hshort : tokenLength word < len)
    (hwhole : tokenLength word = word.length) : BoundedToken len stdin := by
  have hfits : word.length < len := hwhole ▸ hshort
  have hstored : gettok len stdin = ⟨0, word ++ [0], behind.tail⟩ :=
    gettok_word h ((tokenLength_eq_iff h.nonempty).mp hwhole) hfits
  constructor
  · rw [hstored, List.length_append, List.length_singleton]
    exact hfits
  · intro _
    rw [hstored]
    exact ⟨word, behind, h, rfl, rfl⟩
  · intro hresult
    rw [hstored] at hresult
    exact absurd hresult Int.zero_ne_one
  · intro word' behind' hword' hlong
    rw [firstWord_unique h hword'] at hlong
    exact absurd hfits (Nat.not_lt.mpr hlong)

/-- A word with another character behind its token is an error. -/
theorem boundedToken_broken (h : FirstWord isspace stdin word behind) (hshort : tokenLength word < len)
    (hlonger : tokenLength word ≠ word.length) : BoundedToken len stdin := by
  obtain ⟨hresult, hinside⟩ := gettok_broken h hshort hlonger
  constructor
  · exact hinside
  · intro hsuccess
    exact absurd (hresult.symm.trans hsuccess) (by decide)
  · intro hend
    exact absurd (hresult.symm.trans hend) (by decide)
  · intro _ _ _ _
    exact hresult

/-- `gettok` is a bounded tokenizer exactly when the token leaves room for the `'\0'`, if there is one. -/
theorem gettok_bounded_iff (hpositive : 0 < len) :
    BoundedToken len stdin ↔
      ∀ word behind, FirstWord isspace stdin word behind → tokenLength word < len := by
  constructor
  · intro hbounded word behind h
    apply Nat.lt_of_not_le
    intro hlong
    exact absurd hbounded.inside (Nat.not_le.mpr (gettok_long h hpositive hlong))
  · intro hshort
    rcases firstWord_cases isspace stdin with hspaces | ⟨word, behind, h⟩
    · exact boundedToken_spaces hspaces
    · by_cases hwhole : tokenLength word = word.length
      · exact boundedToken_whole h (hshort word behind h) hwhole
      · exact boundedToken_broken h (hshort word behind h) hwhole

/-- The first word of a line with nothing but a word on it. -/
theorem firstWord_line (hne : word ≠ []) (hsolid : ∀ c ∈ word, isspace c = false) :
    FirstWord isspace (word ++ [0x0a]) word [0x0a] := by
  obtain ⟨c, more, rfl⟩ := List.exists_cons_of_ne_nil hne
  constructor
  · exact hne
  · exact hsolid
  · have hstop : ¬ isspace c = true := by
      rw [hsolid c List.mem_cons_self]
      exact Bool.false_ne_true
    rw [List.cons_append, List.dropWhile_cons_of_neg hstop]
  · intro d hd
    obtain rfl := Option.some.inj hd
    rfl

/-- A word of two digits is read into a buffer of 512 characters. -/
theorem gettok_bounded_twelve : 0 < stdinBufsize ∧ BoundedToken stdinBufsize [0x31, 0x32, 0x0a] := by
  have hline : FirstWord isspace [0x31, 0x32, 0x0a] [0x31, 0x32] [0x0a] :=
    @firstWord_line [0x31, 0x32] (by decide) (by decide)
  refine ⟨by decide, (gettok_bounded_iff (by decide)).mpr fun word behind h => ?_⟩
  rw [firstWord_unique hline h]
  decide

/-- A line of as many digits as the buffer is long: the `'\0'` goes behind the buffer. -/
theorem gettok_full_buffer :
    ¬ BoundedToken stdinBufsize (List.replicate stdinBufsize 0x31 ++ [0x0a]) := by
  intro hbounded
  have hdigit (c : Octet) (hc : c ∈ List.replicate stdinBufsize 0x31) : c = 0x31 :=
    List.eq_of_mem_replicate hc
  have hne : List.replicate stdinBufsize (0x31 : Octet) ≠ [] := List.cons_ne_nil _ _
  have hword : FirstWord isspace (List.replicate stdinBufsize 0x31 ++ [0x0a])
      (List.replicate stdinBufsize 0x31) [0x0a] := by
    apply firstWord_line hne
    intro c hc
    rw [hdigit c hc]
    rfl
  have htoken : tokenLength (List.replicate stdinBufsize 0x31) = stdinBufsize := by
    rw [(tokenLength_eq_iff hne).mpr, List.length_replicate]
    intro c hc
    rw [hdigit c (List.mem_of_mem_tail hc)]
    rfl
  have hfilled := gettok_long hword (by decide) htoken.ge
  exact absurd hbounded.inside (Nat.not_le.mpr hfilled)

end V120.Tool
