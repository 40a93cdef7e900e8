import V120.Tui.RnmPasses

/-!
# RNM files as a table is printed

A table of registers is printed with a line for each, in any order and with blanks, comments and other
lines wherever they are allowed. Each kind of line is taken apart by `linestrip` and the colons into the
tokens it was made of.
-/

namespace V120.Tui

open V120.Common

/-- What a table says about a register. -/
structure Register where
  name : List Octet
  signed : Bool
  wide : Bool
  deriving DecidableEq

/-- A name that fits into a record, survives `linestrip`, and has a bucket. -/
structure Register.Legal (r : Register) : Prop where
  nonempty : r.name ≠ []
  short : r.name.length ≤ 13
  plain : ∀ c ∈ r.name, c ≠ 0x3a ∧ vmebriseol c = false
  first : ∀ c, r.name.head? = some c → isblank c = false
  last : ∀ c, r.name.getLast? = some c → isblank c = false
  hash : negativeHash r.name = false

/-- The record of a register. -/
def Register.record (r : Register) : VmeMetadata :=
  ⟨r.name, if r.signed then -1 else 1, if r.wide then 4 else 2⟩

/-- `S` or `U`. -/
def Register.signChar (r : Register) : Octet := if r.signed then 0x53 else 0x55

/-- `4` or `2`. -/
def Register.widthChar (r : Register) : Octet := if r.wide then 0x34 else 0x32

/-- The blanks of a line for a register, and the comment behind it. -/
structure Layout where
  beforeIndex : List Octet
  afterIndex : List Octet
  beforeName : List Octet
  afterName : List Octet
  afterSign : List Octet
  afterWidth : List Octet
  comment : List Octet

/-- Nothing, or something that begins with `#` and is on one line. -/
structure IsComment (comment : List Octet) : Prop where
  starts : comment = [] ∨ comment.head? = some 0x23
  line : newline ∉ comment

/-- Nothing but blanks. -/
def Blanks (s : List Octet) : Prop := ∀ c ∈ s, isblank c = true

instance (s : List Octet) : Decidable (Blanks s) := List.decidableBAll ..

/-- The blanks are blanks, and the comment is one. -/
structure Layout.Legal (l : Layout) : Prop where
  beforeIndex : Blanks l.beforeIndex
  afterIndex : Blanks l.afterIndex
  beforeName : Blanks l.beforeName
  afterName : Blanks l.afterName
  afterSign : Blanks l.afterSign
  afterWidth : Blanks l.afterWidth
  comment : IsComment l.comment

/-- A line of a printed table: a register, a line without anything but blanks and a comment, or one that
sets the data width, the endianness or the address width. -/
inductive RnmLine where
  | register (index : ℕ) (r : Register) (layout : Layout)
  | empty (blanks comment : List Octet)
  | setting (text : List Octet)

namespace RnmLine

/-- The text between the blanks around it. -/
def core (index : ℕ) (r : Register) (l : Layout) : List Octet :=
  (decimal index ++ l.afterIndex) ++ 0x3a :: ((l.beforeName ++ r.name ++ l.afterName) ++
    0x3a :: ((r.signChar :: l.afterSign) ++ 0x3a :: [r.widthChar]))

/-- The text of a line. -/
def print : RnmLine → List Octet
  | register index r l => l.beforeIndex ++ core index r l ++ l.afterWidth ++ l.comment
  | empty blanks comment => blanks ++ comment
  | setting text => text

/-- The register of a line. -/
def entry : RnmLine → Option (ℕ × Register)
  | register index r _ => some (index, r)
  | empty _ _ => none
  | setting _ => none

/-- The lines that set something global. -/
def IsSetting (tokens : List (List Octet)) : Prop :=
  ∃ first rest, tokens = first :: rest ∧
    (lineKind first = .dataWidth ∨ lineKind first = .endianness ∨ lineKind first = .addressWidth)

/-- What is allowed on a line. -/
def Legal : RnmLine → Prop
  | register index r l => index < 2 ^ 31 - 1 ∧ r.Legal ∧ l.Legal
  | empty blanks comment => Blanks blanks ∧ IsComment comment
  | setting text => newline ∉ text ∧ IsSetting (lineTokens text) ∧ lineLegal (lineTokens text) = true

end RnmLine

/-- A text that `linestrip` leaves as it is. -/
structure Stripped (s : List Octet) : Prop where
  plain : ∀ c ∈ s, vmebriseol c = false
  first : ∀ c, s.head? = some c → isblank c = false
  last : ∀ c, s.getLast? = some c → isblank c = false

/-- Something that ends a line. -/
def EndsLine (s : List Octet) : Prop := ∀ c, s.head? = some c → vmebriseol c = true

/-- A blank does not end a line. -/
theorem vmebriseol_of_isblank : ∀ c : Octet, isblank c = true → vmebriseol c = false := by decide

/-- Blanks before something that does not begin with one. -/
theorem dropWhile_blanks {blanks s : List Octet} (hblanks : Blanks blanks)
    (hs : ∀ c, s.head? = some c → isblank c = false) : (blanks ++ s).dropWhile isblank = s := by
  rw [List.dropWhile_append_of_pos hblanks]
  cases s with
  | nil => rfl
  | cons c s => exact List.dropWhile_cons_of_neg (by rw [hs c rfl]; exact Bool.false_ne_true)

/-- Blanks behind something that does not end with one. -/
theorem rdropWhile_blanks {s blanks : List Octet} (hblanks : Blanks blanks)
    (hs : ∀ c, s.getLast? = some c → isblank c = false) : (s ++ blanks).rdropWhile isblank = s := by
  have hreverse : Blanks blanks.reverse := fun c hc => hblanks c (List.mem_reverse.mp hc)
  rw [List.rdropWhile, List.reverse_append,
    dropWhile_blanks hreverse fun c hc => hs c ?_, List.reverse_reverse]
  rwa [List.head?_reverse] at hc

/-- What is behind the end of a line does not count. -/
theorem takeWhile_endsLine {s behind : List Octet} (hs : ∀ c ∈ s, vmebriseol c = false)
    (hbehind : EndsLine behind) :
    (s ++ behind).takeWhile (!vmebriseol ·) = s := by
  rw [List.takeWhile_append_of_pos fun c hc => by rw [hs c hc]; rfl]
  cases behind with
  | nil => rw [List.takeWhile_nil, List.append_nil]
  | cons c behind =>
    rw [List.takeWhile_cons_of_neg (by rw [hbehind c rfl]; decide), List.append_nil]

/-- `linestrip` finds the text between the blanks. -/
theorem linestrip_framed {before s after behind : List Octet} (hbefore : Blanks before) (hs : Stripped s)
    (hafter : Blanks after) (hbehind : EndsLine behind) : linestrip (before ++ s ++ after ++ behind) = s := by
  cases s with
  | nil =>
    have hblanks : Blanks (before ++ after) := fun c hc => (List.mem_append.mp hc).elim (hbefore c) (hafter c)
    have hstart : ∀ c, behind.head? = some c → isblank c = false := fun c hc => by
      by_contra hblank
      have hplain := vmebriseol_of_isblank c (Bool.of_not_eq_false hblank)
      exact Bool.false_ne_true (hplain.symm.trans (hbehind c hc))
    have htake := takeWhile_endsLine (s := []) (fun c hc => absurd hc List.not_mem_nil) hbehind
    rw [linestrip, List.append_nil, dropWhile_blanks hblanks hstart]
    exact congrArg (List.rdropWhile isblank) htake
  | cons c s =>
    have hplain : ∀ d ∈ c :: s ++ after, vmebriseol d = false := fun d hd =>
      (List.mem_append.mp hd).elim (hs.plain d) fun hd => vmebriseol_of_isblank d (hafter d hd)
    have hdrop := dropWhile_blanks (s := c :: s ++ after ++ behind) hbefore hs.first
    rw [← List.append_assoc, ← List.append_assoc] at hdrop
    rw [linestrip, hdrop, takeWhile_endsLine hplain hbehind, rdropWhile_blanks hafter hs.last]

/-- Nothing but blanks and the end of the line. -/
theorem stripped_nil : Stripped [] :=
  ⟨fun _ h => absurd h List.not_mem_nil, fun _ h => absurd h (Option.some_ne_none _).symm,
    fun _ h => absurd h (Option.some_ne_none _).symm⟩

/-- The end of the line stops `linestrip` as the end of the string does. -/
theorem linestrip_append_newline (s : List Octet) : linestrip (s ++ [newline]) = linestrip s := by
  have hdrop : (s ++ [newline]).dropWhile isblank = s.dropWhile isblank ++ [newline] := by
    induction s with
    | nil => rfl
    | cons c s ih =>
      rw [List.cons_append, List.dropWhile_cons, List.dropWhile_cons, ih]
      split <;> rfl
  have htake (t : List Octet) : (t ++ [newline]).takeWhile (!vmebriseol ·) = t.takeWhile (!vmebriseol ·) := by
    induction t with
    | nil => rfl
    | cons c t ih => rw [List.cons_append, List.takeWhile_cons, List.takeWhile_cons, ih]
  rw [linestrip, hdrop, htake]
  rfl

/-- A comment ends a line. -/
theorem IsComment.endsLine {comment : List Octet} (h : IsComment comment) : EndsLine comment := by
  intro c hc
  rcases h.starts with hnil | hhash
  · rw [hnil] at hc
    exact absurd hc (Option.some_ne_none c).symm
  · obtain rfl := Option.some.inj (hc.symm.trans hhash)
    decide

/-- What a digit is not: a letter of a setting, or anything that ends a line or a token. -/
theorem digit_plain : ∀ c : Octet, isdigit c = true → c ≠ 0x3a ∧ vmebriseol c = false ∧ isblank c = false ∧
    toupper c ≠ 0x57 ∧ toupper c ≠ 0x45 ∧ toupper c ≠ 0x41 ∧ isdigit (toupper c) = true := by
  decide

/-- What a blank is not: a colon, or a digit of any base. -/
theorem blank_plain : ∀ c : Octet, isblank c = true → c ≠ 0x3a ∧ digitValue c = none := by decide

/-- A line that begins with a digit is for a register. -/
theorem lineKind_digit {d : Octet} (hd : isdigit d = true) (word : List Octet) :
    lineKind (d :: word) = .register := by
  obtain ⟨-, -, -, hwidth, hendian, haddress, hdigit⟩ := digit_plain d hd
  simp only [lineKind, firstChar, List.headD_cons, hwidth, hendian, haddress, hdigit, if_false, if_true]

/-- An index is read back, whatever blanks are behind it. -/
theorem offsetOf_decimal {index : ℕ} (hindex : index < 2 ^ 31 - 1)
    {blanks : List Octet} (hblanks : Blanks blanks) :
    offsetOf (decimal index ++ blanks) = index := by
  obtain ⟨d, word, hdecimal, hd⟩ := exists_decimal index
  have hstrtoul : strtoul (decimal index ++ blanks) = strtoul (decimal index) := by
    cases blanks with
    | nil => rw [List.append_nil]
    | cons c blanks =>
      rw [hdecimal]
      exact strtoul_append_stop hd word (blank_plain c (hblanks c List.mem_cons_self)).2 blanks
  have hint : index % 2 ^ 64 % 2 ^ 32 = index := by omega
  rw [offsetOf, hstrtoul, strtoul_decimal (by omega), BitVec.toInt_eq_toNat_of_lt]
  · rw [BitVec.toNat_setWidth, BitVec.toNat_ofNat, hint]
  · rw [BitVec.toNat_setWidth, BitVec.toNat_ofNat, hint]
    omega

namespace Register

variable {r : Register}

/-- A legal name is left as it is. -/
theorem Legal.stripped (h : r.Legal) : Stripped r.name := ⟨fun c hc => (h.plain c hc).2, h.first, h.last⟩

/-- The record gets the name between the blanks. -/
theorem Legal.recordName (h : r.Legal)
    {before after : List Octet} (hbefore : Blanks before) (hafter : Blanks after) :
    recordName (before ++ r.name ++ after) = r.name := by
  have hstrip : linestrip (before ++ r.name ++ after ++ []) = r.name :=
    linestrip_framed hbefore h.stripped hafter fun _ hc => absurd hc (Option.some_ne_none _).symm
  rw [List.append_nil] at hstrip
  rw [Tui.recordName, hstrip, List.take_of_length_le h.short]

/-- The record gets the sign and the width. -/
theorem signAndWidth_record (r : Register) (afterSign : List Octet) :
    signAndWidth ⟨r.name, 1, 2⟩ [r.signChar :: afterSign, [r.widthChar]] = (true, r.record) := by
  obtain ⟨name, signed, wide⟩ := r
  cases signed <;> cases wide <;> rfl

/-- `S` and `U` do not end a line or a token. -/
theorem signChar_plain (r : Register) : r.signChar ≠ 0x3a ∧ vmebriseol r.signChar = false :=
  (by decide : ∀ signed : Bool, (if signed then 0x53 else 0x55 : Octet) ≠ 0x3a ∧
    vmebriseol (if signed then 0x53 else 0x55) = false) r.signed

/-- `2` and `4` do not either, and they are not blank. -/
theorem widthChar_plain (r : Register) :
    r.widthChar ≠ 0x3a ∧ vmebriseol r.widthChar = false ∧ isblank r.widthChar = false :=
  (by decide : ∀ wide : Bool, (if wide then 0x34 else 0x32 : Octet) ≠ 0x3a ∧
    vmebriseol (if wide then 0x34 else 0x32) = false ∧ isblank (if wide then 0x34 else 0x32) = false) r.wide

end Register

namespace RnmLine

variable {index : ℕ} {r : Register} {l : Layout}

/-- The four tokens of a line for a register. -/
def tokens (index : ℕ) (r : Register) (l : Layout) : List (List Octet) :=
  [decimal index ++ l.afterIndex, l.beforeName ++ r.name ++ l.afterName,
    r.signChar :: l.afterSign, [r.widthChar]]

/-- The text between the blanks has blanks neither before nor behind it. -/
theorem stripped_core (hr : r.Legal) (hl : l.Legal) : Stripped (core index r l) := by
  obtain ⟨d, word, hdecimal, hd⟩ := exists_decimal index
  obtain ⟨-, hwidth, hblank⟩ := r.widthChar_plain
  have hblanks {blanks : List Octet} (h : Blanks blanks) : ∀ c ∈ blanks, vmebriseol c = false := fun c hc =>
    vmebriseol_of_isblank c (h c hc)
  have hcolon : vmebriseol 0x3a = false := by decide
  refine ⟨?_, fun c hc => ?_, fun c hc => ?_⟩
  · simp only [core, List.forall_mem_append, List.forall_mem_cons]
    exact ⟨⟨fun c hc => (digit_plain c (isdigit_decimal hc)).2.1, hblanks hl.afterIndex⟩, hcolon,
      ⟨⟨hblanks hl.beforeName, fun c hc => (hr.plain c hc).2⟩, hblanks hl.afterName⟩, hcolon,
      ⟨r.signChar_plain.2, hblanks hl.afterSign⟩, hcolon, hwidth, fun c hc => absurd hc List.not_mem_nil⟩
  · rw [core, hdecimal] at hc
    obtain rfl := Option.some.inj hc
    exact (digit_plain d hd).2.2.1
  · have hlast : (core index r l).getLast? = some r.widthChar := by
      simp [core, List.getLast?_append, List.getLast?_cons]
    obtain rfl := Option.some.inj (hlast.symm.trans hc)
    exact hblank

/-- The colons of a line separate its tokens. -/
theorem words_core (hr : r.Legal) (hl : l.Legal) : words (· == 0x3a) (core index r l) = tokens index r l := by
  obtain ⟨d, word, hdecimal, hd⟩ := exists_decimal index
  have hsolid {text : List Octet} (h : ∀ c ∈ text, c ≠ 0x3a) : ∀ c ∈ text, (c == (0x3a : Octet)) = false :=
    fun c hc => beq_eq_false_iff_ne.mpr (h c hc)
  have hblanks {blanks : List Octet} (h : Blanks blanks) : ∀ c ∈ blanks, c ≠ 0x3a := fun c hc =>
    (blank_plain c (h c hc)).1
  have hindex : ∀ c ∈ decimal index ++ l.afterIndex, c ≠ 0x3a := List.forall_mem_append.mpr
    ⟨fun c hc => (digit_plain c (isdigit_decimal hc)).1, hblanks hl.afterIndex⟩
  have hname : ∀ c ∈ l.beforeName ++ r.name ++ l.afterName, c ≠ 0x3a := List.forall_mem_append.mpr
    ⟨List.forall_mem_append.mpr ⟨hblanks hl.beforeName, fun c hc => (hr.plain c hc).1⟩, hblanks hl.afterName⟩
  have hsigned : ∀ c ∈ r.signChar :: l.afterSign, c ≠ 0x3a := List.forall_mem_cons.mpr
    ⟨r.signChar_plain.1, hblanks hl.afterSign⟩
  have hcolon : ((0x3a : Octet) == 0x3a) = true := rfl
  rw [core, words_word_space (by rw [hdecimal]; exact List.cons_ne_nil _ _) (hsolid hindex) hcolon,
    words_word_space (by simp [hr.nonempty]) (hsolid hname) hcolon,
    words_word_space (List.cons_ne_nil _ _) (hsolid hsigned) hcolon,
    words_word (List.cons_ne_nil _ _) (hsolid (by simpa using r.widthChar_plain.1)), tokens]

/-- `linestrip` finds the text between the blanks. -/
theorem linestrip_register (hr : r.Legal) (hl : l.Legal) :
    linestrip (register index r l).print = core index r l :=
  linestrip_framed hl.beforeIndex (stripped_core hr hl) hl.afterWidth hl.comment.endsLine

/-- The tokens of a printed line. -/
theorem lineTokens_register (hr : r.Legal) (hl : l.Legal) :
    lineTokens (register index r l).print = tokens index r l := by
  rw [lineTokens, linestrip_register hr hl, words_core hr hl]
  rfl

/-- The second pass takes the index from the first token. -/
theorem registerOffset_tokens (hindex : index < 2 ^ 31 - 1) (hl : l.Legal) :
    registerOffset (tokens index r l) = some (index : ℤ) := by
  obtain ⟨d, word, hdecimal, hd⟩ := exists_decimal index
  have hoffset := offsetOf_decimal hindex hl.afterIndex
  have hkind : lineKind (decimal index ++ l.afterIndex) = .register := by
    rw [hdecimal]
    exact lineKind_digit hd _
  rw [tokens, registerOffset, if_pos hkind, hoffset]

/-- The first pass sees the same index. -/
theorem firstPassIndex_register (hindex : index < 2 ^ 31 - 1) (hr : r.Legal) (hl : l.Legal) :
    firstPassIndex (register index r l).print = some (index : ℤ) := by
  obtain ⟨d, word, hdecimal, hd⟩ := exists_decimal index
  refine firstPassIndex_of_register ?_ (by rw [lineTokens_register hr hl, registerOffset_tokens hindex hl])
  rw [linestrip_register hr hl, core, hdecimal]
  exact fun hcolon => (digit_plain d hd).1 (Option.some.inj hcolon)

/-- Nothing is left of an empty line. -/
theorem linestrip_empty {blanks comment : List Octet} (h : (empty blanks comment).Legal) :
    linestrip (empty blanks comment).print = [] := by
  have hstrip : linestrip (blanks ++ [] ++ [] ++ comment) = [] :=
    linestrip_framed h.1 stripped_nil (fun _ hc => absurd hc List.not_mem_nil) h.2.endsLine
  rwa [List.append_nil, List.append_nil] at hstrip

/-- An empty line has no tokens. -/
theorem lineTokens_empty {blanks comment : List Octet} (h : (empty blanks comment).Legal) :
    lineTokens (empty blanks comment).print = [] := by
  rw [lineTokens, linestrip_empty h]
  rfl

/-- The first pass sees no index in an empty line. -/
theorem firstPassIndex_empty {blanks comment : List Octet} (h : (empty blanks comment).Legal) :
    firstPassIndex (empty blanks comment).print = none := by
  simp only [firstPassIndex, linestrip_empty h]
  rfl

/-- A line that sets something begins with no digit, so the first pass sees no index in it. -/
theorem firstPassIndex_setting {text : List Octet} (h : (setting text).Legal) :
    firstPassIndex (setting text).print = none := by
  obtain ⟨-, ⟨first, rest, htokens, hkind⟩, -⟩ := h
  have hdigit : isdigit (firstChar (linestrip text)) = false := by
    by_contra hdigit
    rw [Bool.not_eq_false] at hdigit
    have hcolon : (linestrip text).head? ≠ some 0x3a := fun hcolon => by
      rw [firstChar, List.headD_eq_head?_getD, hcolon] at hdigit
      exact absurd hdigit (by decide)
    obtain ⟨behind, hsplit, hends⟩ := lineTokens_split hcolon htokens
    cases first with
    | nil =>
      cases behind with
      | nil =>
        rw [hsplit] at hdigit
        exact absurd hdigit (by decide)
      | cons c behind => exact hcolon (by rw [hsplit, hends c rfl]; rfl)
    | cons d word =>
      have hregister := lineKind_digit (d := d) (by rw [hsplit] at hdigit; exact hdigit) word
      rw [hregister] at hkind
      rcases hkind with hkind | hkind | hkind <;> exact LineKind.noConfusion hkind
  rw [print, firstPassIndex]
  exact if_neg (by rw [hdigit]; exact Bool.false_ne_true)

/-- What the first pass sees of a line. -/
theorem firstPassIndex_print {line : RnmLine} (h : line.Legal) :
    firstPassIndex line.print = line.entry.map fun entry => (entry.1 : ℤ) := by
  cases line with
  | register index r l => exact firstPassIndex_register h.1 h.2.1 h.2.2
  | empty blanks comment => exact firstPassIndex_empty h
  | setting text => exact firstPassIndex_setting h

/-- A line is on one line. -/
theorem newline_not_mem_print {line : RnmLine} (h : line.Legal) : newline ∉ line.print := by
  have hplain {text : List Octet} (htext : ∀ c ∈ text, vmebriseol c = false) : newline ∉ text := fun hmem =>
    absurd (htext newline hmem) (by decide)
  have hblanks {blanks : List Octet} (hb : Blanks blanks) : newline ∉ blanks :=
    hplain fun c hc => vmebriseol_of_isblank c (hb c hc)
  cases line with
  | register index r l =>
    obtain ⟨-, hr, hl⟩ := h
    simp only [print, List.mem_append, not_or]
    exact ⟨⟨⟨hblanks hl.beforeIndex, hplain (stripped_core hr hl).plain⟩, hblanks hl.afterWidth⟩,
      hl.comment.line⟩
  | empty blanks comment => exact fun hmem => (List.mem_append.mp hmem).elim (hblanks h.1) h.2.line
  | setting text => exact h.1

end RnmLine

end V120.Tui
