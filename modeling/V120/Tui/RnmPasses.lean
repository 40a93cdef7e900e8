import V120.Common.Tally
import V120.Tui.Rnm

/-!
# The two passes over an RNM file

What the second pass makes of a line follows from its tokens and the number of records alone: it is
accepted, refused, or writes outside of the array or of the hash table. The first pass sizes the array from
the first character of the stripped line, and the second takes its index from the first token. They agree
for a line that does not begin with a colon and whose index, as an `int`, is not negative.
-/

namespace V120.Tui

open V120.Common

/-- What became of a line, or of all lines. -/
inductive Verdict where
  | accepted
  | refused
  | strayRecord (toffs : ℤ)
  | strayBucket
  deriving DecidableEq

/-- The outcome without the state. -/
def LineResult.verdict {σ : Type*} : LineResult σ → Verdict
  | .accepted _ _ => .accepted
  | .refused _ _ => .refused
  | .strayRecord toffs => .strayRecord toffs
  | .strayBucket => .strayBucket

/-- The index at which a line writes a record. -/
def registerOffset : List (List Octet) → Option ℤ
  | [] => none
  | first :: _ => if lineKind first = .register then some (offsetOf first) else none

/-- The name of a register has no bucket. -/
def negativeName (tokens : List (List Octet)) : Bool :=
  tokens[1]?.any fun token => negativeHash (recordName token)

/-- The tokens have the form that `linedata` expects. -/
def lineLegal : List (List Octet) → Bool
  | [] => true
  | first :: rest =>
    match lineKind first with
    | .dataWidth => rest.head?.any fun value => widthOf value = 2 ∨ widthOf value = 4
    | .endianness => rest.head?.any fun value => (endiannessOf (toupper (firstChar value))).isSome
    | .addressWidth => !rest.isEmpty
    | .register => (signAndWidth ⟨[], 1, 2⟩ rest.tail).1
    | .unexpected => false

/-- What `linedata` makes of a line, with an array of so many records. -/
def lineVerdict (len : ℕ) (tokens : List (List Octet)) : Verdict :=
  let plain := if lineLegal tokens then Verdict.accepted else .refused
  match registerOffset tokens with
  | none => plain
  | some toffs =>
    if toffs < 0 ∨ len ≤ toffs then .strayRecord toffs
    else if negativeName tokens then .strayBucket
    else plain

/-- What `filldata` makes of the lines: the first line that is not accepted decides. -/
def linesVerdict (len : ℕ) : List (List Octet) → Verdict
  | [] => .accepted
  | line :: lines =>
    match lineVerdict len (lineTokens line) with
    | .accepted => linesVerdict len lines
    | verdict => verdict

variable {σ : Type*} {os : Os σ} {rnm rnm' : RnmT} {sys sys' : System σ}

/-- Whether the sign and the width are legal does not depend on the record. -/
theorem signAndWidth_fst (rdata rdata' : VmeMetadata) (rest : List (List Octet)) :
    (signAndWidth rdata rest).1 = (signAndWidth rdata' rest).1 := by
  cases rest with
  | nil => rfl
  | cons sign rest =>
    simp only [signAndWidth]
    split
    · rfl
    · cases rest with
      | nil => rfl
      | cons width rest =>
        simp only []
        split
        · rfl
        · split <;> rfl

/-- A line for a register. -/
theorem verdict_registerLine (rnm : RnmT) (toffs : ℤ) (rest : List (List Octet)) (sys : System σ) :
    (registerLine os rnm toffs rest sys).verdict =
      if toffs < 0 ∨ rnm.rMdata.length ≤ toffs then .strayRecord toffs
      else if rest.head?.any fun token => negativeHash (recordName token) then .strayBucket
      else if (signAndWidth ⟨[], 1, 2⟩ rest.tail).1 then .accepted else .refused := by
  rw [registerLine]
  by_cases hrange : toffs < 0 ∨ rnm.rMdata.length ≤ toffs
  · rw [if_pos hrange, if_pos hrange]
    rfl
  · rw [if_neg hrange, if_neg hrange]
    cases rest with
    | nil => rfl
    | cons token rest =>
      have hsign := signAndWidth_fst ⟨[], 1, 2⟩ ⟨recordName token, 1, 2⟩ rest
      cases hname : negativeHash (recordName token) with
      | true => simp [hname, LineResult.verdict]
      | false =>
        cases hlegal : (signAndWidth ⟨recordName token, 1, 2⟩ rest).1 <;>
          simp [hname, hsign, hlegal, LineResult.verdict]

/-- What `linedata` makes of a line. -/
theorem verdict_linedata (os : Os σ) (rnm : RnmT) (tokens : List (List Octet)) (sys : System σ) :
    (linedata os rnm tokens sys).verdict = lineVerdict rnm.rMdata.length tokens := by
  cases tokens with
  | nil => rfl
  | cons first rest =>
    cases hkind : lineKind first with
    | dataWidth =>
      cases rest with
      | nil => simp [linedata, lineVerdict, lineLegal, registerOffset, hkind, LineResult.verdict]
      | cons value rest =>
        by_cases hwidth : widthOf value = 2 ∨ widthOf value = 4 <;>
          simp [linedata, lineVerdict, lineLegal, registerOffset, hkind, hwidth, LineResult.verdict]
    | endianness =>
      cases rest with
      | nil => simp [linedata, lineVerdict, lineLegal, registerOffset, hkind, LineResult.verdict]
      | cons value rest =>
        cases hendi : endiannessOf (toupper (firstChar value)) <;>
          simp [linedata, lineVerdict, lineLegal, registerOffset, hkind, hendi, LineResult.verdict]
    | addressWidth =>
      cases rest <;> simp [linedata, lineVerdict, lineLegal, registerOffset, hkind, LineResult.verdict]
    | register =>
      simp only [linedata, lineVerdict, registerOffset, hkind, if_true, verdict_registerLine]
      simp only [lineLegal, hkind, negativeName, List.getElem?_cons_succ, List.head?_eq_getElem?]
    | unexpected => simp [linedata, lineVerdict, lineLegal, registerOffset, hkind, LineResult.verdict]

/-- The structure while lines are added to it: its records and its own blocks stay, and for every new block
there is a new entry behind the table. -/
structure Grown (rnm : RnmT) (sys : System σ) (rnm' : RnmT) (sys' : System σ) : Prop where
  records : rnm'.rMdata.length = rnm.rMdata.length
  mdataBlock : rnm'.mdataBlock = rnm.mdataBlock
  pathBlock : rnm'.pathBlock = rnm.pathBlock
  path : rnm'.rPath = rnm.rPath
  nodes : ∃ count, sys'.blocks = sys.blocks + count ∧
    rnm'.nodes.Perm (rnm.nodes ++ List.range' sys.blocks count)
  freed : sys'.freed = sys.freed
  files : sys'.files = sys.files
  closed : sys'.closed = sys.closed

namespace Grown

/-- With the table, the number of records and the blocks as they were, nothing was added. -/
theorem of_rHash (hrecords : rnm'.rMdata.length = rnm.rMdata.length)
    (hmdata : rnm'.mdataBlock = rnm.mdataBlock)
    (hpathBlock : rnm'.pathBlock = rnm.pathBlock) (hpath : rnm'.rPath = rnm.rPath)
    (hhash : rnm'.rHash = rnm.rHash) (hsys : sys.SameAccount sys') : Grown rnm sys rnm' sys' :=
  ⟨hrecords, hmdata, hpathBlock, hpath,
    ⟨0, hsys.blocks, by simp only [RnmT.nodes, hhash, List.range'_zero, List.append_nil, List.Perm.refl]⟩,
    hsys.freed, hsys.files, hsys.closed⟩

/-- One line after another. -/
theorem trans {rnm'' : RnmT} {sys'' : System σ} (h : Grown rnm sys rnm' sys')
    (h' : Grown rnm' sys' rnm'' sys'') :
    Grown rnm sys rnm'' sys'' := by
  obtain ⟨count, hblocks, hnodes⟩ := h.nodes
  obtain ⟨count', hblocks', hnodes'⟩ := h'.nodes
  refine ⟨h'.records.trans h.records, h'.mdataBlock.trans h.mdataBlock, h'.pathBlock.trans h.pathBlock,
    h'.path.trans h.path, ⟨count + count', by omega, hnodes'.trans ?_⟩, h'.freed.trans h.freed,
    h'.files.trans h.files, h'.closed.trans h.closed⟩
  rw [← List.range'_append_1, ← List.append_assoc, ← hblocks]
  exact hnodes.append_right _

end Grown

/-- A new entry in the hash table. -/
theorem grown_add2hash (os : Os σ) (rnm : RnmT) (name : List Octet) (index : ℕ) (sys : System σ) :
    Grown rnm sys (add2hash os rnm name index sys).2.1 (add2hash os rnm name index sys).2.2 := by
  have hnodes (entry : RnmHash) (bucket : Fin rnmHashSize) :
      ({ rnm with rHash := Function.update rnm.rHash bucket (rnm.rHash bucket ++ [entry]) } : RnmT).nodes.Perm
        (rnm.nodes ++ [entry].filterMap RnmHash.node) := by
    have hupdate := Function.comp_update
      (fun chain : List RnmHash => chain.filterMap RnmHash.node) rnm.rHash bucket
      (rnm.rHash bucket ++ [entry])
    have hperm := flatMap_update_perm (List.nodup_finRange rnmHashSize) (List.mem_finRange bucket)
      (fun b => (rnm.rHash b).filterMap RnmHash.node) ([entry].filterMap RnmHash.node)
    rw [← List.filterMap_append] at hperm
    exact (congrArg (List.flatMap · (List.finRange rnmHashSize)) hupdate ▸ hperm :)
  rw [add2hash]
  split
  · exact ⟨rfl, rfl, rfl, rfl, ⟨0, rfl, hnodes _ _⟩, rfl, rfl, rfl⟩
  · cases hmalloc : sys.malloc os with
    | mk answer sys' =>
      cases answer with
      | none =>
        exact .of_rHash rfl rfl rfl rfl rfl (System.sameAccount_malloc hmalloc)
      | some node =>
        have hblock := System.oneBlock_malloc hmalloc
        obtain rfl := hblock.block
        exact ⟨rfl, rfl, rfl, rfl, ⟨1, hblock.blocks, hnodes _ _⟩, hblock.freed, hblock.files, hblock.closed⟩

/-- The state behind a line, whether it was accepted or refused. -/
inductive LineResult.Left : LineResult σ → RnmT → System σ → Prop where
  | accepted (rnm : RnmT) (sys : System σ) : Left (.accepted rnm sys) rnm sys
  | refused (rnm : RnmT) (sys : System σ) : Left (.refused rnm sys) rnm sys

/-- What a line can do: it sets one of the widths or the endianness, and the data width to 2 or 4 if it is
accepted; or it is a line for a register. -/
theorem linedata_cases {tokens : List (List Octet)} (h : (linedata os rnm tokens sys).Left rnm' sys') :
    (∃ dwidth endi awidth, rnm' = { rnm with rDwidth := dwidth, rEndi := endi, rAwidth := awidth } ∧
      sys' = sys ∧ (linedata os rnm tokens sys = .accepted rnm' sys' →
        dwidth = rnm.rDwidth ∨ dwidth = 2 ∨ dwidth = 4)) ∨
      ∃ toffs rest, linedata os rnm tokens sys = registerLine os rnm toffs rest sys := by
  cases tokens with
  | nil =>
    cases h
    exact Or.inl ⟨_, _, _, rfl, rfl, fun _ => Or.inl rfl⟩
  | cons first rest =>
    cases hkind : lineKind first with
    | dataWidth =>
      cases rest with
      | nil =>
        simp only [linedata, hkind] at h
        cases h
        exact Or.inl ⟨_, _, _, rfl, rfl, fun _ => Or.inl rfl⟩
      | cons value rest =>
        simp only [linedata, hkind] at h ⊢
        by_cases hvalue : widthOf value = 2 ∨ widthOf value = 4
        · rw [if_pos hvalue] at h
          cases h
          exact Or.inl ⟨_, _, _, rfl, rfl, fun _ => Or.inr hvalue⟩
        · rw [if_neg hvalue] at h ⊢
          cases h
          refine Or.inl ⟨_, _, _, rfl, rfl, fun haccepted => ?_⟩
          cases haccepted
    | endianness =>
      cases rest with
      | nil =>
        simp only [linedata, hkind] at h
        cases h
        exact Or.inl ⟨_, _, _, rfl, rfl, fun _ => Or.inl rfl⟩
      | cons value rest =>
        simp only [linedata, hkind] at h
        split at h <;> cases h <;> exact Or.inl ⟨_, _, _, rfl, rfl, fun _ => Or.inl rfl⟩
    | addressWidth =>
      cases rest <;> simp only [linedata, hkind] at h <;> cases h <;>
        exact Or.inl ⟨_, _, _, rfl, rfl, fun _ => Or.inl rfl⟩
    | register =>
      right
      refine ⟨offsetOf first, rest, ?_⟩
      simp only [linedata, hkind]
    | unexpected =>
      simp only [linedata, hkind] at h
      cases h
      exact Or.inl ⟨_, _, _, rfl, rfl, fun _ => Or.inl rfl⟩

/-- A line for a register changes one record and adds one entry. -/
theorem grown_registerLine {toffs : ℤ} {rest : List (List Octet)}
    (h : (registerLine os rnm toffs rest sys).Left rnm' sys') : Grown rnm sys rnm' sys' := by
  rw [registerLine] at h
  split at h
  · cases h
  cases rest with
  | nil =>
    cases h
    exact .of_rHash (List.length_set ..) rfl rfl rfl rfl (.refl _)
  | cons token rest =>
    simp only [] at h
    split at h
    · cases h
    have hadd := grown_add2hash os rnm (recordName token) toffs.toNat sys
    have hset (rdata : VmeMetadata) (rnm₁ : RnmT) (sys₁ : System σ) :
        Grown rnm₁ sys₁ { rnm₁ with rMdata := rnm₁.rMdata.set toffs.toNat rdata } sys₁ :=
      .of_rHash (List.length_set ..) rfl rfl rfl rfl (.refl _)
    split at h <;> cases h <;> exact hadd.trans (hset _ _ _)

/-- A line without a register changes neither the records nor the table. -/
theorem grown_linedata {tokens : List (List Octet)} (h : (linedata os rnm tokens sys).Left rnm' sys') :
    Grown rnm sys rnm' sys' := by
  rcases linedata_cases h with ⟨dwidth, endi, awidth, rfl, rfl, -⟩ | ⟨toffs, rest, hregister⟩
  · exact .of_rHash rfl rfl rfl rfl rfl (.refl _)
  · exact grown_registerLine (hregister ▸ h)

/-- All lines up to the first that is not accepted. -/
theorem grown_filldataLoop {lines : List (List Octet)}
    (h : (filldataLoop os lines rnm sys).Left rnm' sys') : Grown rnm sys rnm' sys' := by
  induction lines generalizing rnm sys with
  | nil =>
    cases h
    exact .of_rHash rfl rfl rfl rfl rfl (.refl _)
  | cons line lines ih =>
    rw [filldataLoop] at h
    cases hline : linedata os rnm (lineTokens line) sys with
    | accepted rnm₁ sys₁ =>
      rw [hline] at h
      have hleft : (linedata os rnm (lineTokens line) sys).Left rnm₁ sys₁ := hline ▸ .accepted rnm₁ sys₁
      exact (grown_linedata hleft).trans (ih h)
    | refused rnm₁ sys₁ =>
      rw [hline] at h
      have hleft : (linedata os rnm (lineTokens line) sys).Left rnm' sys' := hline ▸ h
      exact grown_linedata hleft
    | strayRecord toffs =>
      rw [hline] at h
      cases h
    | strayBucket =>
      rw [hline] at h
      cases h

/-- What `filldata` makes of the lines follows from their tokens and the number of records. -/
theorem verdict_filldataLoop (os : Os σ) (lines : List (List Octet)) (rnm : RnmT) (sys : System σ) :
    (filldataLoop os lines rnm sys).verdict = linesVerdict rnm.rMdata.length lines := by
  induction lines generalizing rnm sys with
  | nil => rfl
  | cons line lines ih =>
    rw [filldataLoop, linesVerdict, ← verdict_linedata os rnm (lineTokens line) sys]
    cases hline : linedata os rnm (lineTokens line) sys with
    | accepted rnm₁ sys₁ =>
      have hleft : (linedata os rnm (lineTokens line) sys).Left rnm₁ sys₁ := hline ▸ .accepted rnm₁ sys₁
      exact (ih rnm₁ sys₁).trans (congrArg (linesVerdict · lines) (grown_linedata hleft).records)
    | refused rnm₁ sys₁ => rfl
    | strayRecord toffs => rfl
    | strayBucket => rfl

/-- What `filldata` makes of a content. -/
theorem verdict_filldata (rnm : RnmT) (content : List Octet) (sys : System σ) :
    (filldata os rnm content sys).verdict = linesVerdict rnm.rMdata.length (rnmLines content) :=
  verdict_filldataLoop _ _ _ _

/-- `linedata` accepts a line, wherever its index may be. -/
def linePasses (tokens : List (List Octet)) : Bool :=
  lineLegal tokens && !((registerOffset tokens).isSome && negativeName tokens)

/-- A line is accepted when it passes and its index is in the array. -/
theorem lineVerdict_accepted_iff (len : ℕ) (tokens : List (List Octet)) :
    lineVerdict len tokens = .accepted ↔
      linePasses tokens = true ∧ ∀ toffs, registerOffset tokens = some toffs → 0 ≤ toffs ∧ toffs < len := by
  rw [lineVerdict, linePasses]
  cases hoffset : registerOffset tokens with
  | none => cases lineLegal tokens <;> simp
  | some toffs =>
    by_cases hrange : toffs < 0 ∨ (len : ℤ) ≤ toffs
    · simp only [if_pos hrange, reduceCtorEq, false_iff]
      rintro ⟨-, hrange'⟩
      have := hrange' toffs rfl
      omega
    · have hrange' : 0 ≤ toffs ∧ toffs < len := by omega
      cases negativeName tokens <;> cases lineLegal tokens <;> simp [hrange, hrange']

/-- The second pass comes behind lines that are all accepted. -/
theorem linesVerdict_accepted_iff (len : ℕ) (lines : List (List Octet)) :
    linesVerdict len lines = .accepted ↔ ∀ line ∈ lines, lineVerdict len (lineTokens line) = .accepted := by
  induction lines with
  | nil => exact iff_of_true rfl fun line h => absurd h List.not_mem_nil
  | cons line lines ih =>
    rw [linesVerdict, List.forall_mem_cons, ← ih]
    cases lineVerdict len (lineTokens line) <;> simp

/-- The largest index that the first pass sees, which starts at some other. -/
theorem le_foldl_maxoffsLine (lines : List (List Octet)) (offs toffs : ℤ) :
    toffs ≤ lines.foldl maxoffsLine offs ↔
      toffs ≤ offs ∨ ∃ line ∈ lines, ∃ other, firstPassIndex line = some other ∧ toffs ≤ other := by
  induction lines generalizing offs with
  | nil => simp
  | cons line lines ih =>
    have hline : toffs ≤ maxoffsLine offs line ↔
        toffs ≤ offs ∨ ∃ other, firstPassIndex line = some other ∧ toffs ≤ other := by
      rw [maxoffsLine]
      cases firstPassIndex line with
      | none => simp
      | some other =>
        simp only [Option.some.injEq, exists_eq_left']
        split <;> omega
    rw [List.foldl_cons, ih, hline]
    simp only [List.mem_cons, exists_eq_or_imp, or_assoc]

/-- No index that the first pass sees is above its answer. -/
theorem le_maxoffs_iff (content : List Octet) (toffs : ℤ) :
    toffs ≤ maxoffs content ↔
      toffs ≤ 0 ∨ ∃ line ∈ rnmLines content, ∃ other, firstPassIndex line = some other ∧ toffs ≤ other :=
  le_foldl_maxoffsLine _ _ _

/-- A line that does not begin with a colon begins with its first token. -/
theorem lineTokens_split {line first : List Octet} {rest : List (List Octet)}
    (hcolon : (linestrip line).head? ≠ some 0x3a) (h : lineTokens line = first :: rest) :
    ∃ behind, linestrip line = first ++ behind ∧ ∀ c, behind.head? = some c → c = 0x3a := by
  have hstart : (linestrip line).dropWhile (· == 0x3a) = linestrip line := by
    cases hs : linestrip line with
    | nil => rfl
    | cons c s =>
      rw [hs] at hcolon
      exact List.dropWhile_cons_of_neg (by simpa using fun hc => hcolon (congrArg some hc))
  rcases firstWord_cases (· == 0x3a) (linestrip line) with hnone | ⟨word, behind, hword⟩
  · rw [lineTokens, words_spaces hnone] at h
    exact absurd h (List.cons_ne_nil _ _).symm
  · rw [lineTokens, hword.words, rnmMaxTokens, List.take_succ_cons] at h
    obtain ⟨rfl, -⟩ := List.cons.inj h
    exact ⟨behind, hstart.symm.trans hword.split, fun c hc => beq_iff_eq.mp (hword.ends c hc)⟩

/-- A capital letter stands for no digit. -/
theorem isdigit_of_toupper : ∀ c : Octet, isdigit (toupper c) = true → isdigit c = true := by decide

/-- The letters do not count as digits, and a line for a register begins with one. -/
theorem isdigit_of_register {first : List Octet} (h : lineKind first = .register) :
    isdigit (firstChar first) = true := by
  rw [lineKind] at h
  refine isdigit_of_toupper _ ?_
  by_contra hnot
  simp only [hnot] at h
  split at h
  · exact LineKind.noConfusion h
  · split at h
    · exact LineKind.noConfusion h
    · split at h <;> exact LineKind.noConfusion h

/-- The first pass takes the same index from a line that does not begin with a colon. -/
theorem firstPassIndex_of_register {line : List Octet} {toffs : ℤ}
    (hcolon : (linestrip line).head? ≠ some 0x3a) (h : registerOffset (lineTokens line) = some toffs) :
    firstPassIndex line = some toffs := by
  cases htokens : lineTokens line with
  | nil =>
    rw [htokens] at h
    exact absurd h (Option.some_ne_none _).symm
  | cons first rest =>
    rw [htokens, registerOffset] at h
    split at h
    · rename_i hkind
      obtain rfl := Option.some.inj h
      obtain ⟨behind, hsplit, hends⟩ := lineTokens_split hcolon htokens
      have hdigit := isdigit_of_register hkind
      cases first with
      | nil => exact absurd hdigit (by decide)
      | cons d word =>
        have hstrtoul : strtoul (d :: word ++ behind) = strtoul (d :: word) := by
          cases behind with
          | nil => rw [List.append_nil]
          | cons c behind =>
            obtain rfl := hends c rfl
            exact strtoul_append_stop hdigit word (by decide) behind
        have hfirst : firstChar (linestrip line) = d := by rw [hsplit]; rfl
        simp only [firstPassIndex, hfirst]
        rw [if_pos (show isdigit d = true from hdigit), offsetOf, offsetOf, hsplit, hstrtoul]
    · exact absurd h (Option.some_ne_none _).symm

/-- The second pass comes to a line that writes the record with this index. -/
def WritesRecord (os : Os σ) (rnm : RnmT) (content : List Octet) (sys : System σ) (toffs : ℤ) : Prop :=
  ∃ before line after rnm' sys', rnmLines content = before ++ line :: after ∧
    filldataLoop os before rnm.withDefaults sys = .accepted rnm' sys' ∧
      registerOffset (lineTokens line) = some toffs

/-- The lines before which the second pass comes are those behind accepted lines. -/
theorem writesRecord_iff (rnm : RnmT) (content : List Octet) (sys : System σ) (toffs : ℤ) :
    WritesRecord os rnm content sys toffs ↔ ∃ before line after, rnmLines content = before ++ line :: after ∧
      (∀ l ∈ before, lineVerdict rnm.rMdata.length (lineTokens l) = .accepted) ∧
        registerOffset (lineTokens line) = some toffs := by
  have hloop (before : List (List Octet)) : (∃ rnm' sys',
      filldataLoop os before rnm.withDefaults sys = .accepted rnm' sys') ↔
        ∀ l ∈ before, lineVerdict rnm.rMdata.length (lineTokens l) = .accepted := by
    have hverdict := verdict_filldataLoop os before rnm.withDefaults sys
    rw [← linesVerdict_accepted_iff]
    refine Iff.trans ?_ (iff_of_eq (congrArg (· = Verdict.accepted) hverdict))
    cases filldataLoop os before rnm.withDefaults sys <;> simp [LineResult.verdict]
  constructor
  · rintro ⟨before, line, after, rnm', sys', hlines, haccepted, hoffset⟩
    exact ⟨before, line, after, hlines, (hloop before).mp ⟨rnm', sys', haccepted⟩, hoffset⟩
  · rintro ⟨before, line, after, hlines, hbefore, hoffset⟩
    obtain ⟨rnm', sys', haccepted⟩ := (hloop before).mpr hbefore
    exact ⟨before, line, after, rnm', sys', hlines, haccepted, hoffset⟩

/-- The lines that pass are accepted, when no line writes outside of the array. -/
theorem accepted_of_linePasses {rnm : RnmT} {content : List Octet} {sys : System σ}
    (hrange : ∀ toffs, WritesRecord os rnm content sys toffs → 0 ≤ toffs ∧ toffs < rnm.rMdata.length)
    {before after : List (List Octet)} (hlines : rnmLines content = before ++ after)
    (hpasses : ∀ l ∈ before, linePasses (lineTokens l) = true) :
    ∀ l ∈ before, lineVerdict rnm.rMdata.length (lineTokens l) = .accepted := by
  induction before using List.reverseRecOn generalizing after with
  | nil => exact fun l hl => absurd hl List.not_mem_nil
  | append_singleton before line ih =>
    have hlines' : rnmLines content = before ++ line :: after := by rw [hlines, List.append_assoc]; rfl
    have hbefore := ih hlines' fun l hl => hpasses l (List.mem_append_left _ hl)
    have hline := (lineVerdict_accepted_iff rnm.rMdata.length (lineTokens line)).mpr
      ⟨hpasses line (List.mem_append_right _ (List.mem_singleton_self line)), fun toffs hoffset =>
        hrange toffs ((writesRecord_iff rnm content sys toffs).mpr
          ⟨before, line, after, hlines', hbefore, hoffset⟩)⟩
    intro l hl
    rcases List.mem_append.mp hl with hl | hl
    · exact hbefore l hl
    · exact List.mem_singleton.mp hl ▸ hline

/-- **The two passes agree on the size of the table.** For every content, with `m` from `maxoffs`, each record
that `filldata` writes is between 0 and `m`, exactly when every line for a register that comes behind lines
that pass has an index that is not negative as an `int`, and, if it begins with a colon, an index no larger
than one that the first pass sees. -/
theorem passes_agree_iff (os : Os σ) (content path : List Octet) (rdata fnm : ℕ) (sys : System σ) :
    (∀ toffs, WritesRecord os (newRnm (maxoffs content) rdata path fnm) content sys toffs →
        0 ≤ toffs ∧ toffs ≤ maxoffs content) ↔
      ∀ before line after, rnmLines content = before ++ line :: after →
        (∀ l ∈ before, linePasses (lineTokens l) = true) →
          ∀ toffs, registerOffset (lineTokens line) = some toffs →
            0 ≤ toffs ∧ ((linestrip line).head? = some 0x3a →
              toffs ≤ 0 ∨ ∃ l ∈ rnmLines content,
                ∃ other, firstPassIndex l = some other ∧ toffs ≤ other) := by
  have hnonneg : 0 ≤ maxoffs content := (le_maxoffs_iff content 0).mpr (Or.inl le_rfl)
  have hlength : ((newRnm (maxoffs content) rdata path fnm).rMdata.length : ℤ) = maxoffs content + 1 := by
    rw [newRnm, List.length_replicate]
    omega
  constructor
  · intro hrange before line after hlines hpasses toffs hoffset
    have hbefore := accepted_of_linePasses (fun toffs h => (hrange toffs h).imp_right fun hle => by omega)
      hlines hpasses
    have hwrites := hrange toffs
      ((writesRecord_iff _ _ _ _).mpr ⟨before, line, after, hlines, hbefore, hoffset⟩)
    exact ⟨hwrites.1, fun _ => (le_maxoffs_iff content toffs).mp hwrites.2⟩
  · intro hlines toffs hwrites
    obtain ⟨before, line, after, hsplit, hbefore, hoffset⟩ := (writesRecord_iff _ _ _ _).mp hwrites
    have hpasses (l : List Octet) (hl : l ∈ before) : linePasses (lineTokens l) = true :=
      ((lineVerdict_accepted_iff _ _).mp (hbefore l hl)).1
    obtain ⟨hzero, hcolon⟩ := hlines before line after hsplit hpasses toffs hoffset
    refine ⟨hzero, (le_maxoffs_iff content toffs).mpr ?_⟩
    by_cases hstart : (linestrip line).head? = some 0x3a
    · exact hcolon hstart
    · have hline : line ∈ rnmLines content := hsplit ▸ List.mem_append_right _ List.mem_cons_self
      exact Or.inr ⟨line, hline, toffs, firstPassIndex_of_register hstart hoffset, le_rfl⟩

/-- A file with the lines `1:A` and `:5:B`. -/
def colonFile : List Octet := [0x31, 0x3a, 0x41, 0x0a, 0x3a, 0x35, 0x3a, 0x42, 0x0a]

/-- The first pass ignores the second line, and the second pass writes the record with index 5 behind an
array of two. -/
theorem passes_disagree : maxoffs colonFile = 1 ∧
    ¬∀ (os : Os Unit) (content path : List Octet) (rdata fnm : ℕ) (sys : System Unit) (toffs : ℤ),
      WritesRecord os (newRnm (maxoffs content) rdata path fnm) content sys toffs →
        0 ≤ toffs ∧ toffs ≤ maxoffs content := by
  have hmaxoffs : maxoffs colonFile = 1 := by decide
  refine ⟨hmaxoffs, fun h => ?_⟩
  let os : Os Unit := ⟨fun _ => (true, ()), fun _ _ => (true, ()), fun _ _ => (none, ())⟩
  have hwrites : WritesRecord os (newRnm (maxoffs colonFile) 1 [] 0) colonFile ⟨(), 3, [], 1, []⟩ 5 :=
    (writesRecord_iff _ _ _ _).mpr
      ⟨[[0x31, 0x3a, 0x41, 0x0a]], [0x3a, 0x35, 0x3a, 0x42, 0x0a], [], by decide, by decide, by decide⟩
  exact absurd (hmaxoffs ▸ (h os colonFile [] 1 0 _ 5 hwrites).2) (by decide)

end V120.Tui
