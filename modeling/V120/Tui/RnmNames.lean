import V120.Tui.RnmRoundTrip

/-!
# Searching a table whose names change

An entry of the hash table keeps the hash of a name, but points to the record, whose name a later line may
change. So an entry may be stale. A search compares the name in the record as well: it never answers with a
stale entry, and a record that has its name now was given an entry when it got it.
-/

namespace V120.Tui

open V120.Common

variable {σ : Type*} {os : Os σ} {rnm rnm' : RnmT} {sys sys' : System σ}

/-- What a line does to the records and the table: nothing; or it writes a record, and adds no entry if
there is no name, or no memory; or it writes a record and adds an entry for its name. -/
inductive LineEffect (os : Os σ) (rnm rnm' : RnmT) : Prop where
  | unchanged (hmdata : rnm'.rMdata = rnm.rMdata) (hhash : rnm'.rHash = rnm.rHash)
  | unlisted (index : ℕ) (rdata : VmeMetadata) (hname : rdata.name = [] ∨ ∃ s, (os.malloc s).1 = false)
    (hindex : index < rnm.rMdata.length) (hmdata : rnm'.rMdata = rnm.rMdata.set index rdata)
    (hhash : rnm'.rHash = rnm.rHash)
  | listed (index : ℕ) (rdata : VmeMetadata) (node : Option ℕ) (hindex : index < rnm.rMdata.length)
    (hmdata : rnm'.rMdata = rnm.rMdata.set index rdata)
    (hhash : rnm'.rHash = (rnm.hashed index rdata.name node).rHash)

/-- The sign and the width do not change the name. -/
theorem signAndWidth_name (rdata : VmeMetadata) (rest : List (List Octet)) :
    (signAndWidth rdata rest).2.name = rdata.name := by
  cases rest with
  | nil => rfl
  | cons sign rest =>
    have hsign : (if toupper (firstChar sign) = 0x53 then { rdata with sign := -1 } else rdata).name =
        rdata.name := by
      split <;> rfl
    simp only [signAndWidth]
    split
    · exact hsign
    · cases rest with
      | nil => exact hsign
      | cons width rest =>
        simp only []
        split
        · exact hsign
        · split <;> exact hsign

/-- `add2hash` adds an entry at the end of a bucket, or there is no memory. -/
theorem add2hash_cases (os : Os σ) (rnm : RnmT) (name : List Octet) (index : ℕ) (sys : System σ) :
    (∃ node, (add2hash os rnm name index sys).2.1 = rnm.hashed index name node) ∨
      (add2hash os rnm name index sys).2.1 = rnm ∧ ∃ s, (os.malloc s).1 = false := by
  rw [add2hash]
  split
  · exact Or.inl ⟨none, rfl⟩
  · cases hanswer : os.malloc sys.outside with
    | mk found outside =>
      cases found with
      | true =>
        left
        simp only [System.malloc, hanswer]
        exact ⟨_, rfl⟩
      | false =>
        right
        simp only [System.malloc, hanswer]
        exact ⟨trivial, sys.outside, congrArg Prod.fst hanswer⟩

/-- A line for a register. -/
theorem registerLine_effect {toffs : ℤ} {rest : List (List Octet)}
    (h : (registerLine os rnm toffs rest sys).Left rnm' sys') :
    LineEffect os rnm rnm' ∧ rnm'.rLen = rnm.rLen ∧ rnm'.rDwidth = rnm.rDwidth := by
  rw [registerLine] at h
  split at h
  case isTrue hrange => cases h
  case isFalse hrange =>
  have hindex : toffs.toNat < rnm.rMdata.length := by omega
  cases rest with
  | nil =>
    cases h
    exact ⟨.unlisted toffs.toNat _ (Or.inl rfl) hindex rfl rfl, rfl, rfl⟩
  | cons token rest =>
    simp only [] at h
    split at h
    · cases h
    have hname := signAndWidth_name ⟨recordName token, 1, 2⟩ rest
    have hleft : rnm' = { (add2hash os rnm (recordName token) toffs.toNat sys).2.1 with
        rMdata := (add2hash os rnm (recordName token) toffs.toNat sys).2.1.rMdata.set toffs.toNat
          (signAndWidth ⟨recordName token, 1, 2⟩ rest).2 } := by
      split at h <;> cases h <;> rfl
    rw [hleft]
    rcases add2hash_cases os rnm (recordName token) toffs.toNat sys with
      ⟨node, hadded⟩ | ⟨hsame, hmemory⟩
    · rw [hadded]
      refine ⟨.listed toffs.toNat _ node hindex rfl ?_, rfl, rfl⟩
      rw [hname]
    · rw [hsame]
      exact ⟨.unlisted toffs.toNat _ (Or.inr hmemory) hindex rfl rfl, rfl, rfl⟩

/-- A line changes one record at most. -/
theorem linedata_effect {tokens : List (List Octet)} (h : (linedata os rnm tokens sys).Left rnm' sys') :
    LineEffect os rnm rnm' ∧ rnm'.rLen = rnm.rLen := by
  rcases linedata_cases h with ⟨dwidth, endi, awidth, rfl, rfl, -⟩ | ⟨toffs, rest, hregister⟩
  · exact ⟨.unchanged rfl rfl, rfl⟩
  · obtain ⟨heffect, hrLen, -⟩ := registerLine_effect (hregister ▸ h)
    exact ⟨heffect, hrLen⟩

/-- Every entry is for the record that its index says, and this is a record of the array. -/
def KnownNames (rnm : RnmT) : Prop :=
  ∀ bucket, ∀ rh ∈ rnm.rHash bucket, rh.rhIdx = rh.rhName ∧ rh.rhName < rnm.rMdata.length

/-- Every record with a name has an entry with the hash of this name, in its bucket. -/
def ListedNames (rnm : RnmT) : Prop :=
  ∀ index rdata, rnm.rMdata[index]? = some rdata → rdata.name ≠ [] →
    ∃ node, ⟨index, hashstring rdata.name, index, node⟩ ∈ rnm.rHash (bucketOf (hashstring rdata.name))

/-- An entry is in the table with a new one if it was there before, or is the new one in its bucket. -/
theorem mem_hashed {index : ℕ} {name : List Octet} {node : Option ℕ} {bucket : Fin rnmHashSize}
    {rh : RnmHash} : rh ∈ (rnm.hashed index name node).rHash bucket ↔
      rh ∈ rnm.rHash bucket ∨
        bucket = bucketOf (hashstring name) ∧ rh = ⟨index, hashstring name, index, node⟩ := by
  by_cases hbucket : bucket = bucketOf (hashstring name)
  · subst hbucket
    simp only [RnmT.hashed, Function.update_self, List.mem_append, List.mem_singleton, true_and]
  · simp only [RnmT.hashed, Function.update_of_ne hbucket, hbucket, false_and, or_false]

/-- A line adds only entries for records of the array. -/
theorem KnownNames.effect (h : KnownNames rnm) (heffect : LineEffect os rnm rnm') : KnownNames rnm' := by
  cases heffect with
  | unchanged hmdata hhash =>
    intro bucket rh hrh
    rw [hhash] at hrh
    rw [hmdata]
    exact h bucket rh hrh
  | unlisted index rdata _ _ hmdata hhash =>
    intro bucket rh hrh
    rw [hhash] at hrh
    rw [hmdata, List.length_set]
    exact h bucket rh hrh
  | listed index rdata node hindex hmdata hhash =>
    intro bucket rh hrh
    rw [hhash, mem_hashed] at hrh
    rw [hmdata, List.length_set]
    rcases hrh with hold | ⟨-, rfl⟩
    · exact h bucket rh hold
    · exact ⟨rfl, hindex⟩

/-- With memory, a line leaves no name without an entry: entries are never taken away, and the record that
gets a name gets an entry. -/
theorem ListedNames.effect (h : ListedNames rnm) (hmalloc : ∀ s, (os.malloc s).1 = true)
    (heffect : LineEffect os rnm rnm') : ListedNames rnm' := by
  cases heffect with
  | unchanged hmdata hhash =>
    intro index rdata hrdata hname
    rw [hmdata] at hrdata
    rw [hhash]
    exact h index rdata hrdata hname
  | unlisted index rdata hempty hindex hmdata hhash =>
    intro other rdata' hrdata' hname
    rw [hmdata] at hrdata'
    rw [hhash]
    by_cases heq : index = other
    · subst heq
      rw [List.getElem?_set_self hindex] at hrdata'
      obtain rfl := Option.some.inj hrdata'
      rcases hempty with hempty | ⟨s, hfailed⟩
      · exact absurd hempty hname
      · exact absurd (hfailed.symm.trans (hmalloc s)) Bool.false_ne_true
    · rw [List.getElem?_set_ne heq] at hrdata'
      exact h other rdata' hrdata' hname
  | listed index rdata node hindex hmdata hhash =>
    intro other rdata' hrdata' hname
    rw [hmdata] at hrdata'
    rw [hhash]
    by_cases heq : index = other
    · subst heq
      rw [List.getElem?_set_self hindex] at hrdata'
      obtain rfl := Option.some.inj hrdata'
      exact ⟨node, mem_hashed.mpr (Or.inr ⟨rfl, rfl⟩)⟩
    · rw [List.getElem?_set_ne heq] at hrdata'
      obtain ⟨old, hold⟩ := h other rdata' hrdata' hname
      exact ⟨old, mem_hashed.mpr (Or.inl hold)⟩

/-- An answer other than -1 is the index of a record with this name. -/
theorem rnmsearch_sound (h : KnownNames rnm) {name : List Octet} {i : ℤ}
    (hsearch : rnmsearch rnm name = some i) :
    i = -1 ∨ ∃ (index : ℕ) (rdata : VmeMetadata),
      i = index ∧ rnm.rMdata[index]? = some rdata ∧ rdata.name = name := by
  rw [rnmsearch] at hsearch
  split at hsearch
  case isTrue hnegative => cases hsearch
  case isFalse hnegative =>
    obtain rfl := Option.some.inj hsearch
    cases hfound : (rnm.rHash (bucketOf (hashstring name))).find? fun rh =>
        rh.rhHash == hashstring name && (rnm.rMdata[rh.rhName]?.map VmeMetadata.name == some name) with
    | none => exact Or.inl rfl
    | some rh =>
      right
      have hmatch := List.find?_some hfound
      rw [Bool.and_eq_true, beq_iff_eq, beq_iff_eq] at hmatch
      obtain ⟨rdata, hrdata, hname⟩ := Option.map_eq_some_iff.mp hmatch.2
      exact ⟨rh.rhName, rdata, (h _ rh (List.mem_of_find?_eq_some hfound)).1, hrdata, hname⟩

/-- The answer is -1 only when no record has the name. -/
theorem rnmsearch_complete (h : ListedNames rnm) {name : List Octet} (hknown : KnownNames rnm)
    (hne : name ≠ []) (hsearch : rnmsearch rnm name = some (-1)) : ∀ rdata ∈ rnm.rMdata, rdata.name ≠ name := by
  intro rdata hrdata hname
  obtain ⟨index, hindex⟩ := List.mem_iff_getElem?.mp hrdata
  obtain ⟨node, hnode⟩ := h index rdata hindex (hname ▸ hne)
  rw [hname] at hnode
  have hmatch : (hashstring name == hashstring name &&
      (rnm.rMdata[index]?.map VmeMetadata.name == some name)) = true := by
    rw [hindex, Option.map_some, hname, beq_self_eq_true, beq_self_eq_true]
    rfl
  rw [rnmsearch] at hsearch
  split at hsearch
  case isTrue hnegative => cases hsearch
  case isFalse hnegative =>
    have hanswer := Option.some.inj hsearch
    cases hfound : (rnm.rHash (bucketOf (hashstring name))).find? fun rh =>
        rh.rhHash == hashstring name && (rnm.rMdata[rh.rhName]?.map VmeMetadata.name == some name) with
    | none =>
      rw [List.find?_eq_none] at hfound
      exact hfound _ hnode hmatch
    | some rh =>
      rw [hfound] at hanswer
      have hidx := (hknown _ rh (List.mem_of_find?_eq_some hfound)).1
      have hminus : rh.rhIdx = -1 := hanswer
      omega

/-- There is an answer for every name whose hash is not negative. -/
theorem exists_rnmsearch (rnm : RnmT) {name : List Octet} (hname : negativeHash name = false) :
    ∃ i, rnmsearch rnm name = some i := by
  rw [rnmsearch, if_neg (hname ▸ Bool.false_ne_true)]
  exact ⟨_, rfl⟩

/-- Lines that go through `linedata` one after the other, whether it accepts them or not. -/
def linedataRun (os : Os σ) : List (List (List Octet)) → RnmT → System σ → Option (RnmT × System σ)
  | [], rnm, sys => some (rnm, sys)
  | tokens :: lines, rnm, sys =>
    match linedata os rnm tokens sys with
    | .accepted rnm sys => linedataRun os lines rnm sys
    | .refused rnm sys => linedataRun os lines rnm sys
    | .strayRecord _ => none
    | .strayBucket => none

/-- The tokens of a line that stays inside a table of so many records: the index of a register is one of
them, and the hash of its name is not negative. -/
def InTable (len : ℕ) (tokens : List (List Octet)) : Prop :=
  ∀ toffs, registerOffset tokens = some toffs → 0 ≤ toffs ∧ toffs < len ∧ negativeName tokens = false

/-- Such a line is accepted or refused. -/
theorem InTable.verdict {len : ℕ} {tokens : List (List Octet)} (h : InTable len tokens) :
    lineVerdict len tokens = .accepted ∨ lineVerdict len tokens = .refused := by
  have hplain : (if lineLegal tokens then Verdict.accepted else .refused) = .accepted ∨
      (if lineLegal tokens then Verdict.accepted else .refused) = .refused := by
    cases lineLegal tokens with
    | true => exact Or.inl rfl
    | false => exact Or.inr rfl
  rw [lineVerdict]
  cases htoffs : registerOffset tokens with
  | none => exact hplain
  | some toffs =>
    obtain ⟨hlow, hhigh, hname⟩ := h toffs htoffs
    have hrange : ¬ (toffs < 0 ∨ (len : ℤ) ≤ toffs) := by omega
    dsimp only
    rw [if_neg hrange, if_neg (hname ▸ Bool.false_ne_true)]
    exact hplain

/-- A line that stays inside leaves a table behind. -/
theorem InTable.left {tokens : List (List Octet)} (h : InTable rnm.rMdata.length tokens) (os : Os σ)
    (sys : System σ) :
    ∃ rnm' sys', (linedata os rnm tokens sys).Left rnm' sys' := by
  have hverdict := h.verdict
  rw [← verdict_linedata os rnm tokens sys] at hverdict
  cases hresult : linedata os rnm tokens sys with
  | accepted rnm' sys' => exact ⟨rnm', sys', .accepted rnm' sys'⟩
  | refused rnm' sys' => exact ⟨rnm', sys', .refused rnm' sys'⟩
  | strayRecord toffs =>
    rw [hresult] at hverdict
    exact absurd hverdict (by simp [LineResult.verdict])
  | strayBucket =>
    rw [hresult] at hverdict
    exact absurd hverdict (by simp [LineResult.verdict])

/-- A line with a table left behind is followed by the others. -/
theorem linedataRun_cons {tokens : List (List Octet)} (h : (linedata os rnm tokens sys).Left rnm' sys')
    (lines : List (List (List Octet))) :
    linedataRun os (tokens :: lines) rnm sys = linedataRun os lines rnm' sys' := by
  rw [linedataRun]
  cases hresult : linedata os rnm tokens sys <;> rw [hresult] at h <;> cases h <;> rfl

/-- The number of records stays. -/
theorem LineEffect.length_eq (h : LineEffect os rnm rnm') : rnm'.rMdata.length = rnm.rMdata.length := by
  cases h with
  | unchanged hmdata => rw [hmdata]
  | unlisted _ _ _ _ hmdata => rw [hmdata, List.length_set]
  | listed _ _ _ _ hmdata => rw [hmdata, List.length_set]

/-- Any lines that stay inside keep what the table knows. -/
theorem linedataRun_names (hmalloc : ∀ s, (os.malloc s).1 = true) {lines : List (List (List Octet))}
    (hknown : KnownNames rnm) (hlisted : ListedNames rnm)
    (hlines : ∀ tokens ∈ lines, InTable rnm.rMdata.length tokens) (sys : System σ) :
    ∃ rnm' sys', linedataRun os lines rnm sys = some (rnm', sys') ∧ KnownNames rnm' ∧ ListedNames rnm' := by
  induction lines generalizing rnm sys with
  | nil => exact ⟨rnm, sys, rfl, hknown, hlisted⟩
  | cons tokens lines ih =>
    obtain ⟨htokens, hlines⟩ := List.forall_mem_cons.mp hlines
    obtain ⟨rnm', sys', hleft⟩ := htokens.left os sys
    obtain ⟨heffect, -⟩ := linedata_effect hleft
    rw [linedataRun_cons hleft]
    apply ih (hknown.effect heffect) (hlisted.effect hmalloc heffect)
    rw [heffect.length_eq]
    exact hlines

/-- Before the first line no name is known. -/
theorem knownNames_newRnm (offs : ℤ) (rdata : ℕ) (fnm : List Octet) (fnmBlock : ℕ) :
    KnownNames (newRnm offs rdata fnm fnmBlock).withDefaults :=
  fun _ _ hrh => absurd hrh List.not_mem_nil

/-- No record has a name then. -/
theorem listedNames_newRnm (offs : ℤ) (rdata : ℕ) (fnm : List Octet) (fnmBlock : ℕ) :
    ListedNames (newRnm offs rdata fnm fnmBlock).withDefaults := by
  intro index rdata' hrdata hname
  have hmem : rdata' ∈ List.replicate (offs.toNat + 1) ⟨[], 0, 0⟩ := List.mem_of_getElem? hrdata
  rw [List.eq_of_mem_replicate hmem] at hname
  exact absurd rfl hname

/-- `rnmsearch` answers for the names that the records have now: with the index of a record that has the
name, or with -1 if none has. -/
structure CurrentAnswer (rnm : RnmT) (name : List Octet) (i : ℤ) : Prop where
  call : rnmsearch rnm name = some i
  sound : 0 ≤ i → ∃ rdata, rnm.rMdata[i.toNat]? = some rdata ∧ rdata.name = name
  complete : i < 0 → i = -1 ∧ ∀ rdata ∈ rnm.rMdata, rdata.name ≠ name

/-- After any lines that stay inside of the table, a search for a name is answered for the records as they
are now. -/
theorem rnmsearch_current (hmalloc : ∀ s, (os.malloc s).1 = true) (offs : ℤ) (rdata : ℕ) (fnm : List Octet)
    (fnmBlock : ℕ) {lines : List (List (List Octet))}
    (hlines : ∀ tokens ∈ lines, InTable (offs.toNat + 1) tokens) (sys : System σ) :
    ∃ rnm sys', linedataRun os lines (newRnm offs rdata fnm fnmBlock).withDefaults sys = some (rnm, sys') ∧
      ∀ name, name ≠ [] → negativeHash name = false → ∃ i, CurrentAnswer rnm name i := by
  have hsize : (newRnm offs rdata fnm fnmBlock).withDefaults.rMdata.length = offs.toNat + 1 :=
    List.length_replicate
  obtain ⟨rnm, sys', hrun, hknown, hlisted⟩ := linedataRun_names hmalloc
    (knownNames_newRnm offs rdata fnm fnmBlock) (listedNames_newRnm offs rdata fnm fnmBlock)
    (hsize.symm ▸ hlines) sys
  refine ⟨rnm, sys', hrun, fun name hne hname => ?_⟩
  obtain ⟨i, hsearch⟩ := exists_rnmsearch rnm hname
  refine ⟨i, hsearch, fun hlow => ?_, fun hlow => ?_⟩
  · rcases rnmsearch_sound hknown hsearch with hminus | ⟨index, rdata, rfl, hrdata, hfound⟩
    · omega
    · exact ⟨rdata, hrdata, hfound⟩
  · rcases rnmsearch_sound hknown hsearch with rfl | ⟨index, rdata, rfl, -, -⟩
    · exact ⟨rfl, rnmsearch_complete hlisted hknown hne hsearch⟩
    · omega

/-- The lines `1:A`, `1:B` and `0:A`: the entry for the first name is stale, and `A` is found at the index 0. -/
theorem rnmsearch_current_redefined :
    (∀ s, ((World.oneFile []).malloc s).1 = true) ∧
      (∀ tokens ∈ [[[0x31], [0x41]], [[0x31], [0x42]], [[0x30], [0x41]]], InTable 2 tokens) ∧
      ∃ rnm sys', linedataRun (World.oneFile []) [[[0x31], [0x41]], [[0x31], [0x42]], [[0x30], [0x41]]]
          (newRnm 1 0 [] 1).withDefaults World.fresh.sys = some (rnm, sys') ∧
        ∀ name, name ≠ [] → negativeHash name = false → ∃ i, CurrentAnswer rnm name i := by
  have hlines : ∀ tokens ∈ [[[0x31], [0x41]], [[0x31], [0x42]], [[0x30], [0x41]]], InTable 2 tokens := by
    have hfirst : registerOffset [[0x31], [0x41]] = some 1 := by decide
    have hsecond : registerOffset [[0x31], [0x42]] = some 1 := by decide
    have hthird : registerOffset [[0x30], [0x41]] = some 0 := by decide
    simp only [List.forall_mem_cons, InTable, hfirst, hsecond, hthird, Option.some.injEq, forall_eq']
    decide
  exact ⟨fun _ => rfl, hlines, rnmsearch_current (fun _ => rfl) 1 0 [] 1 hlines World.fresh.sys⟩

end V120.Tui
