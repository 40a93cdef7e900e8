import V120.Tui.RnmOwnership
import V120.Tui.RnmText

/-!
# Printed tables are read back

The second pass keeps, line by line, what it has read so far: the records of these registers, no name in any
other record, and an entry of the hash table for each of them and for nothing else. So a table that was
printed is read back, whatever its order and its layout, as long as there is memory.
-/

namespace V120.Tui

open V120.Common

variable {σ : Type*} {os : Os σ} {rnm rnm' : RnmT} {sys sys' : System σ}

/-- The structure with a new entry of the hash table. -/
def RnmT.hashed (rnm : RnmT) (index : ℕ) (name : List Octet) (node : Option ℕ) : RnmT :=
  let hash := hashstring name
  let bucket := bucketOf hash
  { rnm with rHash := Function.update rnm.rHash bucket (rnm.rHash bucket ++ [⟨index, hash, index, node⟩]) }

/-- The structure behind a line for a register. -/
def RnmT.registered (rnm : RnmT) (index : ℕ) (r : Register) (node : Option ℕ) : RnmT :=
  { rnm.hashed index r.name node with rMdata := rnm.rMdata.set index r.record }

/-- What was read so far, for records up to the largest index. -/
structure ReadSoFar (largest : ℕ) (done : List (ℕ × Register)) (rnm : RnmT) : Prop where
  rLen : rnm.rLen = largest
  size : rnm.rMdata.length = largest + 1
  listed : ∀ entry ∈ done, rnm.rMdata[entry.1]? = some entry.2.record
  other : ∀ index ≤ largest, index ∉ done.map Prod.fst →
    ∃ rdata, rnm.rMdata[index]? = some rdata ∧ rdata.name = []
  hashed : ∀ entry ∈ done, ∃ node, ⟨entry.1, hashstring entry.2.name, entry.1, node⟩ ∈
    rnm.rHash (bucketOf (hashstring entry.2.name))
  known : ∀ bucket, ∀ rh ∈ rnm.rHash bucket, rh.rhIdx = rh.rhName ∧ rh.rhName ∈ done.map Prod.fst

namespace ReadSoFar

variable {largest : ℕ} {done : List (ℕ × Register)}

/-- Before the first line. -/
theorem start (largest rdata fnm : ℕ) (path : List Octet) :
    ReadSoFar largest [] (newRnm largest rdata path fnm).withDefaults where
  rLen := rfl
  size := List.length_replicate
  listed _ h := absurd h List.not_mem_nil
  other index hindex _ := ⟨⟨[], 0, 0⟩, by
    have hlt : index < (largest : ℤ).toNat + 1 := Nat.lt_succ_of_le hindex
    exact List.getElem?_replicate_of_lt hlt, rfl⟩
  hashed _ h := absurd h List.not_mem_nil
  known _ _ h := absurd h List.not_mem_nil

/-- Behind a line that changes neither the records nor the table. -/
theorem of_setting (h : ReadSoFar largest done rnm) (hlen : rnm'.rLen = rnm.rLen)
    (hmdata : rnm'.rMdata = rnm.rMdata) (hhash : rnm'.rHash = rnm.rHash) : ReadSoFar largest done rnm' := by
  obtain ⟨hrLen, hsize, hlisted, hother, hhashed, hknown⟩ := h
  rw [← hlen] at hrLen
  rw [← hmdata] at hsize hlisted hother
  rw [← hhash] at hhashed hknown
  exact ⟨hrLen, hsize, hlisted, hother, hhashed, hknown⟩

/-- Behind a line for a register that was not there yet. -/
theorem of_register (h : ReadSoFar largest done rnm) {index : ℕ} (hindex : index ≤ largest)
    (hnew : index ∉ done.map Prod.fst) (r : Register) (node : Option ℕ) :
    ReadSoFar largest (done ++ [(index, r)]) (rnm.registered index r node) := by
  have hsize : index < rnm.rMdata.length := by
    rw [h.size]
    omega
  have hmono (bucket : Fin rnmHashSize) {rh : RnmHash} (hrh : rh ∈ rnm.rHash bucket) :
      rh ∈ (rnm.registered index r node).rHash bucket := by
    by_cases hbucket : bucket = bucketOf (hashstring r.name)
    · subst hbucket
      simp only [RnmT.registered, RnmT.hashed, Function.update_self]
      exact List.mem_append_left _ hrh
    · simpa only [RnmT.registered, RnmT.hashed, Function.update_of_ne hbucket] using hrh
  refine ⟨h.rLen, (List.length_set ..).trans h.size, fun entry hentry => ?_, fun other hother hnot => ?_,
    fun entry hentry => ?_, fun bucket rh hrh => ?_⟩
  · rcases List.mem_append.mp hentry with hdone | hlast
    · have hne : index ≠ entry.1 := fun heq => hnew (heq ▸ List.mem_map_of_mem hdone)
      exact (List.getElem?_set_ne hne).trans (h.listed entry hdone)
    · obtain rfl := List.mem_singleton.mp hlast
      exact List.getElem?_set_self hsize
  · rw [List.map_append, List.mem_append, not_or] at hnot
    have hne : index ≠ other := fun heq => hnot.2 (heq ▸ List.mem_singleton_self _)
    obtain ⟨rdata, hrdata, hname⟩ := h.other other hother hnot.1
    exact ⟨rdata, (List.getElem?_set_ne hne).trans hrdata, hname⟩
  · rcases List.mem_append.mp hentry with hdone | hlast
    · obtain ⟨other, hother⟩ := h.hashed entry hdone
      exact ⟨other, hmono _ hother⟩
    · obtain rfl := List.mem_singleton.mp hlast
      refine ⟨node, ?_⟩
      simp only [RnmT.registered, RnmT.hashed, Function.update_self]
      exact List.mem_append_right _ (List.mem_singleton_self _)
  · have hold {b : Fin rnmHashSize} (hrh : rh ∈ rnm.rHash b) :
        rh.rhIdx = rh.rhName ∧ rh.rhName ∈ (done ++ [(index, r)]).map Prod.fst := by
      rw [List.map_append]
      exact (h.known b rh hrh).imp_right (List.mem_append_left _)
    by_cases hbucket : bucket = bucketOf (hashstring r.name)
    · subst hbucket
      simp only [RnmT.registered, RnmT.hashed, Function.update_self] at hrh
      rcases List.mem_append.mp hrh with hrh | hlast
      · exact hold hrh
      · obtain rfl := List.mem_singleton.mp hlast
        exact ⟨rfl, List.mem_map_of_mem (List.mem_append_right _ (List.mem_singleton_self (index, r)))⟩
    · simp only [RnmT.registered, RnmT.hashed, Function.update_of_ne hbucket] at hrh
      exact hold hrh

/-- A name that was read is found, at an index with this name. -/
theorem search (h : ReadSoFar largest done rnm) {entry : ℕ × Register} (hentry : entry ∈ done)
    (hname : negativeHash entry.2.name = false) : ∃ other ∈ done, other.2.name = entry.2.name ∧
      rnmsearch rnm entry.2.name = some (other.1 : ℤ) := by
  obtain ⟨node, hnode⟩ := h.hashed entry hentry
  let p (rh : RnmHash) : Bool := rh.rhHash == hashstring entry.2.name &&
    (rnm.rMdata[rh.rhName]?.map VmeMetadata.name == some entry.2.name)
  have hp : p ⟨entry.1, hashstring entry.2.name, entry.1, node⟩ = true := by
    simp only [p, h.listed entry hentry, Option.map_some, Register.record, beq_self_eq_true, Bool.and_self]
  obtain ⟨rh, hfound⟩ := Option.isSome_iff_exists.mp (List.find?_isSome.mpr ⟨_, hnode, hp⟩)
  have hrh := List.find?_some hfound
  obtain ⟨hidx, hmem⟩ := h.known _ rh (List.mem_of_find?_eq_some hfound)
  obtain ⟨other, hother, hindex⟩ := List.mem_map.mp hmem
  refine ⟨other, hother, ?_, ?_⟩
  · simp only [p, Bool.and_eq_true, beq_iff_eq] at hrh
    have hrecord := hrh.2
    rw [← hindex, h.listed other hother] at hrecord
    exact Option.some.inj hrecord
  · have hsearch : rnmsearch rnm entry.2.name = some rh.rhIdx := by
      simp only [rnmsearch, hname]
      exact congrArg (fun found : Option RnmHash => some (found.elim (-1) RnmHash.rhIdx)) hfound
    rw [hsearch, hidx, hindex]

end ReadSoFar

/-- There is memory. -/
theorem System.exists_malloc (hmalloc : ∀ s, (os.malloc s).1 = true) (sys : System σ) :
    ∃ block sys', sys.malloc os = (some block, sys') := by
  cases hanswer : os.malloc sys.outside with
  | mk found outside =>
    obtain rfl : found = true := by rw [← hmalloc sys.outside, hanswer]
    simp only [System.malloc, hanswer]
    exact ⟨_, _, rfl⟩

/-- With memory, `add2hash` adds the entry. -/
theorem exists_add2hash (hmalloc : ∀ s, (os.malloc s).1 = true) (rnm : RnmT) (name : List Octet) (index : ℕ)
    (sys : System σ) :
    ∃ node sys', (add2hash os rnm name index sys).2 = (rnm.hashed index name node, sys') := by
  rw [add2hash]
  split
  · exact ⟨none, sys, rfl⟩
  · obtain ⟨node, sys', hnode⟩ := sys.exists_malloc hmalloc
    rw [hnode]
    exact ⟨some node, sys', rfl⟩

/-- A line for a register. -/
theorem exists_linedata_register (hmalloc : ∀ s, (os.malloc s).1 = true)
    {index : ℕ} {r : Register} {l : Layout}
    (h : (RnmLine.register index r l).Legal) (hindex : index < rnm.rMdata.length) (sys : System σ) :
    ∃ node sys', linedata os rnm (lineTokens (RnmLine.register index r l).print) sys =
      .accepted (rnm.registered index r node) sys' := by
  obtain ⟨hbound, hr, hl⟩ := h
  obtain ⟨d, word, hdecimal, hd⟩ := exists_decimal index
  have hkind : lineKind (decimal index ++ l.afterIndex) = .register := by
    rw [hdecimal]
    exact lineKind_digit hd _
  have hrange : ¬((index : ℤ) < 0 ∨ (rnm.rMdata.length : ℤ) ≤ index) := by omega
  have hname := hr.recordName hl.beforeName hl.afterName
  have hsign := r.signAndWidth_record l.afterSign
  obtain ⟨node, sys', hadd⟩ := exists_add2hash hmalloc rnm r.name index sys
  refine ⟨node, sys', ?_⟩
  rw [RnmLine.lineTokens_register hr hl, RnmLine.tokens, linedata]
  simp only [hkind, offsetOf_decimal hbound hl.afterIndex, registerLine,
    if_neg hrange, Int.toNat_natCast, hname, hr.hash, Bool.false_eq_true, if_false, hadd, hsign, if_true]
  rfl

/-- A line that sets something changes neither the records nor the table. -/
theorem exists_linedata_setting {text : List Octet} (h : (RnmLine.setting text).Legal) (rnm : RnmT)
    (sys : System σ) : ∃ rnm',
      linedata os rnm (lineTokens (RnmLine.setting text).print) sys = .accepted rnm' sys ∧
      rnm'.rLen = rnm.rLen ∧ rnm'.rMdata = rnm.rMdata ∧ rnm'.rHash = rnm.rHash := by
  obtain ⟨-, ⟨first, rest, htokens, hkind⟩, hlegal⟩ := h
  rw [htokens] at hlegal
  rw [RnmLine.print, htokens]
  rcases hkind with hkind | hkind | hkind
  · simp only [lineLegal, hkind] at hlegal
    cases rest with
    | nil => exact absurd hlegal Bool.false_ne_true
    | cons value rest =>
      rw [List.head?_cons, Option.any_some, decide_eq_true_eq] at hlegal
      simp only [linedata, hkind, if_pos hlegal]
      exact ⟨_, rfl, rfl, rfl, rfl⟩
  · simp only [lineLegal, hkind] at hlegal
    cases rest with
    | nil => exact absurd hlegal Bool.false_ne_true
    | cons value rest =>
      rw [List.head?_cons, Option.any_some] at hlegal
      obtain ⟨endi, hendi⟩ := Option.isSome_iff_exists.mp hlegal
      simp only [linedata, hkind, hendi]
      exact ⟨_, rfl, rfl, rfl, rfl⟩
  · simp only [lineLegal, hkind] at hlegal
    cases rest with
    | nil => exact absurd hlegal Bool.false_ne_true
    | cons value rest =>
      simp only [linedata, hkind]
      exact ⟨_, rfl, rfl, rfl, rfl⟩

/-- The registers of a table, in the order of its lines. -/
def listed (lines : List RnmLine) : List (ℕ × Register) := lines.filterMap RnmLine.entry

/-- The text of a table. Its last line has no end, unless it is one without anything on it. -/
def printed (lines : List RnmLine) : List Octet := [newline].intercalate (lines.map RnmLine.print)

/-- What a line adds to what was read. -/
theorem exists_linedata (hmalloc : ∀ s, (os.malloc s).1 = true) {largest : ℕ} {done : List (ℕ × Register)}
    (hread : ReadSoFar largest done rnm) {line : RnmLine} (hline : line.Legal)
    (hentry : ∀ entry, line.entry = some entry → entry.1 ≤ largest ∧ entry.1 ∉ done.map Prod.fst)
    (sys : System σ) : ∃ rnm' sys', linedata os rnm (lineTokens line.print) sys = .accepted rnm' sys' ∧
      ReadSoFar largest (done ++ line.entry.toList) rnm' := by
  cases line with
  | register index r l =>
    obtain ⟨hindex, hnew⟩ := hentry (index, r) rfl
    have hsize : index < rnm.rMdata.length := by
      rw [hread.size]
      omega
    obtain ⟨node, sys', haccepted⟩ := exists_linedata_register hmalloc hline hsize sys
    exact ⟨_, sys', haccepted, hread.of_register hindex hnew r node⟩
  | empty blanks comment =>
    rw [RnmLine.lineTokens_empty hline]
    exact ⟨rnm, sys, rfl, (List.append_nil done).symm ▸ hread⟩
  | setting text =>
    obtain ⟨rnm', haccepted, hlen, hmdata, hhash⟩ := exists_linedata_setting hline rnm sys
    exact ⟨rnm', sys, haccepted, (List.append_nil done).symm ▸ hread.of_setting hlen hmdata hhash⟩

/-- All lines are accepted, and all registers are read. -/
theorem exists_filldataLoop (hmalloc : ∀ s, (os.malloc s).1 = true) {largest : ℕ} {done : List (ℕ × Register)}
    (hread : ReadSoFar largest done rnm) {lines : List RnmLine} (hlines : ∀ line ∈ lines, line.Legal)
    (hbound : ∀ entry ∈ listed lines, entry.1 ≤ largest)
    (hdistinct : ((done ++ listed lines).map Prod.fst).Nodup) (sys : System σ) :
    ∃ rnm' sys', filldataLoop os (lines.map RnmLine.print) rnm sys = .accepted rnm' sys' ∧
      ReadSoFar largest (done ++ listed lines) rnm' := by
  induction lines generalizing done rnm sys with
  | nil => exact ⟨rnm, sys, rfl, (List.append_nil done).symm ▸ hread⟩
  | cons line lines ih =>
    obtain ⟨hline, hlines⟩ := List.forall_mem_cons.mp hlines
    have hlisted : listed (line :: lines) = line.entry.toList ++ listed lines := by
      rw [listed, List.filterMap_cons]
      cases line.entry <;> rfl
    rw [hlisted] at hbound hdistinct ⊢
    have hentry (entry : ℕ × Register) (h : line.entry = some entry) :
        entry.1 ≤ largest ∧ entry.1 ∉ done.map Prod.fst := by
      rw [h, Option.toList_some, List.singleton_append] at hbound hdistinct
      rw [List.map_append, List.map_cons] at hdistinct
      refine ⟨hbound entry List.mem_cons_self, fun hmem => ?_⟩
      exact (List.nodup_append.mp hdistinct).2.2 entry.1 hmem entry.1 List.mem_cons_self rfl
    obtain ⟨rnm₁, sys₁, haccepted, hread₁⟩ := exists_linedata hmalloc hread hline hentry sys
    rw [← List.append_assoc] at hdistinct ⊢
    obtain ⟨rnm', sys', hrest, hread'⟩ := ih hread₁ hlines
      (fun entry h => hbound entry (List.mem_append_right _ h)) hdistinct sys₁
    exact ⟨rnm', sys', by rw [List.map_cons, filldataLoop, haccepted]; exact hrest, hread'⟩

/-- The ends of the lines do not matter to the second pass. -/
theorem filldataLoop_withEnds (lines : List (List Octet)) (rnm : RnmT) (sys : System σ) :
    filldataLoop os (withEnds newline lines) rnm sys = filldataLoop os lines rnm sys := by
  have htokens (line : List Octet) : lineTokens (line ++ [newline]) = lineTokens line := by
    rw [lineTokens, linestrip_append_newline, lineTokens]
  induction lines generalizing rnm sys with
  | nil => rfl
  | cons line lines ih =>
    cases lines with
    | nil =>
      cases line with
      | nil => rfl
      | cons c line => rfl
    | cons next lines =>
      rw [withEnds, filldataLoop, htokens, filldataLoop.eq_2 os rnm sys line]
      cases linedata os rnm (lineTokens line) sys with
      | accepted rnm₁ sys₁ => exact ih rnm₁ sys₁
      | refused rnm₁ sys₁ => rfl
      | strayRecord toffs => rfl
      | strayBucket => rfl

/-- The ends of the lines do not matter to the first pass. -/
theorem foldl_maxoffsLine_withEnds (lines : List (List Octet)) (offs : ℤ) :
    (withEnds newline lines).foldl maxoffsLine offs = lines.foldl maxoffsLine offs := by
  have hindex (offs : ℤ) (line : List Octet) :
      maxoffsLine offs (line ++ [newline]) = maxoffsLine offs line := by
    rw [maxoffsLine, firstPassIndex, linestrip_append_newline]
    rfl
  induction lines generalizing offs with
  | nil => rfl
  | cons line lines ih =>
    cases lines with
    | nil =>
      cases line with
      | nil => rfl
      | cons c line => rfl
    | cons next lines => rw [withEnds, List.foldl_cons, List.foldl_cons, hindex, ih]

/-- A table that may be printed: its lines are legal and short, no index occurs twice, and the largest one is
not 0. -/
structure Printable (lines : List RnmLine) (largest : ℕ) : Prop where
  legal : ∀ line ∈ lines, line.Legal
  short : ∀ line ∈ lines, line.print.length < 255
  distinct : ((listed lines).map Prod.fst).Nodup
  bound : ∀ entry ∈ listed lines, entry.1 ≤ largest
  reached : largest ∈ (listed lines).map Prod.fst
  pos : 1 ≤ largest

/-- A table was read back: each register is in its record, no other record has a name, and a search for each
name finds an index with this name. -/
structure ReadBack (lines : List RnmLine) (largest : ℕ) (rnm : RnmT) : Prop where
  rLen : rnm.rLen = largest
  size : rnm.rMdata.length = largest + 1
  listed : ∀ entry ∈ listed lines, rnm.rMdata[entry.1]? = some entry.2.record
  other : ∀ index ≤ largest, index ∉ (Tui.listed lines).map Prod.fst →
    ∃ rdata, rnm.rMdata[index]? = some rdata ∧ rdata.name = []
  search : ∀ entry ∈ Tui.listed lines, ∃ found ∈ Tui.listed lines, found.2.name = entry.2.name ∧
    rnmsearch rnm entry.2.name = some (found.1 : ℤ)

namespace Printable

variable {lines : List RnmLine} {largest : ℕ}

/-- Both passes read the text line by line. -/
theorem rnmLines (h : Printable lines largest) :
    rnmLines (printed lines) = withEnds newline (lines.map RnmLine.print) :=
  fileLines_intercalate newline
    (List.forall_mem_map.mpr fun line hline => RnmLine.newline_not_mem_print (h.legal line hline))
    (List.forall_mem_map.mpr h.short)

/-- The first pass finds the largest index. -/
theorem maxoffs (h : Printable lines largest) : maxoffs (printed lines) = largest := by
  refine eq_of_forall_le_iff fun toffs => ?_
  rw [Tui.maxoffs, h.rnmLines, foldl_maxoffsLine_withEnds, le_foldl_maxoffsLine]
  constructor
  · rintro (hzero | ⟨text, htext, other, hother, hle⟩)
    · exact hzero.trans (Int.natCast_nonneg largest)
    · obtain ⟨line, hline, rfl⟩ := List.mem_map.mp htext
      rw [RnmLine.firstPassIndex_print (h.legal line hline)] at hother
      obtain ⟨entry, hentry, rfl⟩ := Option.map_eq_some_iff.mp hother
      have hbound := h.bound entry (List.mem_filterMap.mpr ⟨line, hline, hentry⟩)
      omega
  · intro hle
    obtain ⟨entry, hlisted, rfl⟩ := List.mem_map.mp h.reached
    obtain ⟨line, hline, hentry⟩ := List.mem_filterMap.mp hlisted
    refine Or.inr ⟨line.print, List.mem_map_of_mem hline, entry.1, ?_, hle⟩
    rw [RnmLine.firstPassIndex_print (h.legal line hline), hentry]
    rfl

/-- The second pass reads every register. -/
theorem exists_filldata (h : Printable lines largest) (hmalloc : ∀ s, (os.malloc s).1 = true)
    (rdata fnm : ℕ) (path : List Octet) (sys : System σ) : ∃ rnm sys',
      filldata os (newRnm largest rdata path fnm) (printed lines) sys = .accepted rnm sys' ∧
        ReadBack lines largest rnm := by
  obtain ⟨rnm, sys', haccepted, hread⟩ := exists_filldataLoop hmalloc
    (ReadSoFar.start largest rdata fnm path) h.legal h.bound h.distinct sys
  refine ⟨rnm, sys', ?_, hread.rLen, hread.size, hread.listed, hread.other, fun entry hentry => ?_⟩
  · rw [filldata, h.rnmLines, filldataLoop_withEnds, haccepted]
  · refine hread.search hentry ?_
    obtain ⟨line, hline, hlisted⟩ := List.mem_filterMap.mp hentry
    cases line with
    | register index r l =>
      obtain rfl := Option.some.inj hlisted
      exact (h.legal _ hline).2.1.hash
    | empty blanks comment => exact absurd hlisted (Option.some_ne_none entry).symm
    | setting text => exact absurd hlisted (Option.some_ne_none entry).symm

end Printable

namespace World

/-- **A printed table is read back.** When there is memory and the file is found and not in the cache, `rnmparse`
of the text of a table succeeds, whatever the order and the layout of its lines; the largest index, every
record and every search are those of the table. -/
theorem rnm_round_trip (os : Os σ) (paths : Paths) (w : World σ) {lines : List RnmLine} {largest : ℕ}
    (h : Printable lines largest) (hmalloc : ∀ s, (os.malloc s).1 = true) {filename path : List Octet}
    {fnm fp : ℕ} {sys sys' : System σ} (hpath : paths.getfullpath os filename w.sys = (some (path, fnm), sys))
    (hcache : w.findrnm path w.rnms.keys.card w.gRnms = some none)
    (hopen : sys.fopen os path = (some (fp, printed lines), sys')) :
    ∃ p rnm, (w.rnmparse os paths (some filename)).1 = .parsed p ∧
      (w.rnmparse os paths (some filename)).2.rnms.lookup p = some rnm ∧ ReadBack lines largest rnm := by
  have hpos := h.pos
  have hoffs : ¬(largest : ℤ) = 0 := by omega
  obtain ⟨rdata, sys₁, hrdata⟩ := sys'.exists_malloc hmalloc
  obtain ⟨ret, sys₂, hret⟩ := sys₁.exists_malloc hmalloc
  have hsecond : w.beforeFilldata os paths (some filename) = .second fp fnm rdata ret
      (newRnm largest rdata path fnm) (printed lines) { w with sys := sys₂ } := by
    simp only [beforeFilldata, hpath, hcache, hopen, firstPass, h.maxoffs, if_neg hoffs, hrdata, hret]
  obtain ⟨rnm, sys₃, haccepted, hread⟩ := h.exists_filldata hmalloc rdata fnm path sys₂
  rw [rnmparse_accepted hsecond haccepted]
  exact ⟨ret, { rnm with rNext := w.gRnms }, rfl, Finmap.lookup_insert _,
    ⟨hread.rLen, hread.size, hread.listed, hread.other, hread.search⟩⟩

/-- `W:4`, a comment, and the registers 2 and 0, with blanks and another comment. -/
def sampleTable : List RnmLine :=
  [.setting [0x57, 0x3a, 0x34], .empty [0x20] [0x23],
    .register 2 ⟨[0x41], true, true⟩ ⟨[0x20], [0x09], [0x20], [0x20], [], [0x20], [0x23, 0x41]⟩,
    .register 0 ⟨[0x42, 0x20, 0x43], false, false⟩ ⟨[], [], [], [], [0x20], [], []⟩]

/-- The sample table may be printed. -/
theorem printable_sampleTable : Printable sampleTable 2 where
  legal := by
    have hsetting : (RnmLine.setting [0x57, 0x3a, 0x34]).Legal :=
      ⟨by decide, ⟨[0x57], [[0x34]], by decide, Or.inl (by decide)⟩, by decide⟩
    have hempty : (RnmLine.empty [0x20] [0x23]).Legal := ⟨by decide, ⟨Or.inr rfl, by decide⟩⟩
    have hfirst : Register.Legal ⟨[0x41], true, true⟩ :=
      ⟨by decide, by decide, by decide, by decide, by decide, by decide⟩
    have hsecond : Register.Legal ⟨[0x42, 0x20, 0x43], false, false⟩ :=
      ⟨by decide, by decide, by decide, by decide, by decide, by decide⟩
    refine List.forall_mem_cons.mpr ⟨hsetting, List.forall_mem_cons.mpr ⟨hempty, List.forall_mem_cons.mpr
      ⟨⟨by decide, hfirst, ?_⟩, List.forall_mem_singleton.mpr ⟨by decide, hsecond, ?_⟩⟩⟩⟩
    · exact ⟨by decide, by decide, by decide, by decide, by decide, by decide, ⟨Or.inr rfl, by decide⟩⟩
    · exact ⟨by decide, by decide, by decide, by decide, by decide, by decide, ⟨Or.inl rfl, by decide⟩⟩
  short := by decide
  distinct := by decide
  bound := by decide
  reached := by decide
  pos := by decide

/-- A table is read back before any other file. -/
theorem rnm_round_trip_sample : ∃ p rnm,
    (fresh.rnmparse (oneFile (printed sampleTable)) ⟨[], []⟩ (some [0x2f])).1 = .parsed p ∧
      (fresh.rnmparse (oneFile (printed sampleTable)) ⟨[], []⟩ (some [0x2f])).2.rnms.lookup p = some rnm ∧
        ReadBack sampleTable 2 rnm :=
  rnm_round_trip (oneFile (printed sampleTable)) ⟨[], []⟩ fresh printable_sampleTable
    (fun _ => rfl) rfl rfl rfl

end World

end V120.Tui
