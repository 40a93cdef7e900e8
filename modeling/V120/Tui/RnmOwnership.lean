import V120.Tui.RnmPasses

/-!
# Who frees what `rnmparse` allocates

Blocks and files are numbered, so what a call allocated is a range of numbers, and each of them should
have been freed once: by the call itself when it fails, and by `rnmfree` of the result when it succeeds.
`rnmfree` frees the array and the path along with the structure they were moved into, and the exit behind
it frees them again, so a call whose second pass refuses a line frees them twice.
-/

namespace V120.Tui

open V120.Common

variable {σ : Type*} {os : Os σ} {paths : Paths}

namespace System

/-- Every block that was allocated from one state to another was freed once, and no other. -/
def FreedOnce (before after : System σ) : Prop :=
  ∀ block, after.freed.count block =
    before.freed.count block + if before.blocks ≤ block ∧ block < after.blocks then 1 else 0

/-- Every file that was opened from one state to another was closed once, and no other. -/
def ClosedOnce (before after : System σ) : Prop :=
  ∀ file, after.closed.count file =
    before.closed.count file + if before.files ≤ file ∧ file < after.files then 1 else 0

/-- What happened from one state to another: so many blocks, these of them freed, so many files, these of
them closed. -/
structure Spent (before after : System σ) (blocks : ℕ) (freed : List ℕ) (files : ℕ) (closed : List ℕ) :
    Prop where
  blocks : after.blocks = before.blocks + blocks
  freed : after.freed = before.freed ++ freed
  files : after.files = before.files + files
  closed : after.closed = before.closed ++ closed

variable {a b c : System σ} {blocks files : ℕ} {freed closed : List ℕ}

/-- Nothing was allocated or given back. -/
theorem SameAccount.spent (h : a.SameAccount b) : Spent a b 0 [] 0 [] :=
  ⟨h.blocks, by rw [h.freed, List.append_nil], h.files, by rw [h.closed, List.append_nil]⟩

/-- One block was allocated. -/
theorem OneBlock.spent {block : ℕ} (h : a.OneBlock b block) : Spent a b 1 [] 0 [] :=
  ⟨h.blocks, by rw [h.freed, List.append_nil], h.files, by rw [h.closed, List.append_nil]⟩

/-- One file was opened. -/
theorem OneFile.spent {file : ℕ} (h : a.OneFile b file) : Spent a b 0 [] 1 [] :=
  ⟨h.blocks, by rw [h.freed, List.append_nil], h.files, by rw [h.closed, List.append_nil]⟩

namespace Spent

/-- One stretch after another. -/
theorem trans {blocks' files' : ℕ} {freed' closed' : List ℕ} (h : Spent a b blocks freed files closed)
    (h' : Spent b c blocks' freed' files' closed') :
    Spent a c (blocks + blocks') (freed ++ freed') (files + files') (closed ++ closed') :=
  ⟨by rw [h'.blocks, h.blocks, Nat.add_assoc], by rw [h'.freed, h.freed, List.append_assoc],
    by rw [h'.files, h.files, Nat.add_assoc], by rw [h'.closed, h.closed, List.append_assoc]⟩

/-- A block is freed. -/
theorem free (h : Spent a b blocks freed files closed) (block : ℕ) :
    Spent a (b.free block) blocks (freed ++ [block]) files closed :=
  ⟨h.blocks, by rw [System.free, h.freed, List.append_assoc], h.files, h.closed⟩

/-- A file is closed. -/
theorem fclose (h : Spent a b blocks freed files closed) (file : ℕ) :
    Spent a (b.fclose file) blocks freed files (closed ++ [file]) :=
  ⟨h.blocks, h.freed, h.files, by rw [System.fclose, h.closed, List.append_assoc]⟩

/-- The blocks that were freed are those that were allocated, in some order. -/
theorem freedOnce (h : Spent a b blocks freed files closed)
    (hfreed : freed.Perm (List.range' a.blocks blocks)) : a.FreedOnce b := by
  intro block
  rw [h.freed, List.count_append, hfreed.count_eq, List.count_range_1', h.blocks]

/-- The files that were closed are those that were opened. -/
theorem closedOnce (h : Spent a b blocks freed files closed)
    (hclosed : closed.Perm (List.range' a.files files)) : a.ClosedOnce b := by
  intro file
  rw [h.closed, List.count_append, hclosed.count_eq, List.count_range_1', h.files]

end Spent

end System

namespace World

/-- A call owns its memory: when it fails, or finds the file in the cache, it freed every block it
allocated once; when it parsed the file it freed none, and `rnmfree` of the result frees each once, whenever
it is called on the result as it is. A file it opened was closed once. -/
def Owned (before after : World σ) : RnmResult → Prop
  | .failed => before.sys.FreedOnce after.sys ∧ before.sys.ClosedOnce after.sys
  | .cached _ => before.sys.FreedOnce after.sys ∧ before.sys.ClosedOnce after.sys
  | .parsed rnm => after.sys.freed = before.sys.freed ∧ before.sys.ClosedOnce after.sys ∧
      ∀ later : World σ, later.rnms.lookup rnm = after.rnms.lookup rnm →
        ∃ last, later.rnmfree rnm = some last ∧ ∀ block, last.sys.freed.count block =
          later.sys.freed.count block + if before.sys.blocks ≤ block ∧ block < after.sys.blocks then 1 else 0
  | .undefined => False

/-- The content over which the second pass is made, if there is one. -/
def Stage.content : Stage σ → Option (List Octet)
  | .done _ _ => none
  | .second _ _ _ _ _ content _ => some content

/-- The files in the cache form a list. -/
def CacheList (w : World σ) : Prop := ∃ nodes, LinkedList w.next w.gRnms nodes

end World

/-- The second pass accepts every line of a content. -/
def WellFormed (content : List Octet) : Prop :=
  ∀ line ∈ rnmLines content, lineVerdict ((maxoffs content).toNat + 1) (lineTokens line) = .accepted

instance (content : List Octet) : Decidable (WellFormed content) := List.decidableBAll ..

namespace World

variable {w w' : World σ}

/-- In a list the search ends. -/
theorem findrnm_isSome (path : List Octet) {start : Option ℕ} {nodes : List ℕ}
    (h : LinkedList w.next start nodes) {fuel : ℕ} (hfuel : nodes.length ≤ fuel) :
    (w.findrnm path fuel start).isSome := by
  induction nodes generalizing start fuel with
  | nil =>
    obtain rfl : start = none := h
    cases fuel <;> rfl
  | cons p nodes ih =>
    obtain ⟨fuel, rfl⟩ := Nat.exists_eq_succ_of_ne_zero (Nat.ne_of_gt (Nat.zero_lt_of_lt hfuel))
    obtain ⟨rfl, link, hlink, hrest⟩ := h
    obtain ⟨rnm, hrnm, rfl⟩ := Option.map_eq_some_iff.mp hlink
    rw [findrnm, hrnm, Option.bind_some]
    split
    · rfl
    · exact ih hrest (Nat.le_of_succ_le_succ hfuel)

/-- There are no more files in the cache than in memory. -/
theorem length_le_card {nodes : List ℕ} (h : LinkedList w.next w.gRnms nodes) :
    nodes.length ≤ w.rnms.keys.card := by
  rw [← List.toFinset_card_of_nodup h.nodup]
  refine Finset.card_le_card fun p hp => Finmap.mem_keys.mpr (Finmap.mem_iff.mpr ?_)
  obtain ⟨link, hlink⟩ := h.exists_link (List.mem_toFinset.mp hp)
  obtain ⟨rnm, hrnm, -⟩ := Option.map_eq_some_iff.mp hlink
  exact ⟨rnm, hrnm⟩

/-- A failing call that gave back what it had. -/
theorem owned_failed {v : World σ} {blocks files : ℕ} {freed closed : List ℕ}
    (h : w.sys.Spent v.sys blocks freed files closed) (hfreed : freed.Perm (List.range' w.sys.blocks blocks))
    (hclosed : closed.Perm (List.range' w.sys.files files)) : Owned w v .failed :=
  ⟨h.freedOnce hfreed, h.closedOnce hclosed⟩

/-- What the first pass leaves to the second: the path, the array and the structure are the three blocks of
the call, and the file is open. -/
structure Prepared (w : World σ) (fp fnm rdata ret : ℕ) (rnm : RnmT) (content : List Octet) (w' : World σ) :
    Prop where
  spent : w.sys.Spent w'.sys 3 [] 1 []
  blocks : fnm = w.sys.blocks ∧ rdata = w.sys.blocks + 1 ∧ ret = w.sys.blocks + 2
  file : fp = w.sys.files
  rnm : ∃ path, rnm = newRnm (maxoffs content) rdata path fnm
  sized : maxoffs content ≠ 0
  rnms : w'.rnms = w.rnms
  gRnms : w'.gRnms = w.gRnms

/-- The call up to the second pass either returned, with what it allocated given back, or left everything
to the second pass. -/
theorem firstPass_cases {u : World σ} {path content : List Octet} {fnm fp : ℕ}
    (hspent : w.sys.Spent u.sys 1 [] 1 []) (hfnm : fnm = w.sys.blocks) (hfp : fp = w.sys.files)
    (hrnms : u.rnms = w.rnms) (hgRnms : u.gRnms = w.gRnms) :
    (∃ w', firstPass os path fnm fp content u = .done .failed w' ∧ Owned w w' .failed ∧ w'.gRnms = w.gRnms) ∨
      ∃ rdata ret rnm w', firstPass os path fnm fp content u = .second fp fnm rdata ret rnm content w' ∧
        Prepared w fp fnm rdata ret rnm content w' := by
  have hclosed : [fp].Perm (List.range' w.sys.files 1) := by rw [hfp]; exact List.Perm.refl _
  have hone : [fnm].Perm (List.range' w.sys.blocks 1) := by rw [hfnm]; exact List.Perm.refl _
  rw [firstPass]
  by_cases hoffs : maxoffs content = 0
  · exact Or.inl ⟨{ u with sys := (u.sys.fclose fp).free fnm }, by rw [if_pos hoffs]; rfl,
      owned_failed ((hspent.fclose fp).free fnm) hone hclosed, hgRnms⟩
  · simp only [if_neg hoffs]
    cases hrdata : u.sys.malloc os with
    | mk answer sys₂ =>
      cases answer with
      | none =>
        have hspent₂ := hspent.trans (System.sameAccount_malloc hrdata).spent
        exact Or.inl ⟨{ u with sys := (sys₂.fclose fp).free fnm }, rfl,
          owned_failed ((hspent₂.fclose fp).free fnm) hone hclosed, hgRnms⟩
      | some rdata =>
        have hblock₂ := System.oneBlock_malloc hrdata
        have hspent₂ := hspent.trans hblock₂.spent
        have hrdata' : rdata = w.sys.blocks + 1 := hblock₂.block.trans hspent.blocks
        simp only []
        cases hret : sys₂.malloc os with
        | mk answer sys₃ =>
          cases answer with
          | none =>
            have hspent₃ := hspent₂.trans (System.sameAccount_malloc hret).spent
            have htwo : [rdata, fnm].Perm (List.range' w.sys.blocks 2) := by
              rw [hfnm, hrdata']
              exact List.Perm.swap _ _ _
            have hspent₄ : w.sys.Spent (((sys₃.free rdata).fclose fp).free fnm) 2 [rdata, fnm] 1 [fp] :=
              ((hspent₃.free rdata).fclose fp).free fnm
            exact Or.inl ⟨_, rfl, owned_failed (v := ⟨_, u.rnms, u.gRnms⟩) hspent₄ htwo hclosed, hgRnms⟩
          | some ret =>
            have hblock₃ := System.oneBlock_malloc hret
            have hspent₃ : w.sys.Spent sys₃ 3 [] 1 [] := hspent₂.trans hblock₃.spent
            exact Or.inr ⟨rdata, ret, _, ⟨sys₃, u.rnms, u.gRnms⟩, rfl, hspent₃,
              ⟨hfnm, hrdata', hblock₃.block.trans hspent₂.blocks⟩, hfp, ⟨path, rfl⟩, hoffs, hrnms, hgRnms⟩

/-- `rnmparse` up to the second pass either returned, with what it allocated given back, or is prepared for
that pass. -/
theorem beforeFilldata_cases (os : Os σ) (paths : Paths) (hcache : w.CacheList)
    (filename : Option (List Octet)) :
    (∃ result w', w.beforeFilldata os paths filename = .done result w' ∧ Owned w w' result ∧
      (∀ rnm, result ≠ .parsed rnm) ∧ w'.gRnms = w.gRnms) ∨
      ∃ fp fnm rdata ret rnm content w', w.beforeFilldata os paths filename =
        .second fp fnm rdata ret rnm content w' ∧ Prepared w fp fnm rdata ret rnm content w' := by
  obtain ⟨nodes, hnodes⟩ := hcache
  cases filename with
  | none =>
    exact Or.inl ⟨_, w, rfl,
      owned_failed (System.SameAccount.refl w.sys).spent (List.Perm.refl _) (List.Perm.refl _),
      fun _ => RnmResult.noConfusion, rfl⟩
  | some filename =>
    have hnew : Paths.NewPath w.sys _ (paths.getfullpath os filename w.sys).1 :=
      Paths.newPath_getfullpath filename w.sys
    cases hpath : paths.getfullpath os filename w.sys with
    | mk answer sys₁ =>
      rw [hpath] at hnew
      cases answer with
      | none =>
        simp only [beforeFilldata, hpath]
        exact Or.inl ⟨_, _, rfl, owned_failed (hnew.failed rfl).spent (List.Perm.refl _) (List.Perm.refl _),
          fun _ => RnmResult.noConfusion, rfl⟩
      | some answer =>
        obtain ⟨path, fnm⟩ := answer
        have hblock := hnew.found path fnm rfl
        have hone : [fnm].Perm (List.range' w.sys.blocks 1) := by rw [hblock.block]; exact List.Perm.refl _
        obtain ⟨found, hfound⟩ :=
          Option.isSome_iff_exists.mp (findrnm_isSome path hnodes (length_le_card hnodes))
        simp only [beforeFilldata, hpath, hfound]
        cases found with
        | some rnm =>
          exact Or.inl ⟨_, _, rfl,
            owned_failed (v := { w with sys := sys₁.free fnm }) (hblock.spent.free fnm) hone
            (List.Perm.refl _), fun _ => RnmResult.noConfusion, rfl⟩
        | none =>
          simp only []
          cases hopen : sys₁.fopen os path with
          | mk answer sys₂ =>
            cases answer with
            | none =>
              have hspent := (hblock.spent.trans (System.sameAccount_fopen hopen).spent).free fnm
              exact Or.inl ⟨_, _, rfl, owned_failed (v := { w with sys := sys₂.free fnm }) hspent hone
                (List.Perm.refl _), fun _ => RnmResult.noConfusion, rfl⟩
            | some answer =>
              obtain ⟨fp, content⟩ := answer
              have hopened := System.oneFile_fopen hopen
              rcases firstPass_cases (u := { w with sys := sys₂ })
                (hblock.spent.trans hopened.spent) hblock.block (hopened.file.trans hblock.files) rfl rfl with
                ⟨w', hdone, howned, hgRnms⟩ | ⟨rdata, ret, rnm, w', hsecond, hprepared⟩
              · exact Or.inl ⟨_, w', hdone, howned, fun _ => RnmResult.noConfusion, hgRnms⟩
              · exact Or.inr ⟨fp, fnm, rdata, ret, rnm, content, w', hsecond, hprepared⟩

/-- Freeing one block after the other. -/
theorem spent_freeAll (blocks : List ℕ) (w : World σ) : w.sys.Spent (w.freeAll blocks).sys 0 blocks 0 [] := by
  have hspent (sys : System σ) :
      sys.Spent (blocks.foldl (fun sys block => sys.free block) sys) 0 blocks 0 [] := by
    induction blocks generalizing sys with
    | nil => exact (System.SameAccount.refl sys).spent
    | cons block blocks ih =>
      have hfree : sys.Spent (sys.free block) 0 [block] 0 [] :=
        (System.SameAccount.refl sys).spent.free block
      exact hfree.trans (ih (sys.free block))
  exact hspent w.sys

/-- `rnmfree` frees the entries behind the table, the array, the path and the structure. -/
theorem rnmfree_eq {p : ℕ} {rnm : RnmT} (h : w.rnms.lookup p = some rnm) :
    ∃ v, w.rnmfree p = some v ∧
      w.sys.Spent v.sys 0 (rnm.nodes ++ [rnm.mdataBlock, rnm.pathBlock, p]) 0 [] :=
  ⟨{ w.freeAll (rnm.nodes ++ [rnm.mdataBlock, rnm.pathBlock, p]) with rnms := w.rnms.erase p },
    by rw [rnmfree, h, Option.map_some], spent_freeAll _ _⟩

/-- A structure before the second pass has no entries behind the table. -/
theorem nodes_newRnm (offs : ℤ) (rdata fnm : ℕ) (path : List Octet) :
    (newRnm offs rdata path fnm).withDefaults.nodes = [] := by
  rw [RnmT.nodes, List.flatMap_eq_nil_iff]
  exact fun _ _ => rfl

variable {fp fnm rdata ret : ℕ} {rnm rnm' : RnmT} {content : List Octet} {sys' : System σ}

/-- The blocks of a structure are those that were allocated for it, whatever the second pass made of it. -/
theorem Prepared.blocks_perm (h : Prepared w fp fnm rdata ret rnm content w')
    (hgrown : Grown rnm.withDefaults w'.sys rnm' sys') :
    ∃ count, w.sys.Spent sys' count [] 1 [] ∧ w.sys.blocks + 3 ≤ sys'.blocks ∧
      rnm'.mdataBlock = rdata ∧ rnm'.pathBlock = fnm ∧
        (rnm'.nodes ++ [rnm'.mdataBlock, rnm'.pathBlock, ret]).Perm (List.range' w.sys.blocks count) := by
  obtain ⟨path, rfl⟩ := h.rnm
  obtain ⟨count, hblocks, hnodes⟩ := hgrown.nodes
  obtain ⟨hfnm, hrdata, hret⟩ := h.blocks
  rw [nodes_newRnm, List.nil_append] at hnodes
  have hmdata : rnm'.mdataBlock = rdata := hgrown.mdataBlock
  have hpath : rnm'.pathBlock = fnm := hgrown.pathBlock
  have hspent : w'.sys.Spent sys' count [] 0 [] :=
    ⟨hblocks, by rw [hgrown.freed, List.append_nil], hgrown.files, by rw [hgrown.closed, List.append_nil]⟩
  refine ⟨3 + count, h.spent.trans hspent, by rw [hblocks, h.spent.blocks]; omega, hmdata, hpath, ?_⟩
  rw [hmdata, hpath, ← List.range'_append_1]
  refine List.perm_append_comm.trans (List.Perm.append ?_ ?_)
  · rw [hrdata, hfnm, hret]
    exact List.Perm.swap _ _ _
  · rw [← h.spent.blocks]
    exact hnodes

/-- The second pass accepts a file when it accepts each of its lines. -/
theorem Prepared.accepted_iff (h : Prepared w fp fnm rdata ret rnm content w') :
    (filldata os rnm content w'.sys).verdict = .accepted ↔ WellFormed content := by
  obtain ⟨path, rfl⟩ := h.rnm
  rw [verdict_filldata, linesVerdict_accepted_iff, newRnm, List.length_replicate, WellFormed]

/-- A call whose second pass accepts every line owns its memory. -/
theorem Prepared.owned_parsed (h : Prepared w fp fnm rdata ret rnm content w')
    (hgrown : Grown rnm.withDefaults w'.sys rnm' sys') :
    let v := ({ w' with sys := sys' } : World σ).rnmadd2path ret rnm'
    Owned w { v with sys := v.sys.fclose fp } (.parsed ret) := by
  obtain ⟨count, hspent, -, -, -, hperm⟩ := h.blocks_perm hgrown
  have hclosed := hspent.fclose fp
  refine ⟨hclosed.freed.trans (List.append_nil _), hclosed.closedOnce ?_, fun later hlater => ?_⟩
  · rw [h.file]
    exact List.Perm.refl _
  · have hlookup : later.rnms.lookup ret = some { rnm' with rNext := w'.gRnms } :=
      hlater.trans (Finmap.lookup_insert _)
    obtain ⟨last, hfree, hlast⟩ := rnmfree_eq hlookup
    refine ⟨last, hfree, fun block => ?_⟩
    have hcount := (hperm.count_eq block).trans List.count_range_1'
    rw [← hclosed.blocks] at hcount
    rw [hlast.freed, List.count_append]
    exact congrArg (later.sys.freed.count block + ·) hcount

/-- The exit behind a refused line: `rnmfree`, and then the array and the path again. -/
theorem exists_errFilldata (ret rdata fp fnm : ℕ) (rnm' : RnmT) (sys' : System σ)
    (rnms : Finmap fun _ : ℕ => RnmT) (gRnms : Option ℕ) :
    ∃ v, errFilldata ret rdata fp fnm ⟨sys', rnms.insert ret rnm', gRnms⟩ = (.failed, v) ∧
      sys'.Spent v.sys 0 (rnm'.nodes ++ [rnm'.mdataBlock, rnm'.pathBlock, ret] ++ [rdata] ++ [fnm]) 0 [fp] ∧
        v.gRnms = gRnms := by
  let w₁ : World σ := ⟨sys', rnms.insert ret rnm', gRnms⟩
  let w₂ : World σ :=
    { w₁.freeAll (rnm'.nodes ++ [rnm'.mdataBlock, rnm'.pathBlock, ret]) with rnms := w₁.rnms.erase ret }
  have hfree : w₁.rnmfree ret = some w₂ := by rw [rnmfree, Finmap.lookup_insert, Option.map_some]
  have hspent : sys'.Spent w₂.sys 0 _ 0 [] := spent_freeAll _ w₁
  refine ⟨{ w₂ with sys := ((w₂.sys.free rdata).fclose fp).free fnm }, ?_,
    ((hspent.free rdata).fclose fp).free fnm,
    rfl⟩
  rw [errFilldata, hfree]
  rfl

/-- A call whose second pass refuses a line frees the array and the path twice. -/
theorem Prepared.not_owned_refused (h : Prepared w fp fnm rdata ret rnm content w')
    (hgrown : Grown rnm.withDefaults w'.sys rnm' sys') {v : World σ}
    (hv : sys'.Spent v.sys 0
      (rnm'.nodes ++ [rnm'.mdataBlock, rnm'.pathBlock, ret] ++ [rdata] ++ [fnm]) 0 [fp]) :
    ¬Owned w v .failed := by
  obtain ⟨count, hspent, hblocks, hmdata, -, -⟩ := h.blocks_perm hgrown
  have htwice := hspent.trans hv
  rintro ⟨hfreed, -⟩
  have honce := hfreed rdata
  rw [htwice.freed, List.count_append] at honce
  have hcount :
      2 ≤ ([] ++ (rnm'.nodes ++ [rnm'.mdataBlock, rnm'.pathBlock, ret] ++ [rdata] ++ [fnm])).count rdata := by
    rw [hmdata]
    simp only [List.count_append, List.count_cons_self, List.nil_append]
    omega
  obtain ⟨-, hrdata, -⟩ := h.blocks
  split at honce <;> omega

section Equations

variable {filename : Option (List Octet)}
  (hsecond : w.beforeFilldata os paths filename = .second fp fnm rdata ret rnm content w')

include hsecond

/-- The second pass accepts the file. -/
theorem rnmparse_accepted (hfill : filldata os rnm content w'.sys = .accepted rnm' sys') :
    w.rnmparse os paths filename =
      let v := ({ w' with sys := sys' } : World σ).rnmadd2path ret rnm'
      (.parsed ret, { v with sys := v.sys.fclose fp }) := by
  simp only [rnmparse, hsecond, hfill]

/-- The second pass refuses a line. -/
theorem rnmparse_refused (hfill : filldata os rnm content w'.sys = .refused rnm' sys') :
    w.rnmparse os paths filename =
      errFilldata ret rdata fp fnm { w' with sys := sys', rnms := w'.rnms.insert ret rnm' } := by
  simp only [rnmparse, hsecond, hfill]

/-- The second pass writes to memory that belongs to something else. -/
theorem rnmparse_stray (hfill : (∃ toffs, filldata os rnm content w'.sys = .strayRecord toffs) ∨
    filldata os rnm content w'.sys = .strayBucket) : w.rnmparse os paths filename = (.undefined, w') := by
  rcases hfill with ⟨toffs, hfill⟩ | hfill <;> simp only [rnmparse, hsecond, hfill]

end Equations

/-- **Who frees what `rnmparse` allocates.** With the cache a list, a call owns its memory exactly when it does
not get to the second pass, or gets there with a file that the second pass accepts in every line. -/
theorem rnmparse_owned_iff (os : Os σ) (paths : Paths) (filename : Option (List Octet))
    (hcache : w.CacheList) :
    Owned w (w.rnmparse os paths filename).2 (w.rnmparse os paths filename).1 ↔
      ∀ content, (w.beforeFilldata os paths filename).content = some content → WellFormed content := by
  rcases beforeFilldata_cases os paths hcache filename with
    ⟨result, w', hdone, howned, -, -⟩ | ⟨fp, fnm, rdata, ret, rnm, content, w', hsecond, hprepared⟩
  · have hparse : w.rnmparse os paths filename = (result, w') := by rw [rnmparse, hdone]
    rw [hparse, hdone]
    exact iff_of_true howned fun content h => absurd h (Option.some_ne_none content).symm
  · have hwell :
        (∀ content', (w.beforeFilldata os paths filename).content = some content' → WellFormed content') ↔
        (filldata os rnm content w'.sys).verdict = .accepted := by
      rw [hprepared.accepted_iff, hsecond]
      exact ⟨fun h => h content rfl, fun h _ hcontent => Option.some.inj hcontent ▸ h⟩
    rw [hwell]
    cases hfill : filldata os rnm content w'.sys with
    | accepted rnm' sys' =>
      have hleft : (filldata os rnm content w'.sys).Left rnm' sys' := hfill ▸ .accepted rnm' sys'
      rw [rnmparse_accepted hsecond hfill]
      exact iff_of_true (hprepared.owned_parsed (grown_filldataLoop hleft)) rfl
    | refused rnm' sys' =>
      have hleft : (filldata os rnm content w'.sys).Left rnm' sys' := hfill ▸ .refused rnm' sys'
      obtain ⟨v, hexit, hspent, -⟩ := exists_errFilldata ret rdata fp fnm rnm' sys' w'.rnms w'.gRnms
      rw [rnmparse_refused hsecond hfill, hexit]
      exact iff_of_false (hprepared.not_owned_refused (grown_filldataLoop hleft) hspent) Verdict.noConfusion
    | strayRecord toffs =>
      rw [rnmparse_stray hsecond (Or.inl ⟨toffs, hfill⟩)]
      exact iff_of_false id Verdict.noConfusion
    | strayBucket =>
      rw [rnmparse_stray hsecond (Or.inr hfill)]
      exact iff_of_false id Verdict.noConfusion

/-- A system with memory and this file. -/
def oneFile (content : List Octet) : Os Unit :=
  ⟨fun _ => (true, ()), fun _ _ => (true, ()), fun _ _ => (some content, ())⟩

/-- The process before its first RNM file. -/
def fresh : World Unit := ⟨⟨(), 0, [], 0, []⟩, ∅, none⟩

/-- A file with the single line `1:A:X`, whose sign is neither `U` nor `S`. -/
def typo : List Octet := [0x31, 0x3a, 0x41, 0x3a, 0x58]

/-- The array for a file with a typo is freed twice. -/
theorem rnmparse_frees_twice : ¬∀ (os : Os Unit) (paths : Paths)
    (filename : Option (List Octet)) (w : World Unit),
    w.CacheList → Owned w (w.rnmparse os paths filename).2 (w.rnmparse os paths filename).1 := by
  intro h
  have howned := h (oneFile typo) ⟨[], []⟩ (some [0x2f]) fresh ⟨[], rfl⟩
  have hresult : (fresh.rnmparse (oneFile typo) ⟨[], []⟩ (some [0x2f])).1 = .failed := by decide
  have hfreed : (fresh.rnmparse (oneFile typo) ⟨[], []⟩ (some [0x2f])).2.sys.freed.count 1 = 2 := by decide
  rw [hresult] at howned
  have honce := howned.1 1
  rw [hfreed] at honce
  exact absurd honce (by decide)

/-- A file with the two lines `1:A` and `2:B`. -/
def pair : List Octet := [0x31, 0x3a, 0x41, newline, 0x32, 0x3a, 0x42]

/-- The process whose first RNM file it is parses it, and owns what it allocated for it. -/
theorem rnmparse_owned_pair :
    (fresh.rnmparse (oneFile pair) ⟨[], []⟩ (some [0x2f])).1 = .parsed 2 ∧
      Owned fresh (fresh.rnmparse (oneFile pair) ⟨[], []⟩ (some [0x2f])).2
        (fresh.rnmparse (oneFile pair) ⟨[], []⟩ (some [0x2f])).1 := by
  have hcache : fresh.CacheList := ⟨[], rfl⟩
  refine ⟨by decide, (rnmparse_owned_iff _ _ _ hcache).mpr fun content hcontent => ?_⟩
  have hpair : (fresh.beforeFilldata (oneFile pair) ⟨[], []⟩ (some [0x2f])).content = some pair := by decide
  obtain rfl := Option.some.inj (hcontent.symm.trans hpair)
  decide

end World

end V120.Tui
