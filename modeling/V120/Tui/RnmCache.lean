import V120.Common.Runs
import V120.Tui.RnmOwnership

/-!
# The cache of RNM files

`rnmadd2path` links the new structure to the first one of the cache, and then stores that link in `g_rnms`
instead of the structure. So `g_rnms` keeps its value for ever, the cache stays empty, and no file that was
parsed is found again or freed at the end.
-/

namespace V120.Tui

open V120.Common

namespace World

variable {σ : Type*} (os : Os σ) (paths : Paths)

/-- A call of `rnmparse` in a sequence, with the structures that were parsed so far. Behind a call that does
something undefined there is no state. -/
def parseStep (s : List ℕ × World σ) (filename : Option (List Octet)) : Option (List ℕ × World σ) :=
  match s.2.rnmparse os paths filename with
  | (.failed, w) => some (s.1, w)
  | (.cached _, w) => some (s.1, w)
  | (.parsed rnm, w) => some (s.1 ++ [rnm], w)
  | (.undefined, _) => none

/-- The cache has every structure that was parsed once, with different paths; a later call that comes to
one of these paths returns the structure without opening a file; and `rnmclean` frees each. -/
structure CacheKept (parsed : List ℕ) (w : World σ) : Prop where
  members : ∃ nodes, LinkedList w.next w.gRnms nodes ∧ nodes.Perm parsed
  distinct : (parsed.map fun rnm => (w.rnms.lookup rnm).map RnmT.rPath).Nodup
  hits : ∀ filename path fnm sys, paths.getfullpath os filename w.sys = (some (path, fnm), sys) →
    ∀ rnm ∈ parsed, (w.rnms.lookup rnm).map RnmT.rPath = some path →
      w.rnmparse os paths (some filename) = (.cached rnm, { w with sys := sys.free fnm })
  cleaned : ∃ last, w.rnmclean w.rnms.keys.card w.gRnms = some last ∧
    ∀ rnm ∈ parsed, last.sys.freed.count rnm = w.sys.freed.count rnm + 1

/-- A call parses a file: it gets to the second pass, which accepts every line. -/
def Parses (filename : Option (List Octet)) (w : World σ) : Prop :=
  ∃ content, (w.beforeFilldata os paths filename).content = some content ∧ WellFormed content

variable {os paths} {s t : List ℕ × World σ} {w : World σ}

/-- An empty cache is right as long as nothing was parsed. -/
theorem cacheKept_nil (h : w.gRnms = none) : w.CacheKept os paths [] := by
  refine ⟨⟨[], h, List.Perm.refl _⟩, List.nodup_nil, fun _ _ _ _ _ rnm hrnm => absurd hrnm List.not_mem_nil,
    { w with gRnms := none }, ?_, fun rnm hrnm => absurd hrnm List.not_mem_nil⟩
  rw [h]
  cases w.rnms.keys.card <;> rfl

/-- An empty cache is wrong once something was parsed. -/
theorem not_cacheKept {parsed : List ℕ} (h : w.gRnms = none) (hparsed : parsed ≠ []) :
    ¬w.CacheKept os paths parsed := by
  rintro ⟨⟨nodes, hnodes, hperm⟩, -, -, -⟩
  rw [h] at hnodes
  cases nodes with
  | nil => exact hparsed (List.nil_perm.mp hperm)
  | cons p nodes => exact absurd hnodes.1 (Option.some_ne_none p).symm

/-- With an empty cache a call that parses nothing leaves it empty, and one that parses a file does, too. -/
theorem parseStep_cases (hs : s.2.gRnms = none) (filename : Option (List Octet)) :
    (¬Parses os paths filename s.2 ∧ ∀ t, parseStep os paths s filename = some t →
      t.1 = s.1 ∧ t.2.gRnms = none) ∨
    (Parses os paths filename s.2 ∧ ∃ rnm t, parseStep os paths s filename = some t ∧
      t.1 = s.1 ++ [rnm] ∧ t.2.gRnms = none) := by
  have hcache : s.2.CacheList := ⟨[], hs⟩
  rcases beforeFilldata_cases os paths hcache filename with
    ⟨result, w', hdone, howned, hnot, hgRnms⟩ | ⟨fp, fnm, rdata, ret, rnm, content, w', hsecond, hprepared⟩
  · refine Or.inl ⟨?_, fun t hstep => ?_⟩
    · rintro ⟨content, hcontent, -⟩
      rw [hdone] at hcontent
      exact absurd hcontent (Option.some_ne_none content).symm
    · have hparse : s.2.rnmparse os paths filename = (result, w') := by rw [rnmparse, hdone]
      rw [parseStep, hparse] at hstep
      cases result with
      | failed => exact Option.some.inj hstep ▸ ⟨rfl, hgRnms.trans hs⟩
      | cached rnm => exact Option.some.inj hstep ▸ ⟨rfl, hgRnms.trans hs⟩
      | parsed rnm => exact absurd rfl (hnot rnm)
      | undefined => exact absurd hstep (Option.some_ne_none t).symm
  · have hempty : w'.gRnms = none := hprepared.gRnms.trans hs
    have hwell : Parses os paths filename s.2 ↔ (filldata os rnm content w'.sys).verdict = .accepted := by
      rw [hprepared.accepted_iff, Parses, hsecond]
      constructor
      · rintro ⟨_, hcontent, h⟩
        exact Option.some.inj hcontent ▸ h
      · exact fun h => ⟨content, rfl, h⟩
    rw [hwell]
    cases hfill : filldata os rnm content w'.sys with
    | accepted rnm' sys' =>
      let v := ({ w' with sys := sys' } : World σ).rnmadd2path ret rnm'
      refine Or.inr ⟨rfl, ret, (s.1 ++ [ret], { v with sys := v.sys.fclose fp }), ?_, rfl, hempty⟩
      rw [parseStep, rnmparse_accepted hsecond hfill]
    | refused rnm' sys' =>
      refine Or.inl ⟨Verdict.noConfusion, fun t hstep => ?_⟩
      obtain ⟨v, hexit, -, hgRnms⟩ := exists_errFilldata ret rdata fp fnm rnm' sys' w'.rnms w'.gRnms
      rw [parseStep, rnmparse_refused hsecond hfill, hexit] at hstep
      exact Option.some.inj hstep ▸ ⟨rfl, hgRnms.trans hempty⟩
    | strayRecord toffs =>
      refine Or.inl ⟨Verdict.noConfusion, fun t hstep => ?_⟩
      rw [parseStep, rnmparse_stray hsecond (Or.inl ⟨toffs, hfill⟩)] at hstep
      exact absurd hstep (Option.some_ne_none t).symm
    | strayBucket =>
      refine Or.inl ⟨Verdict.noConfusion, fun t hstep => ?_⟩
      rw [parseStep, rnmparse_stray hsecond (Or.inr hfill)] at hstep
      exact absurd hstep (Option.some_ne_none t).symm

/-- **The cache of RNM files.** In a sequence of calls with any file names the cache is as it should be in
every state that is reached, exactly when no call of the sequence parses a file. -/
theorem cache_kept_iff (os : Os σ) (paths : Paths) (sys : System σ) (filenames : List (Option (List Octet))) :
    (∀ before t, before <+: filenames → before.foldlM (parseStep os paths) ([], ⟨sys, ∅, none⟩) = some t →
        t.2.CacheKept os paths t.1) ↔
      ∀ before filename t, before ++ [filename] <+: filenames →
        before.foldlM (parseStep os paths) ([], ⟨sys, ∅, none⟩) = some t → ¬Parses os paths filename t.2 := by
  refine foldlM_kept_iff (parseStep os paths) (fun t => t.2.CacheKept os paths t.1)
    (fun t => t.1 = [] ∧ t.2.gRnms = none) (fun filename t => ¬Parses os paths filename t.2) ?_ ?_ ?_
    filenames _ ⟨rfl, rfl⟩
  · rintro ⟨parsed, w⟩ ⟨rfl, hw⟩
    exact cacheKept_nil hw
  · rintro filename s t ⟨hparsed, hs⟩ hnot hstep
    rcases parseStep_cases hs filename with ⟨-, hkeeps⟩ | ⟨hparses, -⟩
    · obtain ⟨hsame, hempty⟩ := hkeeps t hstep
      exact ⟨hsame.trans hparsed, hempty⟩
    · exact absurd hparses hnot
  · rintro filename s ⟨hparsed, hs⟩ hparses
    rcases parseStep_cases hs filename with ⟨hnot, -⟩ | ⟨-, rnm, t, hstep, hnew, hempty⟩
    · exact absurd hnot hparses
    · refine ⟨t, hstep, not_cacheKept hempty ?_⟩
      rw [hnew]
      exact List.append_ne_nil_of_right_ne_nil _ (List.cons_ne_nil _ _)

/-- A file with the single line `1:A`. -/
def goodFile : List Octet := [0x31, 0x3a, 0x41]

/-- A file that was parsed is not in the cache. -/
theorem cache_misses : ¬∀ (os : Os Unit) (paths : Paths) (sys : System Unit)
    (filenames : List (Option (List Octet)))
    (t : List ℕ × World Unit), filenames.foldlM (parseStep os paths) ([], ⟨sys, ∅, none⟩) = some t →
      t.2.CacheKept os paths t.1 := by
  intro h
  have hstep : (parseStep (oneFile goodFile) ⟨[], []⟩ ([], fresh) (some [0x2f])).map (fun t => (t.1, t.2.gRnms)) =
      some ([2], none) := by decide
  obtain ⟨t, ht, hparsed⟩ := Option.map_eq_some_iff.mp hstep
  obtain ⟨hparsed, hempty⟩ := Prod.mk.inj hparsed
  refine not_cacheKept hempty (hparsed ▸ List.cons_ne_nil _ _)
    (h (oneFile goodFile) ⟨[], []⟩ fresh.sys [some [0x2f]] t ?_)
  rw [List.foldlM_cons]
  exact Option.bind_eq_some_iff.mpr ⟨t, ht, rfl⟩

end World

end V120.Tui
