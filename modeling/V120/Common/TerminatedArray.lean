import Mathlib.Data.List.GetD
import Mathlib.Data.List.TakeWhile

/-!
# Arrays terminated by a blank cell or by their own end

A flat block of cells holds a list as a leading run of live cells; every later cell is
blank. The run is delimited by the first blank cell, or by the end of the block when no
cell is spare. The operations are the ones C code performs on such a block: a bounded
scan, removal by moving the tail down one cell, insertion into the first blank cell and
growth by a cleared chunk.
-/

namespace V120.Common

variable {A : Type*}

/-- `memmove` within one block, counted in cells: the source is read before it is overwritten. -/
def memmove (mem : List A) (dst src n : ℕ) : List A :=
  mem.take dst ++ (mem.drop src).take n ++ mem.drop (dst + n)

/-- A move within a block keeps its length. -/
theorem length_memmove {mem : List A} {dst src n : ℕ} (hdst : dst + n ≤ mem.length)
    (hsrc : src + n ≤ mem.length) : (memmove mem dst src n).length = mem.length := by
  rw [memmove, List.length_append, List.length_append, List.length_take, List.length_take, List.length_drop,
    List.length_drop]
  omega

/-- The cells before the target stay. -/
theorem getElem?_memmove_before {mem : List A} {dst : ℕ} (src n : ℕ) (hdst : dst ≤ mem.length) {i : ℕ}
    (hi : i < dst) : (memmove mem dst src n)[i]? = mem[i]? := by
  have htaken : i < (mem.take dst).length := by
    rw [List.length_take]
    omega
  rw [memmove, List.append_assoc, List.getElem?_append_left htaken, List.getElem?_take_of_lt hi]

/-- The cells of the target show those of the source. -/
theorem getElem?_memmove_moved {mem : List A} {dst src n : ℕ} (hdst : dst ≤ mem.length)
    (hsrc : src + n ≤ mem.length) {i : ℕ} (hi : i < n) : (memmove mem dst src n)[dst + i]? = mem[src + i]? := by
  have htaken : (mem.take dst).length = dst := List.length_take_of_le hdst
  have hmoved : i < ((mem.drop src).take n).length := by
    rw [List.length_take, List.length_drop]
    omega
  rw [memmove, List.append_assoc, List.getElem?_append_right (htaken.symm ▸ Nat.le_add_right _ _), htaken,
    Nat.add_sub_cancel_left, List.getElem?_append_left hmoved, List.getElem?_take_of_lt hi, List.getElem?_drop]

/-- `memset` within one block, counted in cells. -/
def memset (mem : List A) (start n : ℕ) (value : A) : List A :=
  mem.take start ++ List.replicate n value ++ mem.drop (start + n)

/-- Walk the cells from index `ptr` until the block ends, a cell is not live, or `stop` accepts
a live cell. The flag tells the last case apart from the other two. -/
def scan (live stop : A → Bool) : List A → ℕ → ℕ × Bool
  | [], ptr => (ptr, false)
  | cell :: rest, ptr =>
    if live cell then
      if stop cell then (ptr, true) else scan live stop rest (ptr + 1)
    else (ptr, false)

/-- The leading cells hold `items`, and every other cell of the block is blank. -/
structure Stores (live : A → Bool) (blank : A) (slots items : List A) : Prop where
  spare : ∃ n, slots = items ++ List.replicate n blank
  live : ∀ item ∈ items, live item = true

/-- A scan of live cells is the first position `stop` accepts, or the position after the last. -/
theorem scan_of_live (live stop : A → Bool) (items rest : List A) (ptr : ℕ)
    (hitems : ∀ item ∈ items, live item = true) (hrest : ∀ cell ∈ rest.head?, live cell = false) :
    scan live stop (items ++ rest) ptr =
      match items.findIdx? stop with
      | some i => (ptr + i, true)
      | none => (ptr + items.length, false) := by
  induction items generalizing ptr with
  | nil =>
    cases rest with
    | nil => rfl
    | cons cell rest => simp [scan, hrest cell (by simp)]
  | cons item items ih =>
    have hitem : live item = true := hitems item (by simp)
    have htail := ih (ptr + 1) (fun other h => hitems other (by simp [h]))
    by_cases hstop : stop item = true
    · simp [scan, hitem, hstop, List.findIdx?_cons]
    · simp only [List.cons_append, scan, hitem, hstop, if_true, htail, List.findIdx?_cons,
        Bool.false_eq_true, if_false]
      cases items.findIdx? stop with
      | none => simp only [Option.map_none, List.length_cons]; congr 1; omega
      | some i => simp only [Option.map_some]; congr 1; omega

namespace Stores

variable {live : A → Bool} {blank : A} {slots items : List A}

/-- The stored items are the longest live prefix of the block. -/
theorem items_eq_takeWhile (h : Stores live blank slots items) (hblank : live blank = false) :
    items = slots.takeWhile live := by
  obtain ⟨n, rfl⟩ := h.spare
  have hnil : (List.replicate n blank).takeWhile live = [] := by
    cases n with
    | zero => rfl
    | succ n => simp [List.replicate_succ, hblank]
  rw [List.takeWhile_append_of_pos h.live, hnil, List.append_nil]

/-- The stored items never need more cells than the block has. -/
theorem length_le (h : Stores live blank slots items) : items.length ≤ slots.length := by
  obtain ⟨n, rfl⟩ := h.spare
  simp

/-- Reading a cell below the item count reads that item. -/
theorem getD_eq (h : Stores live blank slots items) (fallback : A) (i : ℕ)
    (hi : i < items.length) : slots.getD i fallback = items[i] := by
  obtain ⟨n, rfl⟩ := h.spare
  rw [List.getD_append _ _ _ _ hi, List.getD_eq_getElem _ _ hi]

/-- Reading a cell at or beyond the item count reads a blank one. -/
theorem getD_blank (h : Stores live blank slots items) (i : ℕ) (hi : items.length ≤ i) :
    slots.getD i blank = blank := by
  obtain ⟨n, rfl⟩ := h.spare
  rw [List.getD_append_right _ _ _ _ hi]
  by_cases hn : i - items.length < n
  · rw [List.getD_eq_getElem _ _ (by simpa using hn), List.getElem_replicate]
  · rw [List.getD_eq_default _ _ (by simpa using hn)]

/-- A scan started inside the stored run finds the first accepted item, or the end of the run. -/
theorem scan_eq (h : Stores live blank slots items) (hblank : live blank = false)
    (stop : A → Bool) (start : ℕ) (hstart : start ≤ items.length) :
    scan live stop (slots.drop start) start =
      match (items.drop start).findIdx? stop with
      | some i => (start + i, true)
      | none => (items.length, false) := by
  obtain ⟨n, rfl⟩ := h.spare
  rw [List.drop_append_of_le_length hstart,
    scan_of_live live stop (items.drop start) (List.replicate n blank) start
      (fun item hitem => h.live item (List.mem_of_mem_drop hitem))
      (by cases n <;> simp [hblank, List.replicate_succ])]
  cases (items.drop start).findIdx? stop with
  | some i => rfl
  | none => simp only [List.length_drop]; congr 1; omega

/-- A scan that accepts nothing stops right after the last item. -/
theorem scan_end (h : Stores live blank slots items) (hblank : live blank = false)
    (start : ℕ) (hstart : start ≤ items.length) :
    (scan live (fun _ => false) (slots.drop start) start).1 = items.length := by
  have hnone : (items.drop start).findIdx? (fun _ => false) = none :=
    List.findIdx?_eq_none_iff.mpr fun _ _ => rfl
  rw [h.scan_eq hblank _ start hstart, hnone]

/-- Moving the tail down one cell and blanking the last live cell removes one item. -/
theorem eraseIdx (h : Stores live blank slots items) (victim : ℕ) (hvictim : victim < items.length) :
    Stores live blank
      ((memmove slots victim (victim + 1) (items.length - 1 - victim)).set (items.length - 1) blank)
      (items.eraseIdx victim) := by
  obtain ⟨n, rfl⟩ := h.spare
  refine ⟨⟨n + 1, ?_⟩, fun item hitem => h.live item (List.mem_of_mem_eraseIdx hitem)⟩
  have hmoved : memmove (items ++ List.replicate n blank) victim (victim + 1)
        (items.length - 1 - victim) =
      items.eraseIdx victim ++ (items.drop (items.length - 1) ++ List.replicate n blank) := by
    have htail : (items.drop (victim + 1)).take (items.length - 1 - victim) =
        items.drop (victim + 1) :=
      List.take_of_length_le (by rw [List.length_drop]; omega)
    rw [memmove, List.take_append_of_le_length (by omega), List.drop_append_of_le_length (by omega),
      List.take_append_of_le_length (by rw [List.length_drop]; omega), htail,
      List.drop_append_of_le_length (by omega), List.eraseIdx_eq_take_drop_succ,
      show victim + (items.length - 1 - victim) = items.length - 1 by omega]
  have hlen : (items.eraseIdx victim).length = items.length - 1 :=
    List.length_eraseIdx_of_lt hvictim
  obtain ⟨last, hlast⟩ : ∃ last, items.drop (items.length - 1) = [last] :=
    List.length_eq_one_iff.mp (by rw [List.length_drop]; omega)
  rw [hmoved, hlast, List.set_append_right _ _ (by omega), hlen, Nat.sub_self,
    List.replicate_succ]
  rfl

/-- Writing a live item into the first blank cell appends it. -/
theorem push (h : Stores live blank slots items) (item : A) (hitem : live item = true)
    (hroom : items.length < slots.length) :
    Stores live blank (slots.set items.length item) (items ++ [item]) := by
  obtain ⟨n, rfl⟩ := h.spare
  have hn : 0 < n := by simpa using hroom
  obtain ⟨k, rfl⟩ : ∃ k, n = k + 1 := ⟨n - 1, by omega⟩
  refine ⟨⟨k, ?_⟩, ?_⟩
  · rw [List.set_append_right _ _ le_rfl, Nat.sub_self, List.replicate_succ, List.set_cons_zero,
      List.append_assoc, List.singleton_append]
  · intro other hother
    rcases List.mem_append.mp hother with hold | hnew
    · exact h.live other hold
    · rw [List.mem_singleton.mp hnew]
      exact hitem

/-- Growing the block by a chunk that is cleared afterwards changes no stored item. -/
theorem grow (h : Stores live blank slots items) (stale : List A) :
    Stores live blank (memset (slots ++ stale) slots.length stale.length blank) items := by
  obtain ⟨n, rfl⟩ := h.spare
  refine ⟨⟨n + stale.length, ?_⟩, h.live⟩
  have hend : ((items ++ List.replicate n blank) ++ stale).drop
      ((items ++ List.replicate n blank).length + stale.length) = [] :=
    List.drop_of_length_le (by simp only [List.length_append]; omega)
  rw [memset, List.take_left, hend, List.append_nil, List.append_assoc, List.replicate_append_replicate]

end Stores

/-- A cleared chunk makes the block longer by exactly that chunk. -/
theorem length_memset_grow (slots stale : List A) (blank : A) :
    (memset (slots ++ stale) slots.length stale.length blank).length =
      slots.length + stale.length := by
  simp [memset]

end V120.Common
