import V120.Common.TerminatedArray
import Mathlib.Data.Int.Notation

/-!
# The poll list of `v120irqd.c`

`list_pollfds` is a `realloc`ed block and `len_pollfds` the number of its cells in use: VME
endpoints, then the server socket, then clients. Cells past the length keep what was there
before, and memory past the block has arbitrary contents.
-/

namespace V120.Irqd

open V120.Common

/-- `struct pollfd`. -/
structure Pollfd where
  fd : ℤ
  events : BitVec 16
  revents : BitVec 16
  deriving DecidableEq, Repr

/-- `POLLIN`. -/
def pollin : BitVec 16 := 0x0001

/-- `list_pollfds` with its allocated cells, and `len_pollfds`. -/
structure PollList where
  block : List Pollfd
  len : ℕ

namespace PollList

/-- Before `initialize`: no block. -/
def empty : PollList := ⟨[], 0⟩

/-- The cells in use. -/
def live (l : PollList) : List Pollfd := l.block.take l.len

/-- The descriptors in use, in order. -/
def fds (l : PollList) : List ℤ := l.live.map Pollfd.fd

end PollList

/-- What `realloc` does to the poll list: fresh cells have arbitrary contents. -/
inductive PollRealloc where
  | moved (stale : ℕ → Pollfd)
  | failed

/-- `append_fd`: the index of the new cell or `none`, and the list. -/
def appendFd (realloc : PollRealloc) (fd : ℤ) (events : BitVec 16) (l : PollList) :
    Option ℕ × PollList :=
  let len := l.len + 1
  match realloc with
  | .failed => (none, ⟨l.block, len⟩)
  | .moved stale =>
    let resized := (List.range len).map fun i => l.block.getD i (stale i)
    let revents := (l.block.getD (len - 1) (stale (len - 1))).revents
    (some (len - 1), ⟨resized.set (len - 1) ⟨fd, events, revents⟩, len⟩)

/-- `remove_fd`: the list without its cell `idx`, or `none` when the process exits.

The move counts one cell too many, so it reads the cell after the last one in use, which may lie
past the block. -/
def removeFd (beyond : ℕ → Pollfd) (lenCrates idx : ℕ) (l : PollList) : Option PollList :=
  if idx ≤ lenCrates ∨ l.len ≤ idx then none
  else
    let mem := l.block ++ (List.range (l.len + 1 - l.block.length)).map fun i =>
      beyond (l.block.length + i)
    let moved := memmove mem idx (idx + 1) (l.len - idx)
    some ⟨moved.take l.block.length, l.len - 1⟩

/-- `count_clients`. -/
def countClients (lenCrates : ℕ) (l : PollList) : ℕ := l.len - lenCrates - 1

/-- Every cell in use was allocated. -/
def PollList.Allocated (l : PollList) : Prop := l.len ≤ l.block.length

/-- The cells in use of an allocated list are as many as its length says. -/
theorem PollList.Allocated.length_live {l : PollList} (h : l.Allocated) : l.live.length = l.len := by
  rw [PollList.live, List.length_take]
  exact Nat.min_eq_left h

/-- Appending keeps the cells in use and adds the descriptor, with whatever `revents` the memory
held. -/
theorem appendFd_moved (stale : ℕ → Pollfd) (fd : ℤ) (events : BitVec 16) (l : PollList)
    (h : l.Allocated) :
    ∃ revents, (appendFd (.moved stale) fd events l).1 = some l.len ∧
      (appendFd (.moved stale) fd events l).2.len = l.len + 1 ∧
      (appendFd (.moved stale) fd events l).2.block = l.live ++ [⟨fd, events, revents⟩] := by
  refine ⟨(l.block.getD l.len (stale l.len)).revents, rfl, rfl, ?_⟩
  have hkeep : (List.range l.len).map (fun i => l.block.getD i (stale i)) = l.live := by
    apply List.ext_getElem
    · rw [List.length_map, List.length_range, h.length_live]
    · intro i hi _
      rw [List.length_map, List.length_range] at hi
      have hblock : i < l.block.length := Nat.lt_of_lt_of_le hi h
      rw [List.getElem_map, List.getElem_range, List.getD_eq_getElem _ _ hblock]
      exact (List.getElem_take ..).symm
  simp only [appendFd, Nat.add_sub_cancel, List.range_succ, List.map_append, List.map_singleton, hkeep]
  rw [List.set_append_right _ _ (by rw [h.length_live]), h.length_live, Nat.sub_self,
    List.set_cons_zero]

/-- After a successful append the list is allocated. -/
theorem allocated_appendFd (stale : ℕ → Pollfd) (fd : ℤ) (events : BitVec 16) {l : PollList}
    (h : l.Allocated) : (appendFd (.moved stale) fd events l).2.Allocated := by
  obtain ⟨revents, -, hlen, hblock⟩ := appendFd_moved stale fd events l h
  rw [PollList.Allocated, hlen, hblock, List.length_append, List.length_singleton, h.length_live]

/-- A successful append adds one descriptor at the end. -/
theorem live_appendFd (stale : ℕ → Pollfd) (fd : ℤ) (events : BitVec 16) {l : PollList}
    (h : l.Allocated) :
    ∃ revents, (appendFd (.moved stale) fd events l).2.live = l.live ++ [⟨fd, events, revents⟩] := by
  obtain ⟨revents, -, hlen, hblock⟩ := appendFd_moved stale fd events l h
  refine ⟨revents, ?_⟩
  rw [PollList.live, hlen, hblock]
  exact List.take_of_length_le (by simp [h.length_live])

/-- What the move of `remove_fd` finds: the block, and behind it whatever lies there. -/
def PollList.extended (beyond : ℕ → Pollfd) (l : PollList) : List Pollfd :=
  l.block ++ (List.range (l.len + 1 - l.block.length)).map fun i => beyond (l.block.length + i)

/-- There is a cell behind the last one in use. -/
theorem PollList.lt_length_extended (beyond : ℕ → Pollfd) (l : PollList) :
    l.len < (l.extended beyond).length := by
  rw [extended, List.length_append, List.length_map, List.length_range]
  omega

/-- A removal that is permitted moves the cells behind the removed one. -/
theorem removeFd_some (beyond : ℕ → Pollfd) {lenCrates idx : ℕ} {l : PollList}
    (hidx : ¬ (idx ≤ lenCrates ∨ l.len ≤ idx)) :
    removeFd beyond lenCrates idx l =
      some ⟨(memmove (l.extended beyond) idx (idx + 1) (l.len - idx)).take l.block.length, l.len - 1⟩ := by
  rw [removeFd, if_neg hidx]
  rfl

/-- After a permitted removal a cell of the block shows what stood there, or one cell further from the
removed one on. -/
theorem getElem?_removeFd (beyond : ℕ → Pollfd) {idx : ℕ} {l : PollList} (hidx : idx < l.len) {i : ℕ}
    (hi : i < l.len) (hblock : i < l.block.length) :
    ((memmove (l.extended beyond) idx (idx + 1) (l.len - idx)).take l.block.length)[i]? =
      if i < idx then l.block[i]? else (l.extended beyond)[i + 1]? := by
  have hlast := l.lt_length_extended beyond
  rw [List.getElem?_take_of_lt hblock]
  split_ifs with hbefore
  · rw [getElem?_memmove_before _ _ (by omega) hbefore, PollList.extended, List.getElem?_append_left hblock]
  · obtain ⟨k, rfl⟩ := Nat.exists_eq_add_of_le (Nat.le_of_not_lt hbefore)
    rw [getElem?_memmove_moved (by omega) (by omega) (by omega), Nat.add_right_comm]

/-- A permitted removal deletes the cell, whatever lies past the block. -/
theorem removeFd_spec (beyond : ℕ → Pollfd) (lenCrates idx : ℕ) (l : PollList) (h : l.Allocated)
    (hlow : lenCrates < idx) (hhigh : idx < l.len) :
    ∃ l', removeFd beyond lenCrates idx l = some l' ∧ l'.Allocated ∧ l'.len = l.len - 1 ∧
      l'.live = l.live.eraseIdx idx := by
  have hlast := l.lt_length_extended beyond
  refine ⟨_, removeFd_some beyond (by omega), ?_, rfl, ?_⟩
  · have hmoved : (memmove (l.extended beyond) idx (idx + 1) (l.len - idx)).length =
        (l.extended beyond).length := length_memmove (by omega) (by omega)
    rw [PollList.Allocated] at h ⊢
    dsimp only
    rw [List.length_take, hmoved]
    omega
  · rw [PollList.Allocated] at h
    apply List.ext_getElem?
    intro i
    rw [PollList.live, PollList.live, List.getElem?_take, List.getElem?_eraseIdx]
    dsimp only
    split_ifs with hi hbefore hbefore
    · rw [getElem?_removeFd beyond hhigh (by omega) (by omega), if_pos hbefore,
        List.getElem?_take_of_lt (by omega)]
    · have hnext : i + 1 < l.block.length := by omega
      rw [getElem?_removeFd beyond hhigh (by omega) (by omega), if_neg hbefore,
        List.getElem?_take_of_lt (by omega), PollList.extended, List.getElem?_append_left hnext]
    · omega
    · exact (List.getElem?_take_eq_none (by omega)).symm

/-- After a removal each cell in use shows what stood one cell further, even in a list that is
longer than its block. -/
theorem removeFd_shift {beyond : ℕ → Pollfd} {lenCrates idx : ℕ} {l l' : PollList}
    (h : removeFd beyond lenCrates idx l = some l') :
    l'.len = l.len - 1 ∧ ∀ i c, idx ≤ i → i + 1 < l.len → l.block[i + 1]? = some c →
      l'.block[i]? = some c := by
  by_cases hidx : idx ≤ lenCrates ∨ l.len ≤ idx
  · rw [removeFd, if_pos hidx] at h
    cases h
  · rw [removeFd_some beyond hidx] at h
    obtain rfl := Option.some.inj h
    refine ⟨rfl, fun i c hle hlen hc => ?_⟩
    have hblock := (List.getElem?_eq_some_iff.mp hc).1
    dsimp only
    rw [getElem?_removeFd beyond (by omega) (by omega) (by omega), if_neg (Nat.not_lt.mpr hle),
      PollList.extended, List.getElem?_append_left hblock, hc]

end V120.Irqd
