import V120.Irqd.Handlers

/-!
# The block behind the poll list

The size of the block is not stored: `append_fd` sets it to the new length, and `remove_fd` leaves it as it
is. So a cell behind the last one in use is there exactly when a removal came after the last append. The
move of `remove_fd` relies on this cell, and so does every pass once an append has failed, which makes the
list longer all the same.
-/

namespace V120.Irqd

open V120.Common

/-- The lists that appends and removals lead to, and whether the last one of these was a removal. -/
inductive History (lenCrates : ℕ) : Bool → PollList → Prop where
  | empty : History lenCrates false PollList.empty
  | append {removed : Bool} {l : PollList} (h : History lenCrates removed l) (stale : ℕ → Pollfd) (fd : ℤ)
      (events : BitVec 16) : History lenCrates false (appendFd (.moved stale) fd events l).2
  | remove {removed : Bool} {l l' : PollList} (h : History lenCrates removed l)
      (beyond : ℕ → Pollfd) {idx : ℕ}
      (hremove : removeFd beyond lenCrates idx l = some l') : History lenCrates true l'

/-- A removal that is permitted leaves the block as long as it was. -/
theorem length_removeFd {beyond : ℕ → Pollfd} {lenCrates idx : ℕ} {l l' : PollList}
    (hremove : removeFd beyond lenCrates idx l = some l') :
    l'.block.length = l.block.length ∧ l'.len + 1 = l.len := by
  by_cases hidx : idx ≤ lenCrates ∨ l.len ≤ idx
  · rw [removeFd, if_pos hidx] at hremove
    cases hremove
  · rw [removeFd_some beyond hidx] at hremove
    obtain rfl := Option.some.inj hremove
    have hlast := l.lt_length_extended beyond
    have hblock : l.block.length ≤ (l.extended beyond).length := by
      rw [PollList.extended, List.length_append]
      exact Nat.le_add_right _ _
    have hmoved : (memmove (l.extended beyond) idx (idx + 1) (l.len - idx)).length =
        (l.extended beyond).length := length_memmove (by omega) (by omega)
    dsimp only
    rw [List.length_take, hmoved, Nat.min_eq_left hblock]
    exact ⟨rfl, by omega⟩

/-- The block has a cell to spare after a removal, and none after an append. -/
theorem History.capacity {lenCrates : ℕ} {removed : Bool} {l : PollList} (h : History lenCrates removed l) :
    l.Allocated ∧ (l.len < l.block.length ↔ removed = true) := by
  induction h with
  | empty => exact ⟨Nat.le_refl 0, iff_of_false (Nat.lt_irrefl 0) Bool.false_ne_true⟩
  | @append removed l _ stale fd events ih =>
    obtain ⟨revents, -, hlen, hblock⟩ := appendFd_moved stale fd events l ih.1
    have hfull : (appendFd (.moved stale) fd events l).2.block.length =
        (appendFd (.moved stale) fd events l).2.len := by
      rw [hblock, hlen, List.length_append, List.length_singleton, ih.1.length_live]
    exact ⟨Nat.le_of_eq hfull.symm, iff_of_false (hfull ▸ Nat.lt_irrefl _) Bool.false_ne_true⟩
  | @remove removed l l' _ beyond idx hremove ih =>
    obtain ⟨hblock, hlen⟩ := length_removeFd hremove
    have hroom : l'.len < l'.block.length := by
      rw [hblock, ← Nat.succ_le_iff, Nat.succ_eq_add_one, hlen]
      exact ih.1
    exact ⟨Nat.le_of_lt hroom, iff_of_true hroom rfl⟩

/-- A call of `memmove`, in cells. -/
structure Move where
  dst : ℕ
  src : ℕ
  count : ℕ

/-- The cells that are read and those that are written lie in a block of some size. -/
def Move.Inside (move : Move) (size : ℕ) : Prop :=
  move.dst + move.count ≤ size ∧ move.src + move.count ≤ size

/-- The move of `remove_fd`. -/
def PollList.removal (l : PollList) (idx : ℕ) : Move := ⟨idx, idx + 1, l.len - idx⟩

/-- `remove_fd` makes the move `PollList.removal`. -/
theorem removeFd_eq (beyond : ℕ → Pollfd) (lenCrates idx : ℕ) (l : PollList) :
    removeFd beyond lenCrates idx l =
      if idx ≤ lenCrates ∨ l.len ≤ idx then none
      else some ⟨(memmove (l.extended beyond) (l.removal idx).dst (l.removal idx).src
        (l.removal idx).count).take l.block.length, l.len - 1⟩ := rfl

/-- **When a removal stays inside the block.** For every list that appends and removals lead to and every
client in it, `remove_fd` moves nothing but cells of the block and leaves the list without this client, in
the same order, exactly when the last of these calls was a removal. -/
theorem removeFd_inside_iff {lenCrates : ℕ} {removed : Bool} {l : PollList}
    (h : History lenCrates removed l)
    {idx : ℕ} (hlow : lenCrates < idx) (hhigh : idx < l.len) (beyond : ℕ → Pollfd) :
    ((l.removal idx).Inside l.block.length ∧
        ∃ l', removeFd beyond lenCrates idx l = some l' ∧ l'.live = l.live.eraseIdx idx) ↔
          removed = true := by
  obtain ⟨hallocated, hcapacity⟩ := h.capacity
  obtain ⟨l', hremove, -, -, hlive⟩ := removeFd_spec beyond lenCrates idx l hallocated hlow hhigh
  rw [← hcapacity]
  constructor
  · rintro ⟨⟨-, hsrc⟩, -⟩
    change idx + 1 + (l.len - idx) ≤ l.block.length at hsrc
    omega
  · intro hroom
    refine ⟨⟨?_, ?_⟩, l', hremove, hlive⟩
    · change idx + (l.len - idx) ≤ l.block.length
      omega
    · change idx + 1 + (l.len - idx) ≤ l.block.length
      omega

/-- Memory that holds nothing. -/
def blankMemory (_ : ℕ) : Pollfd := ⟨0, 0, 0⟩

/-- A server socket and one client, each appended in its turn. -/
def oneClient : PollList :=
  (appendFd (.moved blankMemory) 5 pollin (appendFd (.moved blankMemory) 4 pollin PollList.empty).2).2

/-- Appends lead to the list with one client. -/
theorem history_oneClient : History 0 false oneClient :=
  .append (.append .empty blankMemory 4 pollin) blankMemory 5 pollin

/-- With a second client the first removal makes room for the second one. -/
theorem removeFd_inside_second :
    ∃ l, History 0 true l ∧ 1 < l.len ∧ (l.removal 1).Inside l.block.length ∧
      ∃ l', removeFd blankMemory 0 1 l = some l' ∧ l'.live = l.live.eraseIdx 1 := by
  have hremove : removeFd blankMemory 0 1 (appendFd (.moved blankMemory) 6 pollin oneClient).2 =
      some ⟨_, _⟩ := rfl
  have hhistory := (history_oneClient.append blankMemory 6 pollin).remove blankMemory hremove
  exact ⟨_, hhistory, by decide, (removeFd_inside_iff hhistory (by decide) (by decide) blankMemory).mpr rfl⟩

/-- The removal of the only client reads a cell behind the block. -/
theorem removeFd_outside : History 0 false oneClient ∧ oneClient.block.length = 2 ∧ oneClient.len = 2 ∧
    (removeFd blankMemory 0 1 oneClient).isSome = true ∧ oneClient.removal 1 = ⟨1, 2, 1⟩ ∧
    ¬ (oneClient.removal 1).Inside oneClient.block.length := by
  refine ⟨history_oneClient, rfl, rfl, rfl, rfl, fun hinside => ?_⟩
  exact absurd hinside.2 (by decide)

/-- A list is left as it was: as long, with the same cells, reported with the same number of clients, and with
nothing for the next pass to look at but cells of the block. -/
structure Intact (lenCrates : ℕ) (l l' : PollList) : Prop where
  len : l'.len = l.len
  live : l'.live = l.live
  clients : countClients lenCrates l' = countClients lenCrates l
  looked : ∀ idx < l'.len, idx < l'.block.length

/-- A failed append makes the list longer, by a cell that the block has only when it has one to spare. -/
theorem appendFd_failed {lenCrates : ℕ} {l : PollList} (hserver : lenCrates < l.len) (fd : ℤ)
    (events : BitVec 16) :
    (appendFd .failed fd events l).2.len = l.len + 1 ∧
      countClients lenCrates (appendFd .failed fd events l).2 = countClients lenCrates l + 1 ∧
      ((appendFd .failed fd events l).2.Allocated ↔ l.len < l.block.length) := by
  refine ⟨rfl, ?_, Iff.rfl⟩
  change l.len + 1 - lenCrates - 1 = l.len - lenCrates - 1 + 1
  omega

section Daemon

variable {σ : Type*} {sys : System σ}

/-- Without memory `configureClientSocket` reports so, with the list as the failed append left it. -/
theorem configureClientSocket_failed {w : World σ}
    (hserver : w.daemon.lenCrates < w.daemon.pollfds.len) (fd : ℤ)
    (hfailed : (sys.reallocPollfds w.outside).1 = .failed) :
    ∃ w', configureClientSocket sys fd w = some (1, w') ∧
      Effect w w' (appendFd .failed fd pollin w.daemon.pollfds).2 w.daemon.vectorTable [] := by
  unfold configureClientSocket
  rw [if_neg (Nat.not_le.mpr hserver)]
  generalize sys.reallocPollfds w.outside = answer at hfailed ⊢
  obtain ⟨realloc, outside⟩ := answer
  obtain rfl : realloc = .failed := hfailed
  exact ⟨_, rfl, rfl, rfl, rfl, rfl, (List.append_nil _).symm⟩

/-- A client that was accepted is handed on, after the events so far. -/
theorem processNewclient_accepted {w : World σ} {client : ℤ} {outside : σ}
    (haccept : sys.accept (w.pollfd sys w.daemon.lenCrates).fd w.outside = (client, outside))
    (hclient : 0 ≤ client) :
    processNewclient sys w = processAccepted sys client (World.log ⟨w.daemon, outside,
      w.trace ++ [.processNewclient (w.pollfd sys w.daemon.lenCrates).fd]⟩ (.accept client)) := by
  have hdef (accepted : ℤ × σ)
      (h : sys.accept (w.pollfd sys w.daemon.lenCrates).fd w.outside = accepted) :
      processNewclient sys w =
        if accepted.1 < 0 then .done ⟨w.daemon, accepted.2,
          w.trace ++ [.processNewclient (w.pollfd sys w.daemon.lenCrates).fd]⟩
        else processAccepted sys accepted.1 (World.log ⟨w.daemon, accepted.2,
          w.trace ++ [.processNewclient (w.pollfd sys w.daemon.lenCrates).fd]⟩ (.accept accepted.1)) := by
    subst h
    rfl
  rw [hdef _ haccept, if_neg (Int.not_lt.mpr hclient)]

/-- **A failed append never leaves the poll list intact.** In every state of the daemon, when a client is
accepted and there is no memory to add it, `process_newclient` closes the client and goes on with a list
that is one cell longer, and reported with one client more. -/
theorem processNewclient_never_intact {w : World σ} (hserver : w.daemon.lenCrates < w.daemon.pollfds.len)
    {client : ℤ} {outside : σ}
    (haccept : sys.accept (w.pollfd sys w.daemon.lenCrates).fd w.outside = (client, outside))
    (hclient : 0 ≤ client) (hfailed : (sys.reallocPollfds outside).1 = .failed) :
    ∃ w', processNewclient sys w = .done w' ∧
      w'.trace = w.trace ++
        [.processNewclient (w.pollfd sys w.daemon.lenCrates).fd, .accept client, .close client] ∧
      w'.daemon.pollfds.len = w.daemon.pollfds.len + 1 ∧
      countClients w.daemon.lenCrates w'.daemon.pollfds =
        countClients w.daemon.lenCrates w.daemon.pollfds + 1 ∧
      ¬ Intact w.daemon.lenCrates w.daemon.pollfds w'.daemon.pollfds := by
  obtain ⟨w₂, hconfigured, heffect⟩ := configureClientSocket_failed (w := World.log ⟨w.daemon, outside,
    w.trace ++ [.processNewclient (w.pollfd sys w.daemon.lenCrates).fd]⟩ (.accept client))
      hserver client hfailed
  obtain ⟨hlen, hclients, -⟩ := appendFd_failed hserver client pollin
  have hpollfds : w₂.daemon.pollfds = (appendFd .failed client pollin w.daemon.pollfds).2 := heffect.pollfds
  refine ⟨w₂.log (.close client), ?_, ?_, ?_, ?_, fun hintact => ?_⟩
  · rw [processNewclient_accepted haccept hclient, processAccepted, hconfigured]
    rfl
  · have htrace := heffect.trace
    change w₂.trace = w.trace ++ [_] ++ [_] ++ [] at htrace
    change w₂.trace ++ [.close client] = _
    rw [htrace, List.append_nil, List.append_assoc, List.append_assoc]
    rfl
  · exact (congrArg PollList.len hpollfds).trans hlen
  · exact (congrArg (countClients _) hpollfds).trans hclients
  · have hsame : w₂.daemon.pollfds.len = w.daemon.pollfds.len := hintact.len
    rw [hpollfds, hlen] at hsame
    omega

/-- An outside where a client is accepted and there is no memory for it. -/
def exhausted : System Unit := { System.silent with reallocPollfds := fun s => (.failed, s) }

/-- A daemon without crates that has one client. -/
def oneClientWorld : World Unit := ⟨⟨oneClient, [], [], false⟩, (), []⟩

/-- When memory is exhausted, a second client is closed, and counted. -/
theorem processNewclient_never_intact_second :
    ∃ w', processNewclient exhausted oneClientWorld = .done w' ∧
      w'.trace = [] ++ [.processNewclient 4, .accept 3, .close 3] ∧ w'.daemon.pollfds.len = 2 + 1 ∧
      countClients 0 w'.daemon.pollfds = 1 + 1 ∧ ¬ Intact 0 oneClient w'.daemon.pollfds := by
  have hserver : oneClientWorld.daemon.lenCrates < oneClientWorld.daemon.pollfds.len := by decide
  have haccept : exhausted.accept (oneClientWorld.pollfd exhausted 0).fd () = (3, ()) := rfl
  exact processNewclient_never_intact hserver haccept (by decide) rfl

/-- The next pass looks at a third cell, which is behind the block. -/
theorem appendFd_failed_not_intact : History 0 false oneClient ∧
    (appendFd .failed 3 pollin oneClient).1 = none ∧ (appendFd .failed 3 pollin oneClient).2.len = 3 ∧
    (appendFd .failed 3 pollin oneClient).2.block.length = 2 ∧
    ¬ Intact 0 oneClient (appendFd .failed 3 pollin oneClient).2 := by
  refine ⟨history_oneClient, rfl, rfl, rfl, fun hintact => ?_⟩
  exact absurd (hintact.looked 2 (by decide)) (by decide)

end Daemon

end V120.Irqd
