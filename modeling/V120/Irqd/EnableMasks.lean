import V120.Common.BitFields
import V120.Irqd.DaemonRuns

/-!
# The two updates of the enable masks

After a registration `enable_interrupts` adds its lines to the masks; after a removal
`disable_unused_interrupts` recomputes every mask from the table. The first adds the lines on
every open crate, so the two agree only where the other crates have these lines enabled already.
-/

namespace V120.Irqd

open V120.Common

/-- Adding bits to a mask changes nothing exactly when it has them. -/
theorem or_eq_self_iff {w : ℕ} (mask added : BitVec w) : mask ||| added = mask ↔ MaskIn added mask := by
  constructor
  · intro h i hi
    have hbit := congrArg (fun bits => bits.getLsbD i) h
    simpa [hi] using hbit.symm
  · intro h
    apply BitVec.eq_of_getLsbD_eq
    intro i _
    rw [BitVec.getLsbD_or]
    cases hi : added.getLsbD i with
    | false => rw [Bool.or_false]
    | true => rw [h i hi, Bool.or_true]

/-- A legal line mask fits in an octet. -/
theorem setWidth_setWidth_irq {irq : BitVec 16} (h : MaskIn irq anyIrq) :
    (irq.setWidth 8).setWidth 32 = irq.setWidth 32 := by
  apply BitVec.eq_of_getLsbD_eq
  intro i hi
  simp only [BitVec.getLsbD_setWidth, hi, decide_true, Bool.true_and]
  by_cases hlow : i < 8
  · simp [hlow]
  · cases hbit : irq.getLsbD i with
    | false => simp
    | true =>
      have hany := h i hbit
      have hlt : i < 16 := BitVec.lt_of_getLsbD hbit
      have hhigh : ∀ j : Fin 16, 8 ≤ j.val → anyIrq.getLsbD j.val = false := by decide
      rw [hhigh ⟨i, hlt⟩ (by simpa using Nat.le_of_not_lt hlow)] at hany
      exact absurd hany (by decide)

/-- A new registration adds its lines on the crates it names. -/
theorem lines_register {r r' : Registry} {reg : Registration}
    (h : r'.entries = r.entries ++ [reg]) (crate : Fin 16) :
    r'.lines crate =
      if reg.selector.crate.getLsbD crate.val = true then
        r.lines crate ||| reg.selector.irq.setWidth 8
      else r.lines crate := by
  have hbit : reg.selector.crate &&& ((1 : BitVec 16) <<< crate.val) ≠ 0 ↔
      reg.selector.crate.getLsbD crate.val = true := and_bit_ne_zero_iff _ _
  rw [Registry.lines, h, List.map_append, List.foldl_append]
  change addEntryMasks r.lines reg.entry crate = _
  rw [addEntryMasks]
  change (if reg.selector.crate &&& ((1 : BitVec 16) <<< crate.val) ≠ 0 then _ else _) = _
  by_cases hcrate : reg.selector.crate.getLsbD crate.val = true
  · rw [if_pos hcrate, if_pos (hbit.mpr hcrate)]
    rfl
  · rw [if_neg hcrate, if_neg (fun hne => hcrate (hbit.mp hne))]

/-- The bit of a crate number is never zero, so the source's test never skips a crate. -/
theorem crate_bit_ne_zero (n : Fin 16) : ((1 : BitVec 32) <<< n.val) ≠ 0 := by
  revert n
  decide

/-- What `enable_interrupts` leaves on one crate, for a request that names some crate. -/
theorem enableInterrupts_eq {sel : V120irqdSelector} (hcrate : sel.crate ≠ 0) (d : Daemon) :
    enableInterrupts sel d =
      { d with v120Info := d.v120Info.map fun info =>
          { info with irqen := info.irqen ||| sel.irq.setWidth 32 } } := by
  have hinfo : d.v120Info.map (fun info =>
      if sel.crate ≠ 0 && ((1 : BitVec 32) <<< info.cratenumber.val) ≠ 0 then
        { info with irqen := info.irqen ||| sel.irq.setWidth 32 }
      else info) = d.v120Info.map fun info =>
        { info with irqen := info.irqen ||| sel.irq.setWidth 32 } := by
    apply List.map_congr_left
    intro info _
    have htest : (decide (sel.crate ≠ 0) && decide (((1 : BitVec 32) <<< info.cratenumber.val) ≠ 0)) =
        true := by
      rw [decide_eq_true hcrate, decide_eq_true (crate_bit_ne_zero info.cratenumber), Bool.and_self]
    rw [if_pos htest]
  rw [enableInterrupts, hinfo]

/-- On one crate the two updates agree when the request names the crate, and else when the crate
has the request's lines enabled already. -/
theorem irqen_agrees_iff {r r' : Registry} {sock : ℤ} {sel : V120irqdSelector}
    (hlegal : Legal sock sel) (hentries : r'.entries = r.entries ++ [.ofRequest sock sel hlegal])
    (info : V120Info) (hmask : info.irqen = (r.lines info.cratenumber).setWidth 32) :
    info.irqen ||| sel.irq.setWidth 32 = (r'.lines info.cratenumber).setWidth 32 ↔
      (sel.crate.getLsbD info.cratenumber.val = false →
        MaskIn (sel.irq.setWidth 32) info.irqen) := by
  rw [lines_register hentries, Registration.selector_ofRequest]
  cases hcrate : sel.crate.getLsbD info.cratenumber.val with
  | true =>
    rw [if_pos rfl, BitVec.setWidth_or, setWidth_setWidth_irq hlegal.lines, hmask]
    simp
  | false =>
    rw [if_neg (by decide), ← hmask, or_eq_self_iff]
    simp

/-- **When the two updates agree.** Let every mask be what the table asks for. After a request that
`register_interrupt` accepts, `enable_interrupts` leaves the masks that recomputing them would
give exactly when each open crate that the request does not name has all its lines enabled. -/
theorem enableInterrupts_agrees_iff {r : Registry} {d : Daemon} (htable : d.vectorTable = r.layout)
    (hmasks : disableUnusedInterrupts d = d) {realloc : Realloc} {sock ret : ℤ}
    {sel : V120irqdSelector} {table : VectorTable}
    (hregister : registerInterrupt realloc sock sel d.vectorTable = (ret, table))
    (haccepted : ¬ ret < 0) :
    enableInterrupts sel (d.setTable table) = disableUnusedInterrupts (d.setTable table) ↔
      ∀ info ∈ d.v120Info, sel.crate.getLsbD info.cratenumber.val = false →
        MaskIn (sel.irq.setWidth 32) info.irqen := by
  rw [htable] at hregister
  obtain ⟨r', rfl, hrecorded⟩ := (TableEvent.register realloc hregister).recorded
  cases hrecorded with
  | refused hret => exact absurd hret haccepted
  | other _ h => exact absurd h (by simp [Event.changesTable])
  | registered hlegal hfree hentries =>
    have hpresent : ∀ info ∈ d.v120Info,
        info.irqen = (r.lines info.cratenumber).setWidth 32 := by
      have hsame := congrArg Daemon.v120Info hmasks
      rw [disableUnusedInterrupts, htable, r.listRegisteredInterrupts_layout] at hsame
      intro info hinfo
      have hfixed := List.map_inj_left.mp (hsame.trans (List.map_id _).symm) info hinfo
      exact (congrArg V120Info.irqen hfixed).symm
    have hlists : enableInterrupts sel (d.setTable r'.layout) =
          disableUnusedInterrupts (d.setTable r'.layout) ↔
        ∀ info ∈ d.v120Info,
          info.irqen ||| sel.irq.setWidth 32 = (r'.lines info.cratenumber).setWidth 32 := by
      rw [enableInterrupts_eq hlegal.crate, disableUnusedInterrupts]
      simp only [Daemon.setTable, r'.listRegisteredInterrupts_layout, Daemon.mk.injEq,
        List.map_inj_left, V120Info.mk.injEq, true_and, and_true]
    rw [hlists]
    exact forall₂_congr fun info hinfo => irqen_agrees_iff hlegal hentries info (hpresent info hinfo)

/-- With the named crate open alone the updates agree. -/
theorem enableInterrupts_agrees_alone :
    let d : Daemon := ⟨PollList.empty, [⟨0, 0⟩], [], false⟩
    let table := (registerInterrupt (.moved fun _ => TableT.zero) 5 ⟨1, 2, anyVector, 0⟩ []).2
    enableInterrupts ⟨1, 2, anyVector, 0⟩ (d.setTable table) =
        disableUnusedInterrupts (d.setTable table) ↔
      ∀ info ∈ d.v120Info, (1 : BitVec 16).getLsbD info.cratenumber.val = false →
        MaskIn ((2 : BitVec 16).setWidth 32) info.irqen := by
  intro d table
  have htable : d.vectorTable = Registry.empty.layout := rfl
  have hregister : registerInterrupt (.moved fun _ => TableT.zero) 5 ⟨1, 2, anyVector, 0⟩ d.vectorTable =
      (0, table) := rfl
  exact enableInterrupts_agrees_iff htable rfl hregister (by decide)

/-- With crates 0 and 1 open, a request for line 1 of crate 0 enables line 1 of crate 1 as well,
which no registration names. -/
theorem enableInterrupts_other_crate :
    let d : Daemon := ⟨PollList.empty, [⟨0, 0⟩, ⟨1, 0⟩], [], false⟩
    let sel : V120irqdSelector := ⟨1, 2, anyVector, 0⟩
    let after := d.setTable (registerInterrupt (.moved fun _ => TableT.zero) 5 sel d.vectorTable).2
    disableUnusedInterrupts d = d ∧
      (registerInterrupt (.moved fun _ => TableT.zero) 5 sel d.vectorTable).1 = 0 ∧
      (enableInterrupts sel after).irqen 1 = 2 ∧ (disableUnusedInterrupts after).irqen 1 = 0 ∧
      enableInterrupts sel after ≠ disableUnusedInterrupts after := by
  intro d sel after
  have hleft : (enableInterrupts sel after).irqen 1 = 2 := by decide
  have hright : (disableUnusedInterrupts after).irqen 1 = 0 := by decide
  refine ⟨rfl, by decide, hleft, hright, fun hsame => ?_⟩
  rw [hsame, hright] at hleft
  exact absurd hleft (by decide)

end V120.Irqd
