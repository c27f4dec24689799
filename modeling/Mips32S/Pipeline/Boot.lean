import Mips32S.Pipeline.Stages

namespace mips32s.CPU_TOP.Execution

open pipeline

/-- Status as reset leaves it; interrupts are disabled. -/
abbrev resetStatus : Word := 0x10000000#32

/-- The no-operation that enters the pipeline before the first fetch carries the
reset vector as its address. While such an empty slot with an address is under way,
nothing is in front of it and Status is untouched. -/
structure Boot (e : Execution) (n : ℕ) : Prop where
  id : (e.slots n).id = none → (e.state n).if2id.PC_output ≠ ZeroWord →
    (e.slots n).ex = none ∧ (e.state n).id_ex.ex_current_inst_addr = ZeroWord ∧
      (e.slots n).mem = none ∧
      (e.state n).ex2mem.mem_current_inst_addr = ZeroWord ∧ (e.slots n).wb = none ∧
      (e.state n).cp0.status_output = resetStatus
  ex : (e.slots n).ex = none → (e.state n).id_ex.ex_current_inst_addr ≠ ZeroWord →
    (e.slots n).mem = none ∧ (e.state n).ex2mem.mem_current_inst_addr = ZeroWord ∧
      (e.slots n).wb = none ∧
      (e.state n).cp0.status_output = resetStatus
  mem : (e.slots n).mem = none → (e.state n).ex2mem.mem_current_inst_addr ≠ ZeroWord →
    (e.slots n).wb = none ∧ (e.state n).cp0.status_output = resetStatus

variable {e : Execution} {n : ℕ}

theorem status_output_succ (hwb : (e.slots n).wb = none) (hctl : e.ctl n ≠ .flush) :
    (e.state (n + 1)).cp0.status_output = (e.state n).cp0.status_output := by
  have hrst := e.input_rst n
  have hexc : mem_excepttype_output (e.state n) (e.input n) = .none := by
    by_contra hne
    exact hctl ((ctl_eq_flush_iff hrst).mpr hne)
  have hwe : (wb_cp0 (e.state n)).we = false := (mem2wb_idle hwb).cp0_reg_we
  simp [state_succ, step, cp0_reg.next, hrst, hexc, cp0_reg.State.except, cp0_reg.State.write, hwe,
    cp0_reg.State.tick]

theorem status_output_zero : (e.state 0).cp0.status_output = resetStatus := by
  simp [state, step, cp0_reg.next, e.reset1_rst, cp0_reg.State.reset]

theorem ex_current_inst_addr_succ :
    (e.state (n + 1)).id_ex.ex_current_inst_addr = match e.ctl n with
    | .go => (e.state n).if2id.PC_output
    | .holdMem => (e.state n).id_ex.ex_current_inst_addr
    | .holdDecode | .flush => ZeroWord := by
  rw [e.id_ex_succ n]
  cases e.ctl n <;> rfl

theorem mem_current_inst_addr_succ :
    (e.state (n + 1)).ex2mem.mem_current_inst_addr = match e.ctl n with
    | .go | .holdDecode => (e.state n).id_ex.ex_current_inst_addr
    | .holdMem => (e.state n).ex2mem.mem_current_inst_addr
    | .flush => ZeroWord := by
  rw [e.ex2mem_succ n]
  cases e.ctl n <;> rfl

theorem boot_zero : e.Boot 0 := by
  have hregs := e.regs_zero
  have hif : (e.state 0).if2id = .bubble := congrArg Regs.id hregs
  have hex : (e.state 0).id_ex.toSlot = .bubble := congrArg Regs.ex hregs
  have hmem : (e.state 0).ex2mem = .bubble := congrArg Regs.mem hregs
  refine ⟨fun _ h => absurd ?_ h, fun _ h => absurd ?_ h, fun _ h => absurd ?_ h⟩
  · rw [hif]
    rfl
  · rw [hex]
    rfl
  · rw [hmem]
    rfl

theorem boot_succ (h : e.Boot n) : e.Boot (n + 1) := by
  have hif := e.if2id_succ n
  have hex := ex_current_inst_addr_succ (e := e) (n := n)
  have hmem := mem_current_inst_addr_succ (e := e) (n := n)
  have hstatus := status_output_succ (e := e) (n := n)
  obtain ⟨hid, hexb, hmemb⟩ := h
  cases hctl : e.ctl n with
  | flush => constructor <;> simp [hif, hex, hmem, hctl, IF2ID.bubble]
  | holdMem =>
    constructor <;> simp only [slots_succ, hif, hex, hmem, hctl, Slots.next_holdMem] <;>
      intro hslot haddr
    · obtain ⟨h1, h2, h3, h4, h5, h6⟩ := hid hslot haddr
      exact ⟨h1, h2, h3, h4, trivial, (hstatus h5 (by simp [hctl])).trans h6⟩
    · obtain ⟨h3, h4, h5, h6⟩ := hexb hslot haddr
      exact ⟨h3, h4, trivial, (hstatus h5 (by simp [hctl])).trans h6⟩
    · obtain ⟨h5, h6⟩ := hmemb hslot haddr
      exact ⟨trivial, (hstatus h5 (by simp [hctl])).trans h6⟩
  | holdDecode =>
    constructor <;> simp only [slots_succ, hif, hex, hmem, hctl, Slots.next_holdDecode] <;>
      intro hslot haddr
    · obtain ⟨h1, h2, h3, h4, h5, h6⟩ := hid hslot haddr
      exact ⟨trivial, trivial, h1, h2, h3, (hstatus h5 (by simp [hctl])).trans h6⟩
    · exact absurd rfl haddr
    · obtain ⟨h3, h4, h5, h6⟩ := hexb hslot haddr
      exact ⟨h3, (hstatus h5 (by simp [hctl])).trans h6⟩
  | go =>
    constructor <;> simp only [slots_succ, hif, hex, hmem, hctl, Slots.next_go] <;>
      intro hslot haddr
    · -- only the cycle before the first fetch delivers an empty slot
      cases n with
      | succ n => simp [chip_enable_succ] at hslot
      | zero =>
        have hregs := e.regs_zero
        have hif0 : (e.state 0).if2id = .bubble := congrArg Regs.id hregs
        have hex0 : (e.state 0).id_ex.toSlot = .bubble := congrArg Regs.ex hregs
        exact ⟨rfl, by rw [hif0]; rfl, rfl, by rw [hex0]; rfl, rfl,
          (hstatus rfl (by simp [hctl])).trans status_output_zero⟩
    · obtain ⟨h1, h2, h3, h4, h5, h6⟩ := hid hslot haddr
      exact ⟨h1, h2, h3, (hstatus h5 (by simp [hctl])).trans h6⟩
    · obtain ⟨h3, h4, h5, h6⟩ := hexb hslot haddr
      exact ⟨h3, (hstatus h5 (by simp [hctl])).trans h6⟩

theorem boot (n : ℕ) : e.Boot n := by
  induction n with
  | zero => exact boot_zero
  | succ n ih => exact boot_succ ih

theorem exists_slot_of_excepttype (h : mem_excepttype_output (e.state n) (e.input n) ≠ .none) :
    ∃ t, (e.slots n).mem = some t := by
  by_contra hnone
  have hslot : (e.slots n).mem = none :=
    Option.eq_none_iff_forall_ne_some.mpr fun t ht => hnone ⟨t, ht⟩
  have hrst := e.input_rst n
  have hidle := ex2mem_idle hslot
  have hmem := hidle.isMem
  apply h
  have hpc : (e.state n).ex2mem.mem_current_inst_addr ≠ ZeroWord := by
    intro hpc
    exact h (by simp [mem_excepttype_output, mem.excepttype_output, hrst, hpc])
  obtain ⟨hwb, hstatus⟩ := (e.boot n).mem hslot hpc
  have hbypass : mem.bypass (wb_cp0 (e.state n)) CP0_REG_STATUS = false := by
    have hwe : (wb_cp0 (e.state n)).we = false := (mem2wb_idle hwb).cp0_reg_we
    simp [mem.bypass, hwe]
  have hpend : mem.interrupt_pending (mem_cp0_cause (e.state n) (e.input n))
      (mem_cp0_status (e.state n) (e.input n)) =
      false := by
    have hie : resetStatus.getLsbD 0 = false := by decide
    simp only [mem_cp0_status, mem.cp0_status, hrst, hbypass, hstatus, mem.interrupt_pending,
      Bool.false_eq_true, if_false, hie, Bool.and_false]
  simp [mem_excepttype_output, mem.excepttype_output, hpend, hidle.excepttype, ExceptFlags.zero,
    no_data_fault hrst hmem]

end mips32s.CPU_TOP.Execution
