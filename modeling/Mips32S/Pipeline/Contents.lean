import Mips32S.Cpu.Execution

namespace mips32s

/-- A decode register without an instruction: it shows a no-operation. -/
structure IF2ID.Idle (r : IF2ID) : Prop where
  inst : r.inst_output = ZeroWord
  tlbl : r.is_inst_tlbl_output = false

/-- An execute register without an instruction. -/
structure ID_EX.Slot.Idle (r : ID_EX.Slot) : Prop where
  aluop : r.ex_aluop = .EXE_NOP_OP ∨ r.ex_aluop = .EXE_SLL_OP
  wd : r.ex_wd = 0#5
  excepttype : r.ex_excepttype = .zero

/-- A memory register without an instruction. -/
structure EX2MEM.Idle (r : EX2MEM) : Prop where
  aluop : r.mem_aluop = .EXE_NOP_OP ∨ r.mem_aluop = .EXE_SLL_OP
  waddr : r.mem_waddr = 0#5
  excepttype : r.mem_excepttype = .zero
  cp0_reg_we : r.mem_cp0_reg_we = false
  whilo : r.mem_whilo = false

theorem ID_EX.Slot.Idle.isMem {r : ID_EX.Slot} (h : r.Idle) : r.ex_aluop.isMem = false := by
  obtain hop | hop := h.aluop <;> rw [hop] <;> rfl

theorem EX2MEM.Idle.isMem {r : EX2MEM} (h : r.Idle) : r.mem_aluop.isMem = false := by
  obtain hop | hop := h.aluop <;> rw [hop] <;> rfl

theorem EX2MEM.Idle.isTlbWrite {r : EX2MEM} (h : r.Idle) : r.mem_aluop.isTlbWrite = false := by
  obtain hop | hop := h.aluop <;> rw [hop] <;> rfl

/-- A write-back register without an instruction: it writes nothing. -/
structure MEM2WB.Idle (r : MEM2WB) : Prop where
  waddr : r.wb_waddr = 0#5
  cp0_reg_we : r.wb_cp0_reg_we = false
  whilo : r.wb_whilo = false

namespace CPU_TOP

open pipeline

section
variable {s : State} {i : Input}

theorem id_output_idle (h : s.if2id.Idle) (hrst : i.rst = false) : (id_output s i).Idle := by
  have hdec : id_decoded s i = ID.decode ZeroWord := by simp [id_decoded, hrst, h.inst]
  have hop : (ID.decode ZeroWord).aluop = .EXE_SLL_OP := by decide
  have hwd : (ID.decode ZeroWord).waddr = 0#5 := by decide
  refine ⟨.inr ?_, ?_, ?_⟩
  · simp only [id_output, hdec, hop]
  · simp only [id_output, hdec, hwd]
  · simp only [id_output, hdec, ID.excepttype_output, h.tlbl, Bool.false_and]
    decide

theorem ex_output_idle (h : s.id_ex.toSlot.Idle) : (ex_output s i).Idle := by
  refine ⟨h.aluop, h.wd, ?_, ?_, ?_⟩
  · obtain hop | hop := h.aluop <;>
      simp [ex_output, h.excepttype, EX.excepttype_output, EX.is_ADEL, EX.is_ADES, hop,
        ExceptFlags.zero]
  · obtain hop | hop := h.aluop <;> simp [ex_output, ex_cp0_output, EX.cp0_output, hop]
  · obtain hop | hop := h.aluop <;> simp [ex_output, ex_hilo_output, EX.hilo_output, hop]

theorem mem_output_idle (h : s.ex2mem.Idle) : (mem_output s i).Idle := by
  refine ⟨?_, ?_, ?_⟩ <;> simp [mem_output, h.waddr, h.cp0_reg_we, h.whilo]

end

namespace Execution

variable (e : Execution)

/-- What fetch delivers in cycle `t`. -/
def fetched (t : ℕ) : IF2ID := if_output (e.state t) (e.input t)

/-- The address of the instruction delivered in cycle `t`. -/
def pc (t : ℕ) : Word := (e.fetched t).PC_output

/-- The instruction word delivered in cycle `t`. -/
def inst (t : ℕ) : Word := (e.fetched t).inst_output

/-- Instruction `t` enters EX at the end of cycle `m`. -/
def IssuedAt (t m : ℕ) : Prop := e.ctl m = .go ∧ (e.slots m).id = some t

/-- Instruction `t` enters MEM at the end of cycle `m`. -/
def ExecutedAt (t m : ℕ) : Prop := (e.ctl m).Passes ∧ (e.slots m).ex = some t

/-- Instruction `t` enters WB at the end of cycle `m`. -/
def LeavesMemAt (t m : ℕ) : Prop := (e.ctl m).Passes ∧ (e.slots m).mem = some t

/-- The decode register holds the delivered instruction. -/
def HoldsId : Option ℕ → IF2ID → Prop
  | none, r => r.Idle
  | some t, r => r = e.fetched t

/-- The execute register holds what ID issued. -/
def HoldsEx : Option ℕ → ID_EX.Slot → Prop
  | none, r => r.Idle
  | some t, r => ∃ m, e.IssuedAt t m ∧ r = id_output (e.state m) (e.input m) ∧
      (e.state m).if2id = e.fetched t

/-- The memory register holds what EX computed from the issued operands. -/
def HoldsMem : Option ℕ → EX2MEM → Prop
  | none, r => r.Idle
  | some t, r => ∃ k, e.ExecutedAt t k ∧ r = ex_output (e.state k) (e.input k) ∧
      e.HoldsEx (some t) (e.state k).id_ex.toSlot

/-- The write-back register holds what MEM handed on. -/
def HoldsWb : Option ℕ → MEM2WB → Prop
  | none, r => r.Idle
  | some t, r => ∃ j, e.LeavesMemAt t j ∧ r = mem_output (e.state j) (e.input j)

variable {e} {n : ℕ}

theorem if_output_idle_zero : (if_output (e.state 0) (e.input 0)).Idle := by
  have hpc : (e.state 0).if_pc_reg.PC_output = ResetVector := by rw [if_pc_reg_zero]
  have hce : (e.state 0).if_pc_reg.chip_enable_flag = false := by rw [if_pc_reg_zero]
  have hmiss : mmu_is_tlbl_inst (e.state 0) (e.input 0) = false := by
    have hseg : mmu.checked ResetVector = false := by decide
    simp [mmu_is_tlbl_inst, mmu.is_tlbl_inst, hpc, hseg]
  have hheld : (e.state 0).iwishbone.cpu_data_output = ZeroWord := by
    simp [state, step, wishbone_bus.next, e.reset1_rst, wishbone_bus.cpu_data_output]
  refine ⟨?_, hmiss⟩
  simp [if_output, hmiss, inst_input, wishbone_bus.cpu_data_output, e.input_rst 0, ibus_idle_zero,
    ibus_request, rom_ce, hce, hheld]

/-! What each register is loaded with belongs to the instruction that moves into it. -/

theorem holdsId_if_output (n : ℕ) :
    e.HoldsId (if (e.state n).if_pc_reg.chip_enable_flag then some n else none)
      (if_output (e.state n) (e.input n)) := by
  cases n with
  | zero =>
    have hce : (e.state 0).if_pc_reg.chip_enable_flag = false := by rw [if_pc_reg_zero]
    simpa [hce, HoldsId] using if_output_idle_zero
  | succ n => simp [chip_enable_succ, HoldsId, fetched]

theorem holdsEx_id_output (hid : e.HoldsId (e.slots n).id (e.state n).if2id) (hgo : e.ctl n = .go) :
    e.HoldsEx (e.slots n).id (id_output (e.state n) (e.input n)) := by
  cases hslot : (e.slots n).id with
  | none =>
    rw [hslot] at hid
    exact id_output_idle hid (e.input_rst n)
  | some t =>
    rw [hslot] at hid
    exact ⟨n, ⟨hgo, hslot⟩, rfl, hid⟩

theorem holdsMem_ex_output (hex : e.HoldsEx (e.slots n).ex (e.state n).id_ex.toSlot)
    (hpass : (e.ctl n).Passes) : e.HoldsMem (e.slots n).ex (ex_output (e.state n) (e.input n)) := by
  cases hslot : (e.slots n).ex with
  | none =>
    rw [hslot] at hex
    exact ex_output_idle hex
  | some t =>
    rw [hslot] at hex
    exact ⟨n, ⟨hpass, hslot⟩, rfl, hex⟩

theorem holdsWb_mem_output (hmem : e.HoldsMem (e.slots n).mem (e.state n).ex2mem)
    (hpass : (e.ctl n).Passes) :
    e.HoldsWb (e.slots n).mem (mem_output (e.state n) (e.input n)) := by
  cases hslot : (e.slots n).mem with
  | none =>
    rw [hslot] at hmem
    exact mem_output_idle hmem
  | some t => exact ⟨n, ⟨hpass, hslot⟩, rfl⟩

/-- Every pipeline register holds the instruction its ghost slot names, and shows a
no-operation when the slot is empty. -/
theorem contents (n : ℕ) :
    Regs.Rel e.HoldsId e.HoldsEx e.HoldsMem e.HoldsWb (e.slots n) (e.state n).regs := by
  have hempty : Regs.Rel e.HoldsId e.HoldsEx e.HoldsMem e.HoldsWb Slots.empty bubbles :=
    ⟨⟨rfl, rfl⟩, ⟨.inl rfl, rfl, rfl⟩, ⟨.inl rfl, rfl, rfl, rfl, rfl⟩, ⟨rfl, rfl, rfl⟩⟩
  induction n with
  | zero =>
    rwa [regs_zero]
  | succ n ih =>
    rw [regs_succ]
    exact Regs.Rel.advance hempty ih (fun _ => holdsId_if_output n) (holdsEx_id_output ih.id)
      (holdsMem_ex_output ih.ex) (holdsWb_mem_output ih.mem)

end Execution

end CPU_TOP

end mips32s
