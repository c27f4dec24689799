import Mips32S.Pipeline.Contents
import Mips32S.Pipeline.Decoded

namespace mips32s.CPU_TOP.Execution

open pipeline
variable {e : Execution} {n t : ℕ}

/-- The pending exceptions decode attaches to instruction `t`. -/
def decodeFlags (e : Execution) (t : ℕ) : ExceptFlags :=
  ID.excepttype_output (ID.decode (e.inst t)) (e.pc t) (e.fetched t).is_inst_tlbl_output

theorem if2id_eq (h : (e.slots n).id = some t) : (e.state n).if2id = e.fetched t := by
  have hid := (e.contents n).id
  rwa [h] at hid

theorem if2id_idle (h : (e.slots n).id = none) : (e.state n).if2id.Idle := by
  have hid := (e.contents n).id
  rwa [h] at hid

theorem id_ex_idle (h : (e.slots n).ex = none) : (e.state n).id_ex.toSlot.Idle := by
  have hex := (e.contents n).ex
  rwa [h] at hex

theorem ex2mem_idle (h : (e.slots n).mem = none) : (e.state n).ex2mem.Idle := by
  have hmem := (e.contents n).mem
  rwa [h] at hmem

theorem mem2wb_idle (h : (e.slots n).wb = none) : (e.state n).mem2wb.Idle := by
  have hwb := (e.contents n).wb
  rwa [h] at hwb

theorem holdsEx (h : (e.slots n).ex = some t) : e.HoldsEx (some t) (e.state n).id_ex.toSlot := by
  have hex := (e.contents n).ex
  rwa [h] at hex

theorem holdsMem (h : (e.slots n).mem = some t) : e.HoldsMem (some t) (e.state n).ex2mem := by
  have hmem := (e.contents n).mem
  rwa [h] at hmem

theorem inst_eq_zero_of_tlbl (h : (e.fetched t).is_inst_tlbl_output = true) :
    e.inst t = ZeroWord := by
  have hmiss : mmu_is_tlbl_inst (e.state t) (e.input t) = true := h
  simp [inst, fetched, if_output, hmiss]

/-- What the execute register says about its instruction, whatever the operands. -/
structure InEx (e : Execution) (t : ℕ) (r : ID_EX.Slot) : Prop where
  current_inst_addr : r.ex_current_inst_addr = e.pc t
  inst : r.ex_inst = e.inst t
  aluop : r.ex_aluop = (ID.decode (e.inst t)).aluop
  wreg : r.ex_wreg = (ID.decode (e.inst t)).wreg
  wd : r.ex_wd = (ID.decode (e.inst t)).waddr
  excepttype : r.ex_excepttype = e.decodeFlags t

theorem inEx_of_holds {r : ID_EX.Slot} (h : e.HoldsEx (some t) r) : e.InEx t r := by
  obtain ⟨m, -, rfl, hif⟩ := h
  have hdec : id_decoded (e.state m) (e.input m) = ID.decode (e.inst t) := by
    simp [id_decoded, e.input_rst m, hif, Execution.inst]
  exact ⟨by simp only [id_output, hif, Execution.pc], by simp only [id_output, hif, Execution.inst],
    by simp only [id_output, hdec], by simp only [id_output, hdec], by simp only [id_output, hdec],
    by simp only [id_output, hdec, hif, decodeFlags, Execution.pc]⟩

theorem inEx (h : (e.slots n).ex = some t) : e.InEx t (e.state n).id_ex.toSlot :=
  inEx_of_holds (holdsEx h)

/-- What the memory register says about its instruction, whatever the operands. -/
structure InMem (e : Execution) (t : ℕ) (r : EX2MEM) : Prop where
  current_inst_addr : r.mem_current_inst_addr = e.pc t
  aluop : r.mem_aluop = (ID.decode (e.inst t)).aluop
  wreg : r.mem_wreg = (ID.decode (e.inst t)).wreg
  waddr : r.mem_waddr = (ID.decode (e.inst t)).waddr
  whilo : r.mem_whilo = (ID.decode (e.inst t)).aluop.writesHilo
  cp0_reg_we : r.mem_cp0_reg_we = (ID.decode (e.inst t)).aluop.writesCp0
  excepttype : r.mem_excepttype = EX.excepttype_output (e.decodeFlags t) r.mem_aluop r.mem_mem_addr

theorem hilo_output_whilo (op : AluOp) (reg1 : Word) (cur : Word × Word) (mul : BitVec 64) :
    (EX.hilo_output false op reg1 cur mul).whilo = op.writesHilo := by
  cases op <;> rfl

theorem cp0_output_we (op : AluOp) (inst reg1 : Word) :
    (EX.cp0_output false op inst reg1).we = op.writesCp0 := by
  cases op <;> rfl

theorem inMem (h : (e.slots n).mem = some t) : e.InMem t (e.state n).ex2mem := by
  obtain ⟨k, -, hr, hex⟩ := holdsMem h
  obtain ⟨haddr, -, hop, hwreg, hwd, hflags⟩ := inEx_of_holds hex
  rw [hr]
  refine ⟨haddr, hop, hwreg, hwd, ?_, ?_, by simp only [ex_output, hflags]⟩
  · simp only [ex_output, ex_hilo_output, e.input_rst k, hilo_output_whilo, hop]
  · simp only [ex_output, ex_cp0_output, e.input_rst k, cp0_output_we, hop]

/-- What the write-back register says about its instruction. -/
structure InWb (e : Execution) (t : ℕ) (r : MEM2WB) : Prop where
  wreg : r.wb_wreg = (ID.decode (e.inst t)).wreg
  waddr : r.wb_waddr = (ID.decode (e.inst t)).waddr
  whilo : r.wb_whilo = (ID.decode (e.inst t)).aluop.writesHilo
  cp0_reg_we : r.wb_cp0_reg_we = (ID.decode (e.inst t)).aluop.writesCp0

theorem holdsWb (h : (e.slots n).wb = some t) : e.HoldsWb (some t) (e.state n).mem2wb := by
  have hwb := (e.contents n).wb
  rwa [h] at hwb

theorem inWb (h : (e.slots n).wb = some t) : e.InWb t (e.state n).mem2wb := by
  obtain ⟨j, ⟨-, hslot⟩, hr⟩ := holdsWb h
  have hin := inMem hslot
  rw [hr]
  constructor <;> simp [mem_output, e.input_rst j, hin.wreg, hin.waddr, hin.whilo, hin.cp0_reg_we]

/-- In every reachable state an instruction in MEM that accesses data or writes the
TLB has no pending exception other than an address error. -/
theorem mem_quiet (h : (e.state n).ex2mem.mem_aluop.isMem = true ∨
    (e.state n).ex2mem.mem_aluop.isTlbWrite = true) :
    (e.state n).ex2mem.mem_excepttype.is_syscall = false ∧
      (e.state n).ex2mem.mem_excepttype.inst_invalid = false ∧
      (e.state n).ex2mem.mem_excepttype.is_eret = false ∧
      (e.state n).ex2mem.mem_excepttype.is_tlbl_inst = false := by
  cases hslot : (e.slots n).mem with
  | none => simp [(ex2mem_idle hslot).isMem, (ex2mem_idle hslot).isTlbWrite] at h
  | some t =>
    have hop := (inMem hslot).aluop
    have hflags := (inMem hslot).excepttype
    rw [hop] at h
    obtain ⟨heret, hsys, hinv⟩ := ID.decode_quiet h
    have htlbl : (e.fetched t).is_inst_tlbl_output = false := by
      by_contra hmiss
      rw [inst_eq_zero_of_tlbl (by simpa using hmiss)] at h
      exact absurd h (by decide)
    rw [hflags]
    simp [EX.excepttype_output, decodeFlags, ID.excepttype_output, heret, hsys, hinv, htlbl]

end mips32s.CPU_TOP.Execution
