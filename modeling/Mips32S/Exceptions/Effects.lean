import Mips32S.Bus.DataBus
import Mips32S.Pipeline.Boot

namespace mips32s.CPU_TOP

open pipeline

/-- The architectural side effects of an instruction: on the general registers, on
HI and LO, on CP0, on the TLB, and on memory or devices over the data bus. -/
inductive Effect where
  | gpr | hilo | cp0 | tlb | bus

namespace Execution

variable {e : Execution} {n k t : ℕ}

def op (e : Execution) (t : ℕ) : AluOp := (ID.decode (e.inst t)).aluop

/-- Instruction `t` performs a side effect in cycle `k`: the first three from WB,
the TLB write and the start of a data transaction from MEM. -/
def Performs (e : Execution) (t k : ℕ) : Effect → Prop
  | .gpr => (e.slots k).wb = some t ∧ (e.state k).mem2wb.wb_wreg = true ∧
      (e.state k).mem2wb.wb_waddr ≠ 0#5
  | .hilo => (e.slots k).wb = some t ∧ (e.state k).mem2wb.wb_whilo = true
  | .cp0 => (e.slots k).wb = some t ∧ (e.state k).mem2wb.wb_cp0_reg_we = true
  | .tlb => (e.slots k).mem = some t ∧ (e.state k).ex2mem.mem_aluop.isTlbWrite = true
  | .bus => (e.slots k).mem = some t ∧ e.DStarts k

def Demands (e : Execution) (t : ℕ) : Effect → Prop
  | .gpr => (ID.decode (e.inst t)).wreg = true ∧ (ID.decode (e.inst t)).waddr ≠ 0#5
  | .hilo => (e.op t).writesHilo = true
  | .cp0 => (e.op t).writesCp0 = true
  | .tlb => (e.op t).isTlbWrite = true
  | .bus => (e.op t).isMem = true

/-- CP0 after cycle `k` if an instruction does `write` to it: the counters and the
interrupt lines come before, what exception entry writes comes after. -/
def cp0After (e : Execution) (k : ℕ) (write : cp0_reg.State → cp0_reg.State) : cp0_reg.State :=
  let s := e.state k
  let i := e.input k
  { (write (s.cp0.tick i.int_input)).except (e.excepttype k) s.ex2mem.mem_current_inst_addr
      s.ex2mem.mem_is_in_delayslot s.ex2mem.mem_mem_addr
      (mem.badvaddr_output s.ex2mem.mem_excepttype s.ex2mem.mem_current_inst_addr
        (mmu_badvaddr s i)) with
    data_output := cp0_reg.data_output false (cp0_raddr s i) i.int_input s.cp0 }

/-- What the state becomes by the side effect of instruction `t` in cycle `k`. The
registers take what the instruction had when it left MEM in cycle `j`; the TLB takes
its entry from CP0; the data bus carries its request. -/
def Takes (e : Execution) (t k : ℕ) : Effect → Prop
  | .gpr => ∃ j, e.LeavesMemAt t j ∧ ∀ a, (e.state (k + 1)).reg_dir a =
      if a = (ID.decode (e.inst t)).waddr then (mem_output (e.state j) (e.input j)).wb_wdata
      else (e.state k).reg_dir a
  | .hilo => ∃ j, e.LeavesMemAt t j ∧ (e.state (k + 1)).hilo =
      ((mem_output (e.state j) (e.input j)).wb_hi, (mem_output (e.state j) (e.input j)).wb_lo)
  | .cp0 => ∃ j, e.LeavesMemAt t j ∧ (e.state (k + 1)).cp0 =
      e.cp0After k fun c =>
        c.write (mem_cp0 (e.state j) (e.input j)) (tlb_read_struct (e.state j) (e.input j))
  | .tlb => ∀ a, (e.state (k + 1)).mmu.tlb_entry a =
      if a = (mem.tlb_write_index (e.op t) (mem_cp0_random (e.state k) (e.input k))
        (mem_cp0_index (e.state k) (e.input k))).toFin
      then mem.tlb_write_entry (mem_cp0_entryhi (e.state k) (e.input k))
        (mem_cp0_entrylo1 (e.state k) (e.input k)) (mem_cp0_entrylo0 (e.state k) (e.input k))
      else (e.state k).mmu.tlb_entry a
  | .bus => e.DBusy (k + 1) ∧
      wishbone_bus.Drives (dbus_request (e.state k) (e.input k)) (e.state (k + 1)).dwishbone

/-- What changes in cycle `k` is the effect of some instruction, and an effect
performed in cycle `k` changes the state as the instruction says. -/
structure Attributed (e : Execution) (k : ℕ) : Prop where
  takes : ∀ t eff, e.Performs t k eff → e.Takes t k eff
  gpr : (∀ t, ¬ e.Performs t k .gpr) → (e.state (k + 1)).reg_dir = (e.state k).reg_dir
  hilo : (∀ t, ¬ e.Performs t k .hilo) → (e.state (k + 1)).hilo = (e.state k).hilo
  cp0 : (∀ t, ¬ e.Performs t k .cp0) → (e.state (k + 1)).cp0 = e.cp0After k id
  tlb : (∀ t, ¬ e.Performs t k .tlb) → (e.state (k + 1)).mmu.tlb_entry = (e.state k).mmu.tlb_entry
  bus : (∀ t, ¬ e.Performs t k .bus) → e.DBusy (k + 1) → e.DBusy k

theorem Performs.takes {eff : Effect} (h : e.Performs t k eff) : e.Takes t k eff := by
  have hrst := e.input_rst k
  cases eff with
  | gpr =>
    obtain ⟨hslot, hwreg, hwaddr⟩ := h
    obtain ⟨j, hleave, hr⟩ := holdsWb hslot
    refine ⟨j, hleave, fun a => ?_⟩
    rw [← (inWb hslot).waddr, ← hr]
    exact congrFun (if_pos ⟨hrst, hwreg, hwaddr⟩) a
  | hilo =>
    obtain ⟨j, hleave, hr⟩ := holdsWb h.1
    refine ⟨j, hleave, ?_⟩
    rw [← hr]
    simp [state_succ, step, hilo_reg.next, hrst, wb_hilo, h.2]
  | cp0 =>
    obtain ⟨j, hleave, hr⟩ := holdsWb h.1
    refine ⟨j, hleave, ?_⟩
    have htlb : tlb_read_struct (e.state j) (e.input j) = (e.state k).mem2wb.tlb_write_struct := by
      rw [hr]
      rfl
    rw [mem_cp0, htlb, ← hr]
    simp [state_succ, step, hrst, cp0After, cp0_reg.next, wb_cp0, excepttype]
  | tlb =>
    intro a
    have hop : (e.state k).ex2mem.mem_aluop = e.op t := (inMem h.1).aluop
    rw [← hop]
    simp [state_succ, step, mmu.next, hrst, h.2]
  | bus =>
    refine ⟨h.2.busy, ?_⟩
    rw [state_succ, dwishbone_step hrst]
    exact wishbone_bus.Starts.drives h.2

theorem attributed (e : Execution) (k : ℕ) : e.Attributed k := by
  have hrst := e.input_rst k
  refine ⟨fun _ _ => Performs.takes, fun h => ?_, fun h => ?_, fun h => ?_, fun h => ?_,
    fun h hbusy => ?_⟩
  · have hidle : ¬ ((e.state k).mem2wb.wb_wreg = true ∧ (e.state k).mem2wb.wb_waddr ≠ 0#5) := by
      cases hslot : (e.slots k).wb with
      | none => simp [(mem2wb_idle hslot).waddr]
      | some t => exact fun hw => h t ⟨hslot, hw⟩
    exact if_neg fun hw => hidle hw.2
  · have hidle : (e.state k).mem2wb.wb_whilo = false := by
      cases hslot : (e.slots k).wb with
      | none => exact (mem2wb_idle hslot).whilo
      | some t => simpa [Performs, hslot] using h t
    simp [state_succ, step, hilo_reg.next, hrst, wb_hilo, hidle]
  · have hidle : (e.state k).mem2wb.wb_cp0_reg_we = false := by
      cases hslot : (e.slots k).wb with
      | none => exact (mem2wb_idle hslot).cp0_reg_we
      | some t => simpa [Performs, hslot] using h t
    simp [state_succ, step, hrst, cp0After, cp0_reg.next, cp0_reg.State.write, wb_cp0, hidle,
      excepttype]
  · have hidle : (e.state k).ex2mem.mem_aluop.isTlbWrite = false := by
      cases hslot : (e.slots k).mem with
      | none => exact (ex2mem_idle hslot).isTlbWrite
      | some t => simpa [Performs, hslot] using h t
    simp [state_succ, step, mmu.next, hrst, hidle]
  · rw [DBusy, state_succ, dwishbone_step hrst] at hbusy
    obtain hstart | ⟨hprev, -, -⟩ := wishbone_bus.busy_cases hbusy
    · have hmem := CPU_TOP.DStarts.isMem hstart
      cases hslot : (e.slots k).mem with
      | none => exact absurd hmem (by simp [(ex2mem_idle hslot).isMem])
      | some t => exact absurd ⟨hslot, hstart⟩ (h t)
    · exact hprev

theorem Performs.demands {eff : Effect} (h : e.Performs t k eff) : e.Demands t eff := by
  cases eff with
  | gpr =>
    obtain ⟨hslot, hwreg, hwaddr⟩ := h
    rw [(inWb hslot).wreg] at hwreg
    rw [(inWb hslot).waddr] at hwaddr
    exact ⟨hwreg, hwaddr⟩
  | hilo => exact (inWb h.1).whilo.symm.trans h.2
  | cp0 => exact (inWb h.1).cp0_reg_we.symm.trans h.2
  | tlb => exact (congrArg AluOp.isTlbWrite (inMem h.1).aluop).symm.trans h.2
  | bus => exact (congrArg AluOp.isMem (inMem h.1).aluop).symm.trans (CPU_TOP.DStarts.isMem h.2)

end Execution

end mips32s.CPU_TOP
