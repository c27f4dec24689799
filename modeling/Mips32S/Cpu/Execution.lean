import Mips32S.Cpu.Top
import Mips32S.Lib.Pipeline

namespace mips32s.CPU_TOP

open pipeline

/-- What the stall and flush wires of a cycle mean for the pipeline registers. -/
def ctl (s : State) (i : Input) : Ctl :=
  if flush s i then .flush
  else if bubblereq_from_mem s i then .holdMem
  else if bubblereq_from_id s i || bubblereq_from_if s i then .holdDecode
  else .go

def State.regs (s : State) : Regs IF2ID ID_EX.Slot EX2MEM MEM2WB :=
  ⟨s.if2id, s.id_ex.toSlot, s.ex2mem, s.mem2wb⟩

def bubbles : Regs IF2ID ID_EX.Slot EX2MEM MEM2WB := ⟨.bubble, .bubble, .bubble, .bubble⟩

/-- What fetch offers to the decode register. -/
def if_output (s : State) (i : Input) : IF2ID :=
  ⟨s.if_pc_reg.PC_output, if mmu_is_tlbl_inst s i then ZeroWord else inst_input s i,
    mmu_is_tlbl_inst s i⟩

/-- What the pipeline registers are loaded with. -/
def loaded (s : State) (i : Input) : Regs IF2ID ID_EX.Slot EX2MEM MEM2WB :=
  ⟨if_output s i, id_output s i, ex_output s i, mem_output s i⟩

section
variable {s : State} {i : Input} (hrst : i.rst = false)
include hrst

theorem flush_eq : flush s i = (mem_excepttype_output s i != .none) := by
  simp [flush, ctrl.flush, hrst]

theorem flush_eq_false_iff : flush s i = false ↔ mem_excepttype_output s i = .none := by
  simp [flush_eq hrst]

theorem ctl_eq_flush_iff : ctl s i = .flush ↔ mem_excepttype_output s i ≠ .none := by
  have hflush : flush s i = true ↔ mem_excepttype_output s i ≠ .none := by simp [flush_eq hrst]
  rw [← hflush]
  unfold ctl
  split_ifs <;> simp_all

theorem bubble_eq :
    bubble s i = match ctl s i with
      | .go | .flush => 0b000000#6
      | .holdDecode => 0b000111#6
      | .holdMem => 0b011111#6 := by
  unfold bubble ctrl.stall ctl
  rw [flush_eq hrst]
  by_cases hexc : mem_excepttype_output s i = .none
  · cases bubblereq_from_mem s i <;> cases bubblereq_from_id s i <;> cases bubblereq_from_if s i <;>
      simp [hrst, hexc]
  · simp [hrst, hexc]

theorem bubble_eq_zero_iff : bubble s i = 0#6 ↔ ctl s i = .go ∨ ctl s i = .flush := by
  rw [bubble_eq hrst]
  cases ctl s i <;> simp

theorem flush_eq_decide : flush s i = decide (ctl s i = .flush) := by
  rw [Bool.eq_iff_iff, decide_eq_true_iff, ctl_eq_flush_iff hrst, flush_eq hrst]
  simp

theorem regs_step : (step s i).regs = Regs.advance (ctl s i) bubbles (loaded s i) s.regs := by
  simp only [step, State.regs, IF2ID.next, ID_EX.next, EX2MEM.next, MEM2WB.next, hrst,
    Bool.false_or, bubble_eq hrst, flush_eq_decide hrst]
  cases ctl s i <;> rfl

theorem no_data_fault (hmem : s.ex2mem.mem_aluop.isMem = false) :
    mmu_is_tlbl_data s i = false ∧ mmu_is_tlbs s i = false ∧ mmu_is_tlb_modify s i = false := by
  have haddr : ram_addr_output s i = ZeroWord := by
    simp [ram_addr_output, mem.mem_addr_output, hrst, hmem]
  simp [mmu_is_tlbl_data, mmu_is_tlbs, mmu_is_tlb_modify, mmu.is_tlbl_data, mmu.is_tlbs,
    mmu.is_tlb_modify, haddr]

theorem is_in_delayslot_output_step :
    (step s i).id_ex.is_in_delayslot_output = match ctl s i with
      | .flush => false
      | .go => (id_decoded s i).next_inst_in_delayslot
      | .holdDecode | .holdMem => s.id_ex.is_in_delayslot_output := by
  simp only [step, ID_EX.next, hrst, Bool.false_or, bubble_eq hrst, flush_eq_decide hrst]
  cases ctl s i <;> rfl

theorem PC_output_step (hce : s.if_pc_reg.chip_enable_flag = true) :
    (step s i).if_pc_reg.PC_output = match ctl s i with
      | .flush => new_pc s i
      | .go =>
        if id_branch_flag_output s i then branch_target_addr s i else s.if_pc_reg.PC_output + 4#32
      | .holdDecode | .holdMem => s.if_pc_reg.PC_output := by
  simp only [step, IF_PC_Reg.next, hce, bubble_eq hrst, flush_eq_decide hrst]
  cases ctl s i <;> rfl

theorem ctl_eq_go_iff :
    ctl s i = .go ↔ mem_excepttype_output s i = .none ∧ bubblereq_from_mem s i = false ∧
      bubblereq_from_id s i = false ∧ bubblereq_from_if s i = false := by
  rw [← flush_eq_false_iff hrst]
  unfold ctl
  cases bubblereq_from_id s i <;> cases bubblereq_from_if s i <;> split_ifs <;> simp_all

theorem ctl_passes_iff :
    (ctl s i).Passes ↔ mem_excepttype_output s i = .none ∧ bubblereq_from_mem s i = false := by
  rw [← flush_eq_false_iff hrst]
  unfold Ctl.Passes ctl
  split_ifs <;> simp_all

theorem ctl_eq_holdMem_iff :
    ctl s i = .holdMem ↔ mem_excepttype_output s i = .none ∧ bubblereq_from_mem s i = true := by
  rw [← flush_eq_false_iff hrst]
  unfold ctl
  split_ifs <;> simp_all

theorem ctl_eq_holdDecode_iff :
    ctl s i = .holdDecode ↔ mem_excepttype_output s i = .none ∧ bubblereq_from_mem s i = false ∧
      (bubblereq_from_id s i = true ∨ bubblereq_from_if s i = true) := by
  rw [← flush_eq_false_iff hrst]
  unfold ctl
  split_ifs <;> simp_all

end

/-- A run of the processor from reset: any power-up state, reset held for two clock
edges, then any inputs for ever. -/
structure Execution where
  power_up : State
  reset0 : Input
  reset1 : Input
  input : ℕ → Input
  reset0_rst : reset0.rst = true
  reset1_rst : reset1.rst = true
  input_rst : ∀ n, (input n).rst = false

namespace Execution

variable (e : Execution)

/-- The state at the beginning of cycle `n` after reset. -/
def state : ℕ → State
  | 0 => step (step e.power_up e.reset0) e.reset1
  | n + 1 => step (state n) (e.input n)

def ctl (n : ℕ) : Ctl := CPU_TOP.ctl (e.state n) (e.input n)

def excepttype (n : ℕ) : ExceptType := mem_excepttype_output (e.state n) (e.input n)

/-- The delivery cycles of the instructions in the pipeline registers. -/
def slots (n : ℕ) : Slots :=
  pipeline.slots e.ctl (fun n => (e.state n).if_pc_reg.chip_enable_flag) n

/-- Cycle `t` delivers an instruction. -/
def Delivered (t : ℕ) : Prop :=
  pipeline.Delivered e.ctl (fun n => (e.state n).if_pc_reg.chip_enable_flag) t

instance (t : ℕ) : Decidable (e.Delivered t) := inferInstanceAs (Decidable (_ ∧ _))

variable {e}

theorem state_succ (n : ℕ) : e.state (n + 1) = step (e.state n) (e.input n) := rfl

theorem slots_succ (n : ℕ) :
    e.slots (n + 1) = (e.slots n).next (e.ctl n)
      (if (e.state n).if_pc_reg.chip_enable_flag then some n else none) := rfl

theorem ctl_eq_flush (n : ℕ) : e.ctl n = .flush ↔ e.excepttype n ≠ .none :=
  ctl_eq_flush_iff (e.input_rst n)

theorem flush_iff (n : ℕ) : flush (e.state n) (e.input n) = true ↔ e.ctl n = .flush := by
  rw [flush_eq_decide (e.input_rst n), decide_eq_true_iff, ctl]

theorem flush_eq_false {n : ℕ} (h : e.ctl n ≠ .flush) : flush (e.state n) (e.input n) = false := by
  rwa [← Bool.not_eq_true, flush_iff]

theorem chip_enable_succ (n : ℕ) : (e.state (n + 1)).if_pc_reg.chip_enable_flag = true := by
  simp [state_succ, step, IF_PC_Reg.next, e.input_rst n]

theorem if_pc_reg_zero : (e.state 0).if_pc_reg = ⟨ResetVector, false⟩ := by
  simp [state, step, IF_PC_Reg.next, e.reset0_rst, e.reset1_rst]

theorem ibus_idle_zero : (e.state 0).iwishbone.wishbone_state = .WB_IDLE := by
  simp [state, step, wishbone_bus.next, e.reset1_rst, wishbone_bus.State.reset,
    wishbone_bus.State.release]

theorem dbus_idle_zero : (e.state 0).dwishbone.wishbone_state = .WB_IDLE := by
  simp [state, step, wishbone_bus.next, e.reset1_rst, wishbone_bus.State.reset,
    wishbone_bus.State.release]

theorem regs_zero : (e.state 0).regs = bubbles := by
  simp [state, step, State.regs, IF2ID.next, ID_EX.next, EX2MEM.next, MEM2WB.next, e.reset1_rst,
    bubbles]

theorem regs_succ (n : ℕ) :
    (e.state (n + 1)).regs =
      Regs.advance (e.ctl n) bubbles (loaded (e.state n) (e.input n)) (e.state n).regs :=
  regs_step (e.input_rst n)

/-! The same, register by register. -/

theorem if2id_succ (n : ℕ) : (e.state (n + 1)).if2id = match e.ctl n with
    | .go => if_output (e.state n) (e.input n)
    | .holdDecode | .holdMem => (e.state n).if2id
    | .flush => .bubble := by
  refine (congrArg Regs.id (regs_succ n)).trans ?_
  cases e.ctl n <;> rfl

theorem id_ex_succ (n : ℕ) : (e.state (n + 1)).id_ex.toSlot = match e.ctl n with
    | .go => id_output (e.state n) (e.input n)
    | .holdMem => (e.state n).id_ex.toSlot
    | .holdDecode | .flush => .bubble := by
  refine (congrArg Regs.ex (regs_succ n)).trans ?_
  cases e.ctl n <;> rfl

theorem ex2mem_succ (n : ℕ) : (e.state (n + 1)).ex2mem = match e.ctl n with
    | .go | .holdDecode => ex_output (e.state n) (e.input n)
    | .holdMem => (e.state n).ex2mem
    | .flush => .bubble := by
  refine (congrArg Regs.mem (regs_succ n)).trans ?_
  cases e.ctl n <;> rfl

theorem mem2wb_succ (n : ℕ) : (e.state (n + 1)).mem2wb = match e.ctl n with
    | .go | .holdDecode => mem_output (e.state n) (e.input n)
    | .holdMem | .flush => .bubble := by
  refine (congrArg Regs.wb (regs_succ n)).trans ?_
  cases e.ctl n <;> rfl

def zeroBus : wishbone_bus.State :=
  ⟨.WB_IDLE, ZeroWord, ZeroWord, false, 0#4, false, false, ZeroWord, ZeroWord⟩

def zeroState : State where
  if_pc_reg := ⟨ZeroWord, false⟩
  if2id := .bubble
  id_ex := ⟨.bubble, false⟩
  ex2mem := .bubble
  mem2wb := .bubble
  reg_dir := fun _ => ZeroWord
  hilo := (ZeroWord, ZeroWord)
  cp0 := ⟨ZeroWord, ZeroWord, ZeroWord, ZeroWord, ZeroWord, ZeroWord, false, ZeroWord, ZeroWord,
    ZeroWord, ZeroWord, ZeroWord, ZeroWord, ZeroWord⟩
  mmu := ⟨fun _ => 0#63, 0, 0, 0⟩
  dwishbone := zeroBus
  iwishbone := zeroBus
  id_reg1_held := ZeroWord
  id_reg2_held := ZeroWord
  ex_held := ⟨0#64, ZeroWord, 0#5⟩
  mem_held := ⟨ZeroWord, ZeroWord, ZeroWord, ZeroWord, ZeroWord, ZeroWord⟩
  new_pc_held := ZeroWord

/-- The run from `zeroState` in which the interrupt lines are constant, both buses
acknowledge at once, the `k`-th word the instruction bus returns is `words[k]` as
long as nothing but fetching stalls, and the data bus returns zero. -/
def straight (int_input : BitVec 8) (words : List Word) : Execution where
  power_up := zeroState
  reset0 := ⟨true, 0#8, ZeroWord, false, ZeroWord, false⟩
  reset1 := ⟨true, 0#8, ZeroWord, false, ZeroWord, false⟩
  input n := ⟨false, int_input, words.getD (n / 2 - 1) ZeroWord, true, ZeroWord, true⟩
  reset0_rst := rfl
  reset1_rst := rfl
  input_rst _ := rfl

end Execution

end mips32s.CPU_TOP
