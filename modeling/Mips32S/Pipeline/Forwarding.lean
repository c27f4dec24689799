import Mips32S.Bus.DataBus

namespace mips32s

namespace Reg_Dir

variable {r waddr : RegAddr} {we : Bool} {wdata : Word} {regs : RegAddr → Word}

theorem next_apply (hr : r ≠ 0#5) :
    next false we waddr wdata regs r = if we = true ∧ waddr = r then wdata else regs r := by
  unfold next
  by_cases hw : we = true ∧ waddr = r
  · simp [hw, hr]
  · by_cases hzero : we = true ∧ waddr ≠ 0#5
    · have hne : r ≠ waddr := fun h => hw ⟨hzero.1, h.symm⟩
      simp [hzero, hne, hne.symm]
    · simp [hzero, hw]

theorem rdata_eq (hr : r ≠ 0#5) :
    rdata false we waddr wdata true r regs = next false we waddr wdata regs r := by
  rw [next_apply hr]
  simp [rdata, hr, eq_comm, and_comm]

end Reg_Dir

namespace CPU_TOP

open pipeline

/-- The two read ports of ID. -/
inductive Port where
  | reg1 | reg2
  deriving DecidableEq

namespace Port

/-- The port reads a general register in this cycle. -/
def read (s : State) (i : Input) : Port → Bool
  | reg1 => (id_decoded s i).reg1_read
  | reg2 => (id_decoded s i).reg2_read

def addr (s : State) (i : Input) : Port → RegAddr
  | reg1 => (id_decoded s i).reg1_addr
  | reg2 => (id_decoded s i).reg2_addr

/-- The operand the port delivers. -/
def operand (s : State) (i : Input) : Port → Word
  | reg1 => id_reg1_output s i
  | reg2 => id_reg2_output s i

end Port

/-- The register file after the instructions in WB, MEM and EX have written their
results, in this order. A load in EX is to receive `data`. -/
def drained (s : State) (i : Input) (data : Word) : RegAddr → Word :=
  Reg_Dir.next false s.id_ex.ex_wreg s.id_ex.ex_wd
    (mem.wdata_output false s.id_ex.ex_aluop (EX.mem_addr_output s.id_ex.ex_reg1 s.id_ex.ex_inst)
      (ex_wdata_output s i) data)
    (Reg_Dir.next false (mem_output s i).wb_wreg (mem_output s i).wb_waddr (mem_output s i).wb_wdata
      (Reg_Dir.next false s.mem2wb.wb_wreg s.mem2wb.wb_waddr s.mem2wb.wb_wdata s.reg_dir))

/-- The architectural value of a general register; register 0 is zero. -/
def gpr (regs : RegAddr → Word) (r : RegAddr) : Word := if r = 0#5 then ZeroWord else regs r

/-- The result that forwarding would put in place of register 0 is zero: that of the
instruction in EX if its destination is register 0, else that of the one in MEM. -/
def ZeroForwarded (s : State) (i : Input) : Prop :=
  if s.id_ex.ex_wreg = true ∧ s.id_ex.ex_wd = 0#5 then ex_wdata_output s i = ZeroWord
  else (mem_output s i).wb_wreg = true → (mem_output s i).wb_waddr = 0#5 →
    (mem_output s i).wb_wdata = ZeroWord

section
variable {s : State} {i : Input} {p : Port}

theorem Port.operand_eq_reg_output (p : Port) : ∃ imm held, p.operand s i =
    ID.reg_output i.rst (id_forward s i) (p.read s i) (p.addr s i) imm
      (reg_data s i (p.read s i) (p.addr s i)) held := by
  cases p <;> exact ⟨_, _, rfl⟩

section
variable (hrst : i.rst = false) (hstall : bubblereq_from_id s i = false) (hread : p.read s i = true)
include hrst hstall hread

theorem not_waiting : ¬ (s.id_ex.ex_aluop.isLoad = true ∧ s.id_ex.ex_wd = p.addr s i) := by
  have hport : ID.bubble_require_wait_for_load i.rst (id_forward s i) (p.read s i) (p.addr s i) =
      false := by
    rw [bubblereq_from_id, Bool.or_eq_false_iff] at hstall
    cases p with
    | reg1 => exact hstall.1
    | reg2 => exact hstall.2
  rintro ⟨hload, haddr⟩
  exact absurd hport (by simp [ID.bubble_require_wait_for_load, hrst, id_forward, hload, haddr,
    hread])

/-- A reading port delivers the result of EX, else of MEM, else what the register
file shows. -/
theorem operand_eq :
    p.operand s i = if s.id_ex.ex_wreg = true ∧ s.id_ex.ex_wd = p.addr s i then ex_wdata_output s i
      else if (mem_output s i).wb_wreg = true ∧
        (mem_output s i).wb_waddr = p.addr s i then (mem_output s i).wb_wdata
      else reg_data s i true (p.addr s i) := by
  obtain ⟨imm, held, hop⟩ := p.operand_eq_reg_output
  have hwait := not_waiting hrst hstall hread
  rw [hop, ID.reg_output, hrst, hread, Bool.and_true]
  simp only [Bool.and_eq_true, beq_iff_eq, Bool.false_eq_true, if_false, if_true]
  exact if_neg hwait

end

theorem wdata_output_of_not_isLoad {op : AluOp} (h : op.isLoad = false) (addr wdata data : Word) :
    mem.wdata_output false op addr wdata data = wdata := by
  cases op <;> first | rfl | exact absurd h (by decide)

/-- A reading port delivers the architectural value of its register, except that a
forwarded result may show through for register 0. -/
theorem operand_eq_gpr_iff (hrst : i.rst = false) (hstall : bubblereq_from_id s i = false)
    (hread : p.read s i = true) (data : Word) :
    p.operand s i = gpr (drained s i data) (p.addr s i) ↔
      (p.addr s i = 0#5 → ZeroForwarded s i) := by
  rw [operand_eq hrst hstall hread]
  by_cases hr : p.addr s i = 0#5
  · have hzero : reg_data s i true 0#5 = ZeroWord := by simp [reg_data, Reg_Dir.rdata]
    simp only [hr, gpr, ZeroForwarded, if_true, forall_const, hzero]
    split_ifs with hex hmem
    · rfl
    · simp [hmem]
    · simp only [true_iff]
      exact fun hw ha => absurd ⟨hw, ha⟩ hmem
  · have hwait := not_waiting hrst hstall hread
    simp only [hr, false_implies, iff_true, gpr, if_false, drained, Reg_Dir.next_apply hr, reg_data,
      hrst, Reg_Dir.rdata_eq hr]
    split_ifs with hex
    · rw [wdata_output_of_not_isLoad]
      by_contra hload
      exact hwait ⟨by simpa using hload, hex.2⟩
    all_goals rfl

end

namespace Execution

variable {e : Execution} {n m t K : ℕ}

theorem reg_dir_succ (n : ℕ) : (e.state (n + 1)).reg_dir =
    Reg_Dir.next false (e.state n).mem2wb.wb_wreg (e.state n).mem2wb.wb_waddr
      (e.state n).mem2wb.wb_wdata
      (e.state n).reg_dir := by
  simp only [state_succ, step, e.input_rst n]

theorem reg_dir_succ_of_bubble (h : (e.state n).mem2wb = .bubble) :
    (e.state (n + 1)).reg_dir = (e.state n).reg_dir := by
  rw [reg_dir_succ, h]
  rfl

/-- How the results older than an instruction issued in cycle `m` drain: as long as
it is in EX those of MEM and WB have been written and that of EX is in MEM, and once
it is in MEM all of them have been written. -/
structure Draining (e : Execution) (t m n : ℕ) : Prop where
  ex : (e.slots n).ex = some t → (e.state n).ex2mem = ex_output (e.state m) (e.input m) ∧
    (e.state (n + 1)).reg_dir =
      Reg_Dir.next false (mem_output (e.state m) (e.input m)).wb_wreg
        (mem_output (e.state m) (e.input m)).wb_waddr
        (mem_output (e.state m) (e.input m)).wb_wdata (e.state (m + 1)).reg_dir
  mem : (e.slots n).mem = some t →
    ∃ data, (e.state (n + 1)).reg_dir = drained (e.state m) (e.input m) data

theorem IssuedAt.draining (h : e.IssuedAt t m) : e.Draining t m (m + 1) := by
  obtain ⟨hgo, hid⟩ := h
  refine ⟨fun _ => ⟨?_, ?_⟩, fun h => ?_⟩
  · rw [ex2mem_succ, hgo]
  · rw [reg_dir_succ (m + 1), mem2wb_succ, hgo]
  · rw [slots_succ, hgo] at h
    exact absurd ((slots_ordered m).ex_id t h t hid) (lt_irrefl t)

theorem Draining.enters_mem (h : e.Draining t m n) (hctl : (e.ctl n).Passes)
    (hex : (e.slots n).ex = some t) :
    ∃ data, (e.state (n + 2)).reg_dir = drained (e.state m) (e.input m) data := by
  obtain ⟨hreg, hdir⟩ := h.ex hex
  refine ⟨ram_data_input (e.state n) (e.input n), ?_⟩
  have hwb : (e.state (n + 1)).mem2wb = mem_output (e.state n) (e.input n) := by
    obtain hctl | hctl := hctl <;> rw [mem2wb_succ, hctl]
  rw [reg_dir_succ (n + 1), hdir, hwb, reg_dir_succ m]
  simp [drained, mem_output, hreg, ex_output, e.input_rst n, e.input_rst m]

theorem Draining.succ (h : e.Draining t m n) (hid : (e.slots n).id ≠ some t) :
    e.Draining t m (n + 1) := by
  cases hctl : e.ctl n with
  | flush => exact ⟨fun hex => by simp [slots_succ, hctl, Slots.empty] at hex,
      fun hmem => by simp [slots_succ, hctl, Slots.empty] at hmem⟩
  | go =>
    refine ⟨fun hex => absurd ?_ hid, fun hmem => h.enters_mem (.inl hctl) ?_⟩
    · simpa [slots_succ, hctl] using hex
    · simpa [slots_succ, hctl] using hmem
  | holdDecode =>
    refine ⟨fun hex => ?_, fun hmem => h.enters_mem (.inr hctl) ?_⟩
    · simp [slots_succ, hctl] at hex
    · simpa [slots_succ, hctl] using hmem
  | holdMem =>
    have hbubble : (e.state (n + 1)).mem2wb = .bubble := by rw [mem2wb_succ, hctl]
    have hdir := reg_dir_succ_of_bubble hbubble
    refine ⟨fun hex => ?_, fun hmem => ?_⟩
    · obtain ⟨hreg, hold⟩ := h.ex (by simpa [slots_succ, hctl] using hex)
      exact ⟨by rw [ex2mem_succ, hctl, hreg], hdir.trans hold⟩
    · rw [hdir]
      exact h.mem (by simpa [slots_succ, hctl] using hmem)

/-- When an issued instruction is in MEM the register file is about to hold the results
of all older ones, as drained in the cycle of its issue. -/
theorem IssuedAt.reg_dir (h : e.IssuedAt t m) (hK : (e.slots K).mem = some t) :
    ∃ data, (e.state (K + 1)).reg_dir = drained (e.state m) (e.input m) data := by
  have hlt : m < K := by
    by_contra hle
    exact (not_front_of_back (.inl hK) (not_lt.mp hle)).1 h.2
  have hdrain : ∀ n, m < n → e.Draining t m n := by
    intro n hn
    induction n, hn using Nat.le_induction with
    | base => exact h.draining
    | succ n hn ih => exact ih.succ (id_ne_of_left h.2 h.1 hn)
  exact (hdrain K hlt).mem hK

/-- Operand forwarding. Whenever ID is not stalled, an operand read from a general
register is the architectural value of the register after the older instructions in
WB, MEM and EX, exactly when the register is not register 0 or no nonzero result is
forwarded for register 0. That value is what the register file really holds once the
older instructions are through. -/
theorem operand_forwarding (e : Execution) (n : ℕ) (p : Port) (hgo : e.ctl n = .go)
    (hread : p.read (e.state n) (e.input n) = true) :
    (∀ data, p.operand (e.state n) (e.input n) =
        gpr (drained (e.state n) (e.input n) data) (p.addr (e.state n) (e.input n)) ↔
      (p.addr (e.state n) (e.input n) = 0#5 → ZeroForwarded (e.state n) (e.input n))) ∧
    ∀ t K, (e.slots n).id = some t → (e.slots K).mem = some t →
      ∃ data, (e.state (K + 1)).reg_dir = drained (e.state n) (e.input n) data := by
  have hstall := ((ctl_eq_go_iff (e.input_rst n)).mp hgo).2
  exact ⟨fun data => operand_eq_gpr_iff (e.input_rst n) hstall.2.1 hread data,
    fun t K hid hK => IssuedAt.reg_dir ⟨hgo, hid⟩ hK⟩

/-- `ori $1, $0, 5; addu $0, $1, $1; addu $2, $0, $0`. -/
def forwardedZero : Execution := straight 0#8 [0x34010005#32, 0x00210021#32, 0x00001021#32]

/-- The second instruction reads register 1 from the first, which is in MEM. -/
theorem operand_forwarding_addu :
    forwardedZero.ctl 6 = .go ∧
      Port.addr (forwardedZero.state 6) (forwardedZero.input 6) .reg1 = 1#5 ∧
      Port.operand (forwardedZero.state 6) (forwardedZero.input 6) .reg1 = 5#32 ∧
      ∀ data, Port.operand (forwardedZero.state 6) (forwardedZero.input 6) .reg1 =
        gpr (drained (forwardedZero.state 6) (forwardedZero.input 6) data)
          (Port.addr (forwardedZero.state 6) (forwardedZero.input 6) .reg1) := by
  have hgo : forwardedZero.ctl 6 = .go := by decide +kernel
  have hread : Port.read (forwardedZero.state 6) (forwardedZero.input 6) .reg1 = true := by
    decide +kernel
  have haddr : Port.addr (forwardedZero.state 6) (forwardedZero.input 6) .reg1 = 1#5 := by
    decide +kernel
  refine ⟨hgo, haddr, by decide +kernel, fun data => ?_⟩
  exact ((operand_forwarding forwardedZero 6 .reg1 hgo hread).1 data).mpr fun h =>
    absurd (haddr.symm.trans h) (by decide)

/-- The third instruction reads register 0 and gets the result the second one, in
MEM, has computed for it. -/
theorem forwardedZero_operand :
    forwardedZero.ctl 8 = .go ∧
      Port.read (forwardedZero.state 8) (forwardedZero.input 8) .reg1 = true ∧
      Port.addr (forwardedZero.state 8) (forwardedZero.input 8) .reg1 = 0#5 ∧
      Port.operand (forwardedZero.state 8) (forwardedZero.input 8) .reg1 = 10#32 ∧
      ∀ data, gpr (drained (forwardedZero.state 8) (forwardedZero.input 8) data)
        (Port.addr (forwardedZero.state 8) (forwardedZero.input 8) .reg1) = 0#32 := by
  have haddr : Port.addr (forwardedZero.state 8) (forwardedZero.input 8) .reg1 = 0#5 := by
    decide +kernel
  refine ⟨by decide +kernel, by decide +kernel, haddr, by decide +kernel, fun data => ?_⟩
  rw [haddr]
  rfl

end Execution

end CPU_TOP

end mips32s
