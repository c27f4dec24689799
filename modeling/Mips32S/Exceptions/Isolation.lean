import Mips32S.Exceptions.Return
import Mips32S.Fetch.Guard
import Mips32S.Tlb.Protection

namespace mips32s

open Isa bits

namespace Isa

def KernelSegment (vaddr : Word) : Prop := 0x80000000 ≤ vaddr.toNat

instance (vaddr : Word) : Decidable (KernelSegment vaddr) := inferInstanceAs (Decidable (_ ≤ _))

theorem KernelSegment.ne_zero {vaddr : Word} (h : KernelSegment vaddr) : vaddr ≠ ZeroWord := by
  rintro rfl
  exact absurd h (by decide)

end Isa

/-- The exceptions for an address: those of the TLB and the address errors. -/
def ExceptType.isAddress : ExceptType → Bool
  | .ADEL | .ADES => true
  | exc => exc.isTlb

theorem ExceptType.isAddress_of_isTlb {exc : ExceptType} (h : exc.isTlb = true) :
    exc.isAddress = true := by
  cases exc <;> first | rfl | exact h

namespace cp0_reg

/-- CP0 left to itself: only its clock runs. -/
def State.run (int_input : ℕ → BitVec 8) (c : State) : ℕ → State
  | 0 => c
  | k + 1 => (run int_input c k).tick (int_input k)

/-- The registers of CP0, without the held value of the read port. -/
def State.registers (c : State) : State := { c with data_output := ZeroWord }

theorem except_exl {exc : ExceptType} (hnone : exc ≠ .none) (heret : exc ≠ .eret)
    (addr unaligned bad : Word) (delay : Bool) (c : State) :
    (c.except exc addr delay unaligned bad).status_output.getLsbD 1 = true := by
  have hexl : (setSlice c.status_output 1 1#1).getLsbD 1 = true := by
    rw [getLsbD_setSlice _ _ _ 1 (by decide)]
    rfl
  cases exc <;> first | exact hexl | exact absurd rfl hnone | exact absurd rfl heret

theorem except_eret {c : State} (hexl : c.status_output.getLsbD 1 = false)
    (addr unaligned bad : Word) (delay : Bool) :
    c.except .eret addr delay unaligned bad = c := by
  have hstatus : setSlice c.status_output 1 0#1 = c.status_output := by
    ext k hk
    rw [← BitVec.getLsbD_eq_getElem, ← BitVec.getLsbD_eq_getElem, getLsbD_setSlice _ _ _ k hk]
    split_ifs with h
    · obtain rfl : k = 1 := by omega
      rw [hexl]
      rfl
    · rfl
  rw [State.except, hstatus]

end cp0_reg

namespace CPU_TOP

open pipeline

/-- Status says user mode, outside exception level. -/
def UserMode (s : State) : Prop :=
  s.cp0.status_output.getLsbD 4 = true ∧ s.cp0.status_output.getLsbD 1 = false

instance (s : State) : Decidable (UserMode s) := inferInstanceAs (Decidable (_ ∧ _))

/-- The program stays within what the processor checks. It fetches from the kernel
segments only where the TLB has no valid page, and not in the cycle of a store that
finds the fetch bus idle; it accesses data there only misaligned or where the TLB does
not allow it, and not from the instruction at address zero; and it has no instruction
in MEM that writes CP0 or the TLB. -/
@[mk_iff]
structure Confined (s : State) : Prop where
  fetch : KernelSegment s.if_pc_reg.PC_output → Mapped s.if_pc_reg.PC_output ∧
    (lookup s.mmu.tlb s.if_pc_reg.PC_output).any Page.v = false ∧
    (s.ex2mem.mem_aluop.isStore = true → s.iwishbone.wishbone_state ≠ .WB_IDLE)
  data : s.ex2mem.mem_aluop.isMem = true → KernelSegment s.ex2mem.mem_mem_addr →
    s.ex2mem.mem_current_inst_addr ≠ ZeroWord ∧
    (EX.is_ADEL s.ex2mem.mem_aluop s.ex2mem.mem_mem_addr = true ∨
      EX.is_ADES s.ex2mem.mem_aluop s.ex2mem.mem_mem_addr = true ∨
      Mapped s.ex2mem.mem_mem_addr ∧
        ¬ Allowed s.mmu.tlb s.ex2mem.mem_mem_addr s.ex2mem.mem_aluop.isStore)
  op : s.ex2mem.mem_aluop.writesCp0 = false ∧ s.ex2mem.mem_aluop.isTlbWrite = false

instance (s : State) : Decidable (Confined s) := decidable_of_iff _ (confined_iff s).symm

section
variable {s : State} {i : Input}

theorem Confined.not_starts (h : Confined s) (hstart : IStarts s i) :
    ¬ KernelSegment s.if_pc_reg.PC_output := by
  intro hker
  obtain ⟨hmapped, hmiss, hstore⟩ := h.fetch hker
  have hwe : mmu_we s i = false := by
    rw [mmu_we, mem.mem_we]
    cases hst : s.ex2mem.mem_aluop.isStore with
    | false => simp
    | true => exact absurd hstart.1 (hstore hst)
  have htlbl : mmu_is_tlbl_inst s i = true := by
    rw [mmu_is_tlbl_inst, mmu.is_tlbl_inst, hwe, missing_eq, hmiss, mmu.checked,
      is_kseg0_kseg1_of_mapped _ hmapped]
    simpa using hker.ne_zero
  have hce : rom_ce s i = true := hstart.2.1
  simp [rom_ce, htlbl] at hce

end

namespace Execution

variable {e : Execution} {n k t r b : ℕ}

theorem isAddress_of_misaligned (hmem : (e.state n).ex2mem.mem_aluop.isMem = true)
    (hpc : (e.state n).ex2mem.mem_current_inst_addr ≠ ZeroWord)
    (h : (e.state n).ex2mem.mem_excepttype.is_ADEL = true ∨
      (e.state n).ex2mem.mem_excepttype.is_ADES = true) :
    (fault (e.state n) (e.input n)).isAddress = true := by
  obtain ⟨hsys, hinv, -, htlbl⟩ := mem_quiet (.inl hmem)
  simp only [fault, mem.excepttype_output, e.input_rst n, hpc, hsys, htlbl, hinv,
    mem.interrupt_pending_zero, Bool.false_eq_true, if_false, apply_ite ExceptType.isAddress]
  obtain h | h := h <;> simp [h, ExceptType.isAddress, ExceptType.isTlb]

/-- A confined access to the kernel segments raises the exception for its address,
unless an interrupt comes first. -/
theorem isAddress_of_confined (h : Confined (e.state n)) (hslot : (e.slots n).mem = some t)
    (hmem : (e.state n).ex2mem.mem_aluop.isMem = true)
    (hker : KernelSegment (e.state n).ex2mem.mem_mem_addr) :
    (fault (e.state n) (e.input n)).isAddress = true := by
  have hflags := (inMem hslot).excepttype
  obtain ⟨hpc, hl | hs | ⟨hmapped, hno⟩⟩ := h.data hmem hker
  · exact isAddress_of_misaligned hmem hpc (.inl (by rwa [hflags]))
  · exact isAddress_of_misaligned hmem hpc (.inr (by rwa [hflags]))
  · rw [fault_eq_refusal hmem hmapped hker.ne_zero hpc hno]
    exact ExceptType.isAddress_of_isTlb refusal_isTlb

/-- The kernel returns to a program in cycle `r`, and the processor is in user mode
from then on up to cycle `b`. -/
structure UserRun (e : Execution) (r b : ℕ) : Prop where
  eret : e.excepttype r = .eret
  mode : ∀ k, r < k → k ≤ b → UserMode (e.state k)

/-- The instruction in MEM in cycle `k` tries to reach the kernel segments. -/
def Attempts (e : Execution) (k t : ℕ) : Prop :=
  (e.slots k).mem = some t ∧ (KernelSegment (e.pc t) ∨
    (e.state k).ex2mem.mem_aluop.isMem = true ∧ KernelSegment (e.state k).ex2mem.mem_mem_addr)

/-- The program that runs in user mode from cycle `r` to cycle `b` is isolated. The TLB
stays as the kernel left it, and of CP0 only the clock runs; no bus transaction is
started for an address in the kernel segments; and an instruction that tries to reach
them raises an exception for the address, or the interrupt that comes first, and never
commits. -/
structure Isolated (e : Execution) (r b : ℕ) : Prop where
  tlb : ∀ k, r < k → k ≤ b → (e.state k).mmu.tlb = (e.state (r + 1)).mmu.tlb
  cp0 : ∀ k, r + 1 + k ≤ b → (e.state (r + 1 + k)).cp0.registers =
    (e.state (r + 1)).cp0.registers.run (fun j => (e.input (r + 1 + j)).int_input) k
  fetch : ∀ k, r < k → k ≤ b → e.IStarts k → ¬ KernelSegment (e.state k).if_pc_reg.PC_output
  data : ∀ k, r < k → k ≤ b → e.DStarts k → ¬ KernelSegment (e.state k).ex2mem.mem_mem_addr
  refused : ∀ k, r < k → k ≤ b → ∀ t, e.Attempts k t →
    ((e.excepttype k).isAddress = true ∨ e.excepttype k = .interrupt) ∧ ∀ m, (e.slots m).wb ≠ some t

theorem UserRun.ctl (h : e.UserRun r b) : e.ctl r = .flush := by simp [ctl_eq_flush, h.eret]

theorem UserRun.lt_of_occupies (h : e.UserRun r b) (hk : r < k) (hocc : (e.slots k).Occupies t) :
    r < t := by
  have hgone : ¬ (e.slots (r + 1)).Occupies t := by simp [slots_succ, h.ctl]
  by_contra hle
  exact not_occupies_of_le (by omega) hgone hk hocc

theorem UserRun.flagged (h : e.UserRun r b) (hconf : ∀ k, r < k → k ≤ b → Confined (e.state k))
    (hk : k ≤ b) (hocc : (e.slots k).Occupies t) (hrt : r < t) (hker : KernelSegment (e.pc t)) :
    e.Flagged t := by
  have htk : t < k := occupies_lt hocc
  have hdel : e.Delivered t := delivered_of_occupies hocc
  by_contra hflag
  have hmiss : mmu_is_tlbl_inst (e.state t) (e.input t) = false := by
    simpa [Flagged, fetched, if_output] using hflag
  obtain ⟨a, ha⟩ := exists_fetching (ibus_ne_idle_of_go hdel.1 hdel.2 hmiss)
  have hra : r < a := by
    by_contra hle
    exact (ha.quiet r (by omega) hrt).2 h.ctl
  refine (hconf a hra (by have := ha.lt; omega)).not_starts ha.starts ?_
  rwa [← ha.pc]

theorem excepttype_of_fault {P : ExceptType → Prop} (h : P (fault (e.state n) (e.input n))) :
    P (e.excepttype n) ∨ e.excepttype n = .interrupt := by
  rw [excepttype, mem_excepttype_output_eq (e.input_rst n)]
  cases interrupted (e.state n) (e.input n) with
  | true => exact .inr rfl
  | false => exact .inl h

section
variable (h : e.UserRun r b) (hconf : ∀ k, r < k → k ≤ b → Confined (e.state k)) (hrk : r < k)
include h hconf hrk

/-- An instruction of the program that tries to reach the kernel segments is refused. -/
theorem UserRun.refused (hk : k ≤ b) (hatt : e.Attempts k t) :
    ((e.excepttype k).isAddress = true ∨ e.excepttype k = .interrupt) ∧
      ∀ m, (e.slots m).wb ≠ some t := by
  obtain ⟨hslot, hatt⟩ := hatt
  have hexc : (e.excepttype k).isAddress = true ∨ e.excepttype k = .interrupt := by
    obtain hker | ⟨hmem, hker⟩ := hatt
    · have hflag := h.flagged hconf hk (.of_mem hslot) (h.lt_of_occupies hrk (.of_mem hslot)) hker
      rw [hflag.excepttype hslot]
      split_ifs
      · exact .inr rfl
      · exact .inl rfl
    · exact excepttype_of_fault (P := fun exc => exc.isAddress = true)
        (isAddress_of_confined (hconf k hrk hk) hslot hmem hker)
  have hflush : e.ctl k = .flush := by
    rw [ctl_eq_flush]
    rintro hnone
    rw [hnone] at hexc
    exact absurd hexc (by decide)
  have hwb : (e.slots k).wb ≠ some t := fun hwb => ((slots_ordered k).wb_mem t hwb t hslot).false
  exact ⟨hexc, SquashedAt.wb_ne ⟨hflush, .of_mem hslot, hwb⟩⟩

theorem UserRun.drained (hk : k ≤ b) : (e.state k).mem2wb.wb_cp0_reg_we = false := by
  induction k with
  | zero => omega
  | succ k ih =>
    rw [mem2wb_succ]
    obtain rfl | hlt : r = k ∨ r < k := by omega
    · rw [h.ctl]
      rfl
    have hwe : (e.state k).ex2mem.mem_cp0_reg_we = false := by
      cases hslot : (e.slots k).mem with
      | none => exact (ex2mem_idle hslot).cp0_reg_we
      | some t =>
        rw [(inMem hslot).cp0_reg_we, ← (inMem hslot).aluop]
        exact (hconf k hlt (by omega)).op.1
    cases e.ctl k <;> simp [mem_output, hwe, MEM2WB.bubble]

/-- As long as the processor stays in user mode, only the clock of CP0 runs. -/
theorem UserRun.registers_succ (hk : k + 1 ≤ b) :
    (e.state (k + 1)).cp0.registers = (e.state k).cp0.registers.tick (e.input k).int_input := by
  have holder : e.cp0Older k = (e.state k).cp0.tick (e.input k).int_input := by
    rw [cp0Older, cp0_reg.State.write, wb_cp0, h.drained hconf hrk (by omega)]
    rfl
  have hexl : (e.cp0Older k).status_output.getLsbD 1 = false := by
    rw [holder]
    exact (h.mode k hrk (by omega)).2
  have hcp0 := cp0_succ (e := e) k
  have hkeep : (e.state (k + 1)).cp0.registers = (e.cp0Older k).registers := by
    by_cases hnone : e.excepttype k = .none
    · rw [hcp0, hnone]
      rfl
    by_cases heret : e.excepttype k = .eret
    · rw [hcp0, heret, cp0_reg.except_eret hexl]
      rfl
    · have hset : (e.state (k + 1)).cp0.status_output.getLsbD 1 = true := by
        rw [hcp0]
        exact cp0_reg.except_exl hnone heret _ _ _ _ _
      exact absurd ((h.mode (k + 1) (by omega) hk).2.symm.trans hset) (by decide)
  rw [hkeep, holder]
  rfl

end

/-- A program that stays within what the processor checks is isolated from the kernel. -/
theorem user_isolation (e : Execution) (r b : ℕ) (h : e.UserRun r b)
    (hconf : ∀ k, r < k → k ≤ b → Confined (e.state k)) : e.Isolated r b where
  tlb k hrk hk := by
    induction k with
    | zero => omega
    | succ k ih =>
      obtain rfl | hlt : r = k ∨ r < k := by omega
      · rfl
      · rw [tlb_succ (hconf k hlt (by omega)).op.2, ih hlt (by omega)]
  cp0 k hk := by
    induction k with
    | zero => rfl
    | succ k ih =>
      rw [cp0_reg.State.run, ← ih (by omega)]
      exact h.registers_succ hconf (show r < r + 1 + k by omega) hk
  fetch k hrk hk hstart := (hconf k hrk hk).not_starts hstart
  data k hrk hk hstart hker := by
    have hnone : e.excepttype k = .none := hstart.excepttype (e.input_rst k)
    have hmem := CPU_TOP.DStarts.isMem hstart
    cases hslot : (e.slots k).mem with
    | none => simp [(ex2mem_idle hslot).isMem] at hmem
    | some t =>
      obtain ⟨hexc, -⟩ := h.refused hconf hrk hk ⟨hslot, .inr ⟨hmem, hker⟩⟩
      rw [hnone] at hexc
      exact absurd hexc (by decide)
  refused k hrk hk t hatt := h.refused hconf hrk hk hatt

/-- The kernel maps the page at `0x2000`, sets user mode and returns to the program there:
`li t0,0x2000; mtc0 t0,EntryHi; li t1,6; mtc0 t1,EntryLo0; tlbwi; mtc0 t0,EPC; li t2,0x12;
mtc0 t2,Status; eret`. Two words later the program's own follow. -/
def userProgram (words : List Word) : Execution :=
  straight 0#8 ([0x34082000#32, 0x40885000#32, 0x34090006#32, 0x40891000#32, 0x42000002#32,
    0x40887000#32, 0x340A0012#32, 0x408A6000#32, 0x42000018#32, 0#32, 0#32] ++ words)

/-- The program loads from a page of the kernel that is not mapped: `lui t3,0xC000; lw t4,0(t3)`. -/
def refusedLoad : Execution := userProgram [0x3C0BC000#32, 0x8D6C0000#32]

theorem user_isolation_refusedLoad : refusedLoad.Attempts 30 26 ∧ refusedLoad.Isolated 22 30 := by
  have hmode : ∀ k < 31, 22 < k → UserMode (refusedLoad.state k) := by decide +kernel
  have hconf : ∀ k < 31, 22 < k → Confined (refusedLoad.state k) := by decide +kernel
  refine ⟨⟨by decide +kernel, .inr (by decide +kernel)⟩,
    user_isolation refusedLoad 22 30 ⟨by decide +kernel, ?_⟩ ?_⟩
  · exact fun k hr hb => hmode k (by omega) hr
  · exact fun k hr hb => hconf k (by omega) hr

/-- The program loads from kseg0: `lui t3,0x8000; lw t4,0(t3)`. -/
def kernelLoad : Execution := userProgram [0x3C0B8000#32, 0x8D6C0000#32]

/-- The load raises nothing and goes to the bus. -/
theorem kernelLoad_not_isolated :
    kernelLoad.excepttype 22 = .eret ∧ (∀ k < 31, 22 < k → UserMode (kernelLoad.state k)) ∧
      (kernelLoad.state 30).ex2mem.mem_mem_addr = 0x80000000#32 ∧ kernelLoad.excepttype 30 = .none ∧
      kernelLoad.DStarts 30 ∧ ¬ kernelLoad.Isolated 22 30 := by
  have haddr : (kernelLoad.state 30).ex2mem.mem_mem_addr = 0x80000000#32 := by decide +kernel
  have hstart : kernelLoad.DStarts 30 := by decide +kernel
  refine ⟨by decide +kernel, by decide +kernel, haddr, by decide +kernel, hstart, fun h => ?_⟩
  exact h.data 30 (by omega) (by omega) hstart (by rw [haddr]; decide)

end Execution

end CPU_TOP

end mips32s
