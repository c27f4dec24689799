import Mips32S.Bus.DataBus
import Mips32S.Fetch.Front
import Mips32S.Pipeline.Boot

namespace mips32s

namespace cp0_reg

theorem write_epc_output (wb : EX.Cp0Write) (tlb : TlbStruct) (s : State) :
    (s.write wb tlb).epc_output = mem.cp0_epc false wb s.epc_output := by
  unfold State.write mem.cp0_epc mem.bypass
  cases hwe : wb.we with
  | false => simp
  | true =>
    by_cases h : wb.write_addr = CP0_REG_EPC
    · simp [h, CP0_REG_EPC, CP0_REG_COUNT, CP0_REG_COMPARE, CP0_REG_STATUS]
    · simp only [h, apply_ite State.epc_output, ite_self, if_false]
      simp [h]

variable {exc : ExceptType} (addr unaligned bad : Word) (delay : Bool) (s : State)

/-- Every exception but the return saves the address of its victim, corrected for the
delay slot, and the delay-slot flag. -/
theorem except_epc_output (hnone : exc ≠ .none) (heret : exc ≠ .eret) :
    (s.except exc addr delay unaligned bad).epc_output = (if delay then addr - 4#32 else addr) ∧
      (s.except exc addr delay unaligned bad).cause_output.getLsbD 31 = delay := by
  have hbd : (bits.setSlice (bits.setSlice s.cause_output 31 (BitVec.ofBool delay)) 2
      (exc_code exc)).getLsbD 31 =
      delay := by
    rw [bits.getLsbD_setSlice _ _ _ 31 (by decide), bits.getLsbD_setSlice _ _ _ 31 (by decide)]
    cases delay <;> rfl
  cases exc <;> first | exact ⟨rfl, hbd⟩ | exact absurd rfl hnone | exact absurd rfl heret

end cp0_reg

namespace CPU_TOP

open pipeline Isa

namespace Execution

variable {e : Execution} {n t u v : ℕ}

theorem mem_is_in_delayslot (h : (e.slots n).mem = some t) :
    (e.state n).ex2mem.mem_is_in_delayslot = e.inDelaySlot t := by
  obtain ⟨k, -, hmem, m, hissue, hex, -⟩ := holdsMem h
  rw [hmem]
  simp only [ex_output, hex, id_output, e.input_rst m, delayslot_of_id hissue.2]
  simp

/-- The exception entry of cycle `n` is accounted to a fetched instruction `v`: EPC
receives its address if it is not in a delay slot, and otherwise the address of its
branch, with `Cause.BD` set. A branch that is itself in a delay slot need not be the
instruction in front in memory, and EPC then receives the address in front of `v`. -/
def EntryLaw (e : Execution) (n : ℕ) : Prop :=
  ∃ v, (e.slots n).mem = some v ∧ e.Delivered v ∧
    (e.state (n + 1)).cp0.cause_output.getLsbD 31 = e.inDelaySlot v ∧
    (e.inDelaySlot v = false → (e.state (n + 1)).cp0.epc_output = e.pc v) ∧
    ∀ b, e.prev v = some b → (branch? (e.inst b)).isSome = true →
      (e.state (n + 1)).cp0.epc_output = e.pc v - 4#32 ∧
      (e.inDelaySlot b = false → (e.state (n + 1)).cp0.epc_output = e.pc b)

/-- The return of cycle `n` goes to EPC as the older instructions leave it: the next
instruction delivered comes from there, and the instructions in the pipeline from the
return on never reach WB. -/
def ReturnLaw (e : Execution) (n v : ℕ) : Prop :=
  (e.state (n + 1)).if_pc_reg.PC_output = (e.state (n + 1)).cp0.epc_output ∧
    (∀ u, v ≤ u → (e.slots n).Occupies u → ∀ k, (e.slots k).wb ≠ some u) ∧
    ∀ u, n < u → e.Delivered u → (∀ k, n < k → k < u → ¬ e.Delivered k) →
      e.pc u = (e.state (n + 1)).cp0.epc_output

/-- CP0 as the instruction in WB leaves it, before exception entry. -/
def cp0Older (e : Execution) (n : ℕ) : cp0_reg.State :=
  ((e.state n).cp0.tick (e.input n).int_input).write (wb_cp0 (e.state n))
    (e.state n).mem2wb.tlb_write_struct

theorem cp0_succ (n : ℕ) : (e.state (n + 1)).cp0 =
    { (e.cp0Older n).except (e.excepttype n) (e.state n).ex2mem.mem_current_inst_addr
        (e.state n).ex2mem.mem_is_in_delayslot (e.state n).ex2mem.mem_mem_addr
        (mem.badvaddr_output (e.state n).ex2mem.mem_excepttype
        (e.state n).ex2mem.mem_current_inst_addr
          (mmu_badvaddr (e.state n) (e.input n))) with
      data_output := cp0_data_output (e.state n) (e.input n) } := by
  simp only [state_succ, step, cp0_reg.next, cp0_data_output, e.input_rst n]
  rfl

theorem entryLaw (hexc : e.excepttype n ≠ .none) (heret : e.excepttype n ≠ .eret) :
    e.EntryLaw n := by
  obtain ⟨v, hv⟩ := exists_slot_of_excepttype hexc
  have hcp0 := e.cp0_succ n
  obtain ⟨hepc, hbd⟩ := cp0_reg.except_epc_output (e.state n).ex2mem.mem_current_inst_addr
    (e.state n).ex2mem.mem_mem_addr (mem.badvaddr_output (e.state n).ex2mem.mem_excepttype
      (e.state n).ex2mem.mem_current_inst_addr (mmu_badvaddr (e.state n) (e.input n)))
    (e.state n).ex2mem.mem_is_in_delayslot (e.cp0Older n) hexc heret
  rw [mem_is_in_delayslot hv, (inMem hv).current_inst_addr] at hepc hbd hcp0
  have hepc' : (e.state (n + 1)).cp0.epc_output =
      if e.inDelaySlot v then e.pc v - 4#32 else e.pc v := by
    rw [hcp0, hepc]
  refine ⟨v, hv, delivered_of_occupies (.of_mem hv), by rw [hcp0, hbd], fun hno => ?_,
    fun b hb hbranch => ?_⟩
  · rw [hepc', hno]
    rfl
  · have hslot : e.inDelaySlot v = true := by simp [inDelaySlot, hb, hbranch]
    rw [hepc', hslot, if_pos rfl]
    refine ⟨rfl, fun hnot => ?_⟩
    rw [pc_eq_of_prev hb hnot]
    exact BitVec.add_sub_cancel _ _

theorem excepttype_eret (hv : (e.slots n).mem = some v) (heret : e.inst v = EXE_ERET)
    (hpc : e.pc v ≠ ZeroWord) (hint : interrupted (e.state n) (e.input n) = false) :
    e.excepttype n = .eret := by
  have hrst := e.input_rst n
  have hin := inMem hv
  have hop : (e.state n).ex2mem.mem_aluop = .EXE_ERET_OP := by rw [hin.aluop, heret]; decide
  have hmiss : (e.fetched v).is_inst_tlbl_output = false := by
    by_contra hmiss
    exact absurd ((inst_eq_zero_of_tlbl (by simpa using hmiss)).symm.trans heret) (by decide)
  have hflags : (e.state n).ex2mem.mem_excepttype = { ExceptFlags.zero with is_eret := true } := by
    rw [hin.excepttype, hop, decodeFlags, heret, hmiss]
    rfl
  rw [← hin.current_inst_addr] at hpc
  rw [excepttype, mem_excepttype_output_eq hrst, hint]
  simp [fault, mem.excepttype_output, hrst, hpc, hflags, ExceptFlags.zero,
    no_data_fault hrst (show (e.state n).ex2mem.mem_aluop.isMem = false by rw [hop]; rfl)]

/-- After a flush the pipeline stays empty and the fetch address in place until the
next delivery. -/
theorem empty_until_delivery (hflush : e.ctl n = .flush) (hlt : n < u)
    (hnone : ∀ k, n < k → k < u → ¬ e.Delivered k) :
    e.slots u = Slots.empty ∧
      (e.state u).if_pc_reg.PC_output = (e.state (n + 1)).if_pc_reg.PC_output := by
  induction u, hlt using Nat.le_induction with
  | base => exact ⟨by rw [slots_succ, hflush]; rfl, rfl⟩
  | succ u hlt ih =>
    obtain ⟨hslots, hpc⟩ := ih fun k hk hku => hnone k hk (by omega)
    have hce : (e.state u).if_pc_reg.chip_enable_flag = true := by
      obtain ⟨m, rfl⟩ : ∃ m, u = m + 1 := ⟨u - 1, by omega⟩
      exact chip_enable_succ m
    have hgo : e.ctl u ≠ .go := fun hgo => hnone u hlt (by omega) ⟨hgo, hce⟩
    have hno : e.ctl u ≠ .flush := by
      rw [Ne, ctl_eq_flush]
      intro hexc
      obtain ⟨t, ht⟩ := exists_slot_of_excepttype hexc
      simp [hslots, Slots.empty] at ht
    refine ⟨?_, (PC_output_hold hce ⟨hgo, hno⟩).trans hpc⟩
    rw [slots_succ, hslots]
    cases hctl : e.ctl u with
    | go => exact absurd hctl hgo
    | flush => rfl
    | holdDecode => rfl
    | holdMem => rfl

theorem returnLaw (hv : (e.slots n).mem = some v) (hexc : e.excepttype n = .eret) :
    e.ReturnLaw n v := by
  have hrst := e.input_rst n
  have hctl : e.ctl n = .flush := by
    rw [ctl_eq_flush, hexc]
    simp
  have hepc : (e.state (n + 1)).cp0.epc_output = latest_epc (e.state n) (e.input n) := by
    rw [cp0_succ, hexc, latest_epc, hrst]
    exact cp0_reg.write_epc_output _ _ _
  have hpc : (e.state (n + 1)).if_pc_reg.PC_output = (e.state (n + 1)).cp0.epc_output := by
    obtain ⟨m, rfl⟩ : ∃ m, n = m + 1 := ⟨n - 1, by have := occupies_lt (.of_mem hv); omega⟩
    rw [hepc, state_succ, PC_output_step hrst (chip_enable_succ m),
      show CPU_TOP.ctl (e.state (m + 1)) (e.input (m + 1)) = .flush from hctl]
    simp [new_pc, ctrl.new_pc, hrst,
      show mem_excepttype_output (e.state (m + 1)) (e.input (m + 1)) = .eret from hexc]
  refine ⟨hpc, fun u hu hocc => ?_, fun u hlt hdel hnone => ?_⟩
  · have hwb : (e.slots n).wb ≠ some u := fun hwb =>
      absurd ((slots_ordered n).wb_mem u hwb v hv) (by omega)
    exact SquashedAt.wb_ne ⟨hctl, hocc, hwb⟩
  · exact (empty_until_delivery hctl hlt hnone).2.trans hpc

/-- Exception return. Whatever the stalls, every exception or interrupt is accounted
to a fetched instruction as `EntryLaw` says; and every return that is not itself
interrupted resumes at EPC, however close behind a write to EPC it is, with no younger
instruction committed. -/
theorem exception_return (e : Execution) :
    (∀ n, e.excepttype n ≠ .none → e.excepttype n ≠ .eret → e.EntryLaw n) ∧
      ∀ n v, (e.slots n).mem = some v → e.inst v = EXE_ERET → e.pc v ≠ ZeroWord →
        interrupted (e.state n) (e.input n) = false → e.ReturnLaw n v :=
  ⟨fun _ hexc heret => entryLaw hexc heret,
    fun _ _ hv heret hpc hint => returnLaw hv (excepttype_eret hv heret hpc hint)⟩

/-- `beq $0, $0, 3; syscall`: an exception in a delay slot. -/
def delayedSyscall : Execution := straight 0#8 [0x10000003#32, 0x0000000C#32]

/-- `ori $1, $0, 0x100; mtc0 $1, EPC; eret`: a return right behind the write to EPC. -/
def quickReturn : Execution := straight 0#8 [0x34010100#32, 0x40817000#32, EXE_ERET]

theorem exception_return_runs :
    (delayedSyscall.excepttype 8 = .syscall ∧
      (delayedSyscall.state 9).cp0.epc_output = 0xBFC00000#32 ∧
      delayedSyscall.EntryLaw 8) ∧
    ((quickReturn.slots 10).mem = some 6 ∧ (quickReturn.state 11).if_pc_reg.PC_output = 0x100#32 ∧
      quickReturn.ReturnLaw 10 6) := by
  have hexc : delayedSyscall.excepttype 8 = .syscall := by decide +kernel
  have hv : (quickReturn.slots 10).mem = some 6 := by decide +kernel
  exact ⟨⟨hexc, by decide +kernel,
    (exception_return delayedSyscall).1 8 (by simp [hexc]) (by simp [hexc])⟩,
    hv, by decide +kernel,
      (exception_return quickReturn).2 10 6 hv (by decide +kernel) (by decide +kernel)
      (by decide +kernel)⟩

/-- `beq $0, $0, 16; beq $0, $0, 32` and a system call at the target of the first
branch, which is in the delay slot of the second. -/
def nestedBranch : Execution := straight 0#8 [0x10000010#32, 0x10000020#32, 0x0000000C#32]

/-- The exception is taken outside exception level, its victim sits in the delay slot
of the branch at `0xBFC00004`, and EPC receives the address in front of the victim. -/
theorem nestedBranch_epc :
    nestedBranch.excepttype 10 = .syscall ∧
      (nestedBranch.state 10).cp0.status_output.getLsbD 1 = false ∧
      (nestedBranch.slots 10).mem = some 6 ∧ nestedBranch.prev 6 = some 4 ∧
      (branch? (nestedBranch.inst 4)).isSome = true ∧ nestedBranch.pc 4 = 0xBFC00004#32 ∧
      nestedBranch.pc 6 = 0xBFC00044#32 ∧
        (nestedBranch.state 11).cp0.epc_output = 0xBFC00040#32 := by
  decide +kernel


end Execution

end CPU_TOP

end mips32s
