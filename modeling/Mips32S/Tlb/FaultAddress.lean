import Mips32S.Exceptions.Return
import Mips32S.Tlb.Protection

namespace mips32s

open Isa

namespace cp0_reg

variable {exc : ExceptType} (addr unaligned bad : Word) (delay : Bool) (s : State)

theorem except_badvaddr_output (h : exc.isTlb = true) :
    (s.except exc addr delay unaligned bad).badvaddr_output = bad ∧
      (s.except exc addr delay unaligned bad).entryhi_output.extractLsb' 13 19 =
        bad.extractLsb' 13 19 := by
  have hvpn : (bits.setSlice s.entryhi_output 13 (bad.extractLsb' 13 19)).extractLsb' 13 19 =
      bad.extractLsb' 13 19 := bits.extractLsb'_setSlice _ _ _ (by decide)
  cases exc with
  | tlbl_inst | tlb_modify | tlbl_data | tlbs => exact ⟨rfl, hvpn⟩
  | _ => cases h

end cp0_reg

theorem mem.tlb_cases {rst tlbl tlbs modify : Bool} {flags : ExceptFlags}
    {pc addr cause status : Word}
    (h : (excepttype_output rst flags pc addr cause status tlbl tlbs modify).isTlb = true) :
    excepttype_output rst flags pc addr cause status tlbl tlbs modify = .tlbl_inst ∧
        flags.is_tlbl_inst = true ∨
      excepttype_output rst flags pc addr cause status tlbl tlbs modify ≠ .tlbl_inst ∧
        flags.is_tlbl_inst = false ∧ (tlbl = true ∨ tlbs = true ∨ modify = true) := by
  -- the property is shown of the value of each branch that can be taken
  let P (exc : ExceptType) : Prop := exc.isTlb = true → exc = .tlbl_inst ∧ flags.is_tlbl_inst = true ∨
    exc ≠ .tlbl_inst ∧ flags.is_tlbl_inst = false ∧ (tlbl = true ∨ tlbs = true ∨ modify = true)
  have hP : P (excepttype_output rst flags pc addr cause status tlbl tlbs modify) := by
    unfold excepttype_output
    refine iteInduction (fun _ => nofun) fun _ => iteInduction (fun _ => nofun) fun _ => ?_
    refine iteInduction (fun _ => nofun) fun _ => iteInduction (fun _ => nofun) fun _ => ?_
    refine iteInduction (fun hflag _ => .inl ⟨rfl, hflag⟩) fun hflag => ?_
    have hinst := Bool.not_eq_true _ ▸ hflag
    refine iteInduction (fun hl _ => .inr ⟨nofun, hinst, ?_⟩) fun _ => ?_
    · exact .inl (Bool.and_eq_true _ _ ▸ hl).1
    refine iteInduction (fun hs _ => .inr ⟨nofun, hinst, ?_⟩) fun _ => ?_
    · exact .inr (.inl (Bool.and_eq_true _ _ ▸ hs).1)
    refine iteInduction (fun hm _ => .inr ⟨nofun, hinst, ?_⟩) fun _ => ?_
    · exact .inr (.inr (Bool.and_eq_true _ _ ▸ hm).1)
    repeat' refine iteInduction (fun _ => nofun) fun _ => ?_
    exact nofun
  exact hP h

namespace CPU_TOP

/-- The address the program counter holds does not translate. -/
def FetchMisses (s : State) : Prop :=
  Mapped s.if_pc_reg.PC_output ∧ s.if_pc_reg.PC_output ≠ ZeroWord ∧
    (lookup s.mmu.tlb s.if_pc_reg.PC_output).any Page.v = false

instance (s : State) : Decidable (FetchMisses s) := inferInstanceAs (Decidable (_ ∧ _ ∧ _))

section
variable {s : State} {i : Input}

theorem mmu_is_tlbl_inst_iff (hrst : i.rst = false) :
    mmu_is_tlbl_inst s i = true ↔ s.ex2mem.mem_aluop.isStore = false ∧ FetchMisses s := by
  have hseg : vir2phy.is_kseg0_kseg1 s.if_pc_reg.PC_output = false ↔
      Mapped s.if_pc_reg.PC_output := by
    rw [← not_iff_not, Bool.not_eq_false, is_kseg0_kseg1_iff]
  simp only [mmu_is_tlbl_inst, mmu.is_tlbl_inst, mmu.checked, mmu_we, mem.mem_we, hrst, missing_eq,
    FetchMisses, Bool.and_eq_true, Bool.not_eq_true', Bool.not_false, Bool.true_and, bne_iff_ne,
    hseg]
  tauto

theorem ram_addr_of_checked (h : mmu.checked (ram_addr_output s i) = true) :
    s.ex2mem.mem_aluop.isMem = true ∧ ram_addr_output s i = s.ex2mem.mem_mem_addr := by
  unfold ram_addr_output mem.mem_addr_output at h ⊢
  split_ifs at h ⊢ with hrst hmem
  · exact absurd h (by simp)
  · exact ⟨hmem, rfl⟩
  · exact absurd h (by simp)

/-- The signals behind a TLB exception: the flag of a failed fetch, else one of the MMU's signals
for the data access. -/
theorem tlb_signals (h : (mem_excepttype_output s i).isTlb = true) :
    mem_excepttype_output s i = .tlbl_inst ∧ s.ex2mem.mem_excepttype.is_tlbl_inst = true ∨
      mem_excepttype_output s i ≠ .tlbl_inst ∧ s.ex2mem.mem_excepttype.is_tlbl_inst = false ∧
        (mmu_is_tlbl_data s i = true ∨ mmu_is_tlbs s i = true ∨ mmu_is_tlb_modify s i = true) :=
  mem.tlb_cases h

/-- The address the MMU reports for a failed data access: that of the access, unless it is a load
and the fetch fails as well. -/
theorem mmu_badvaddr_eq (hrst : i.rst = false)
    (h : mmu_is_tlbl_data s i = true ∨ mmu_is_tlbs s i = true ∨ mmu_is_tlb_modify s i = true) :
    mmu_badvaddr s i = if s.ex2mem.mem_aluop.isLoad = true ∧ FetchMisses s
      then s.if_pc_reg.PC_output else s.ex2mem.mem_mem_addr := by
  have hchecked : mmu.checked (ram_addr_output s i) = true := by
    obtain h | h | h := h <;>
      simp only [mmu_is_tlbl_data, mmu_is_tlbs, mmu_is_tlb_modify, mmu.is_tlbl_data, mmu.is_tlbs,
        mmu.is_tlb_modify, Bool.and_eq_true] at h <;>
      exact h.1.1
  obtain ⟨hmem, haddr⟩ := ram_addr_of_checked hchecked
  have hkind : s.ex2mem.mem_aluop.isLoad = !s.ex2mem.mem_aluop.isStore := by
    revert hmem
    cases s.ex2mem.mem_aluop <;> decide
  have hiff := mmu_is_tlbl_inst_iff (s := s) hrst
  rw [mmu_badvaddr, mmu.badvaddr, haddr]
  refine if_congr ?_ rfl rfl
  rwa [hkind, Bool.not_eq_true']

end

namespace Execution

variable {e : Execution} {n t : ℕ}

/-- The address whose translation fails in a TLB exception of instruction `t`: its own, or that of
its data access. -/
def faultAddress (e : Execution) (n t : ℕ) : Word :=
  if e.excepttype n = .tlbl_inst then e.pc t else (e.state n).ex2mem.mem_mem_addr

theorem exists_mem_of_isTlb (h : (e.excepttype n).isTlb = true) :
    ∃ t, (e.slots n).mem = some t := by
  by_contra hnone
  have hidle := ex2mem_idle (Option.eq_none_iff_forall_ne_some.mpr (not_exists.mp hnone))
  obtain ⟨hl, hs, hm⟩ := no_data_fault (e.input_rst n) hidle.isMem
  obtain ⟨-, hflag⟩ | ⟨-, -, hsig⟩ := tlb_signals h
  · simp [hidle.excepttype, ExceptFlags.zero] at hflag
  · simp [hl, hs, hm] at hsig

theorem badvaddr_of_isTlb (h : (e.excepttype n).isTlb = true) (hslot : (e.slots n).mem = some t) :
    (e.state (n + 1)).cp0.badvaddr_output =
      if (e.state n).ex2mem.mem_aluop.isLoad = true ∧ FetchMisses (e.state n)
        then (e.state n).if_pc_reg.PC_output else e.faultAddress n t := by
  rw [cp0_succ]
  refine (cp0_reg.except_badvaddr_output _ _ _ _ _ h).1.trans ?_
  unfold faultAddress
  obtain ⟨hexc, hflag⟩ | ⟨hexc, hflag, hsig⟩ := tlb_signals h
  · have hload : (e.state n).ex2mem.mem_aluop.isLoad = false := by
      by_contra hload
      have hmem : (e.state n).ex2mem.mem_aluop.isMem = true := by simp_all [AluOp.isMem]
      exact absurd hflag (by simp [mem_quiet (.inl hmem)])
    rw [if_neg (by simp [hload]), if_pos (show e.excepttype n = _ from hexc), mem.badvaddr_output,
      if_pos hflag]
    exact (inMem hslot).current_inst_addr
  · rw [if_neg (show e.excepttype n ≠ _ from hexc), mem.badvaddr_output, if_neg (by simp [hflag])]
    exact mmu_badvaddr_eq (e.input_rst n) hsig

/-- The faulting address. In every run, a TLB exception records in BadVAddr the address whose
translation failed and in EntryHi its page pair, exactly when not a load faults while the address
the program counter holds fails to translate as well and is another one. -/
theorem fault_address (e : Execution) (n : ℕ) (hexc : (e.excepttype n).isTlb = true) :
    ∃ t, (e.slots n).mem = some t ∧
      ((e.state (n + 1)).cp0.badvaddr_output = e.faultAddress n t ∧
        (e.state (n + 1)).cp0.entryhi_output.extractLsb' 13 19 =
          (e.faultAddress n t).extractLsb' 13 19 ↔
        ¬ ((e.state n).ex2mem.mem_aluop.isLoad = true ∧ FetchMisses (e.state n) ∧
          (e.state n).if_pc_reg.PC_output ≠ (e.state n).ex2mem.mem_mem_addr)) := by
  obtain ⟨t, hslot⟩ := exists_mem_of_isTlb hexc
  refine ⟨t, hslot, ?_⟩
  have hentry : (e.state (n + 1)).cp0.entryhi_output.extractLsb' 13 19 =
      (e.state (n + 1)).cp0.badvaddr_output.extractLsb' 13 19 := by
    rw [cp0_succ]
    have h := cp0_reg.except_badvaddr_output (e.state n).ex2mem.mem_current_inst_addr
      (e.state n).ex2mem.mem_mem_addr (mem.badvaddr_output (e.state n).ex2mem.mem_excepttype
        (e.state n).ex2mem.mem_current_inst_addr (mmu_badvaddr (e.state n) (e.input n)))
      (e.state n).ex2mem.mem_is_in_delayslot (e.cp0Older n) hexc
    exact h.2.trans (congrArg _ h.1.symm)
  rw [hentry, and_iff_left_of_imp (congrArg _), badvaddr_of_isTlb hexc hslot]
  by_cases hcase : (e.state n).ex2mem.mem_aluop.isLoad = true ∧ FetchMisses (e.state n)
  · have haddr : e.faultAddress n t = (e.state n).ex2mem.mem_mem_addr := by
      refine if_neg fun hinst => ?_
      have hmem : (e.state n).ex2mem.mem_aluop.isMem = true := by simp [AluOp.isMem, hcase.1]
      obtain ⟨-, hflag⟩ | ⟨hne, -⟩ := tlb_signals hexc
      · exact absurd hflag (by simp [mem_quiet (.inl hmem)])
      · exact hne hinst
    rw [if_pos hcase, haddr]
    simp [hcase]
  · rw [if_neg hcase]
    simp only [true_iff]
    exact fun h => hcase ⟨h.1, h.2.1⟩

/-- `ori $1, $0, 0x1000; ori $3, $0, 0x2000; jr $1; lw $2, 0($3)`: neither the target of the
jump nor the address of the load is mapped. -/
def missedTwice : Execution :=
  straight 0#8 [0x34011000#32, 0x34032000#32, 0x00200008#32, 0x8C620000#32]

/-- The load in the delay slot records the address after the target of the jump. -/
theorem missedTwice_badvaddr :
    missedTwice.excepttype 11 = .tlbl_data ∧
      (missedTwice.state 11).ex2mem.mem_mem_addr = 0x2000#32 ∧
      (missedTwice.state 12).cp0.badvaddr_output = 0x1008#32 := by
  decide +kernel

/-- A load that misses while the fetch does not records its own address. -/
theorem fault_address_lw :
    missedLoad.excepttype 8 = .tlbl_data ∧
      (missedLoad.state 9).cp0.badvaddr_output = 0x10000#32 := by
  have hexc : missedLoad.excepttype 8 = .tlbl_data := by decide +kernel
  have haddr : (missedLoad.state 8).ex2mem.mem_mem_addr = 0x10000#32 := by decide +kernel
  obtain ⟨t, -, h⟩ := fault_address missedLoad 8 (by rw [hexc]; rfl)
  have hmiss : ¬ FetchMisses (missedLoad.state 8) := by decide +kernel
  have hbad := (h.mpr fun hcase => hmiss hcase.2.1).1
  exact ⟨hexc, hbad⟩

end Execution

end CPU_TOP

end mips32s
