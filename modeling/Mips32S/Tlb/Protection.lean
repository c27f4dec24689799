import Mips32S.Bus.DataBus
import Mips32S.Isa.Tlb

namespace mips32s

open Isa vir2phy

namespace Isa

/-- Some entry maps the page of the address and allows the access. -/
def Permitted (tlb : Fin 16 → TlbEntry) (vaddr : Word) (store : Bool) : Prop :=
  ∃ j, (tlb j).Matches vaddr ∧ ((tlb j).page vaddr).v = true ∧
    (store = true → ((tlb j).page vaddr).d = true)

instance (tlb : Fin 16 → TlbEntry) (vaddr : Word) (store : Bool) :
    Decidable (Permitted tlb vaddr store) :=
  inferInstanceAs (Decidable (∃ _, _))

/-- The page the address translates to allows the access. -/
def Allowed (tlb : Fin 16 → TlbEntry) (vaddr : Word) (store : Bool) : Prop :=
  ∃ p, lookup tlb vaddr = some p ∧ p.v = true ∧ (store = true → p.d = true)

instance (tlb : Fin 16 → TlbEntry) (vaddr : Word) (store : Bool) :
    Decidable (Allowed tlb vaddr store) :=
  decidable_of_iff ((lookup tlb vaddr).any (fun p => p.v && (!store || p.d)) = true) <| by
    cases store <;> simp [Allowed, Option.any_eq_true]

/-- The exception of an access that is not allowed: TLBL for a load, TLBS for a store
to a page that is not valid, Mod for a store to a valid page that is not writable. -/
def refusal (tlb : Fin 16 → TlbEntry) (vaddr : Word) (store : Bool) : ExceptType :=
  if store = false then .tlbl_data else if (lookup tlb vaddr).any Page.v then .tlb_modify else .tlbs

variable {tlb : Fin 16 → TlbEntry} {vaddr : Word} {store : Bool}

theorem Allowed.permitted (h : Allowed tlb vaddr store) : Permitted tlb vaddr store := by
  obtain ⟨p, hp, hv, hd⟩ := h
  obtain ⟨j, hprobe, rfl⟩ := Option.map_eq_some_iff.mp hp
  exact ⟨j, (probe_eq_some_iff.mp hprobe).1, hv, hd⟩

theorem lookup_of_not_allowed (h : ¬ Allowed tlb vaddr store) :
    (lookup tlb vaddr).any Page.v = false ∨ store = true ∧ ∃ p, lookup tlb vaddr = some p ∧
      p.v = true ∧ p.d = false := by
  cases hp : lookup tlb vaddr with
  | none => exact .inl rfl
  | some p =>
    cases hv : p.v with
    | false => exact .inl hv
    | true =>
      obtain ⟨hstore, hd⟩ : store = true ∧ p.d = false := by
        by_contra hcon
        refine h ⟨p, hp, hv, fun hstore => ?_⟩
        simpa [hstore] using hcon
      exact .inr ⟨hstore, p, rfl, hv, hd⟩

theorem refusal_isTlb : (refusal tlb vaddr store).isTlb = true := by
  unfold refusal
  split_ifs <;> rfl

end Isa

namespace CPU_TOP

section
variable {s : State} {i : Input}

theorem data_signals (hrst : i.rst = false) (hmem : s.ex2mem.mem_aluop.isMem = true)
    (hmapped : Mapped s.ex2mem.mem_mem_addr) (haddr : s.ex2mem.mem_mem_addr ≠ ZeroWord) :
    mmu_is_tlbl_data s i =
      (!s.ex2mem.mem_aluop.isStore && !(lookup s.mmu.tlb s.ex2mem.mem_mem_addr).any Page.v) ∧
      mmu_is_tlbs s i = (s.ex2mem.mem_aluop.isStore &&
        !(lookup s.mmu.tlb s.ex2mem.mem_mem_addr).any Page.v) ∧
      ∀ p, lookup s.mmu.tlb s.ex2mem.mem_mem_addr = some p →
        mmu_is_tlb_modify s i = (s.ex2mem.mem_aluop.isStore && !p.d) := by
  have hram : ram_addr_output s i = s.ex2mem.mem_mem_addr := by
    simp [ram_addr_output, mem.mem_addr_output, hrst, hmem]
  have hwe : mmu_we s i = s.ex2mem.mem_aluop.isStore := by simp [mmu_we, mem.mem_we, hrst]
  have hchecked : mmu.checked s.ex2mem.mem_mem_addr = true := by
    simp [mmu.checked, is_kseg0_kseg1_of_mapped _ hmapped, haddr]
  refine ⟨?_, ?_, fun p hp => ?_⟩
  · rw [mmu_is_tlbl_data, mmu.is_tlbl_data, hram, hwe, hchecked, missing_eq, Bool.true_and]
  · rw [mmu_is_tlbs, mmu.is_tlbs, hram, hwe, hchecked, missing_eq, Bool.true_and]
  · obtain ⟨j, hprobe, rfl⟩ := Option.map_eq_some_iff.mp hp
    rw [mmu_is_tlb_modify, mmu.is_tlb_modify, hram, hwe, hchecked, hit_index_eq _ _ _ hprobe, D_eq,
      Bool.true_and]
    rfl

end

namespace Execution

variable {e : Execution} {n : ℕ}

/-- An access to a mapped address other than zero, by an instruction at an address other
than zero, that is not allowed is refused. -/
theorem fault_eq_refusal (hmem : (e.state n).ex2mem.mem_aluop.isMem = true)
    (hmapped : Mapped (e.state n).ex2mem.mem_mem_addr)
    (haddr : (e.state n).ex2mem.mem_mem_addr ≠ ZeroWord)
    (hpc : (e.state n).ex2mem.mem_current_inst_addr ≠ ZeroWord)
    (hno : ¬ Allowed (e.state n).mmu.tlb (e.state n).ex2mem.mem_mem_addr
      (e.state n).ex2mem.mem_aluop.isStore) :
    fault (e.state n) (e.input n) =
      refusal (e.state n).mmu.tlb (e.state n).ex2mem.mem_mem_addr
        (e.state n).ex2mem.mem_aluop.isStore := by
  obtain ⟨hsys, -, -, htlbl⟩ := mem_quiet (.inl hmem)
  obtain ⟨hl, hs, hm⟩ := data_signals (e.input_rst n) hmem hmapped haddr
  unfold fault mem.excepttype_output refusal
  rw [hl, hs, hsys, htlbl, mem.interrupt_pending_zero, e.input_rst n, if_neg hpc]
  obtain hv | ⟨hstore, p, hp, hv, hd⟩ := lookup_of_not_allowed hno
  · cases hstore : (e.state n).ex2mem.mem_aluop.isStore <;> simp [hv, haddr]
  · rw [hm p hp, hstore, hp, hd]
    simp [hv, haddr]

theorem fault_ne_interrupt : fault (e.state n) (e.input n) ≠ .interrupt := by
  intro h
  simp only [fault, mem.excepttype_output, mem.interrupt_pending_zero, ite_eq_iff', reduceCtorEq,
    imp_false, Bool.false_eq_true] at h
  tauto

/-- A load or store gets no exception from the TLB if its address or that of the
instruction is the zero word. -/
theorem ne_zero_of_isTlb (hmem : (e.state n).ex2mem.mem_aluop.isMem = true)
    (h : (fault (e.state n) (e.input n)).isTlb = true) :
    (e.state n).ex2mem.mem_mem_addr ≠ ZeroWord ∧
      (e.state n).ex2mem.mem_current_inst_addr ≠ ZeroWord := by
  obtain ⟨-, -, -, htlbl⟩ := mem_quiet (.inl hmem)
  unfold fault mem.excepttype_output at h
  refine ⟨fun hzero => ?_, fun hzero => ?_⟩
  · simp only [htlbl, hzero, bne_self_eq_false, Bool.and_false, Bool.false_eq_true, if_false,
      apply_ite ExceptType.isTlb] at h
    simp [ExceptType.isTlb] at h
  · simp [hzero, ExceptType.isTlb] at h

/-- The data access in MEM is protected by the TLB: it starts a bus transaction only if
it is permitted, and if not it raises the exception for it, or the interrupt that comes
first, and starts no transaction. -/
def Protected (e : Execution) (n : ℕ) (vaddr : Word) (store : Bool) : Prop :=
  (e.DStarts n → Permitted (e.state n).mmu.tlb vaddr store) ∧
    (¬ Permitted (e.state n).mmu.tlb vaddr store →
      ¬ e.DStarts n ∧ (e.excepttype n = refusal (e.state n).mmu.tlb vaddr store ∨
        e.excepttype n = .interrupt))

/-- In every reachable state a load or store to a mapped address is protected exactly
when it is permitted, or an enabled interrupt comes first, or neither its address nor
that of the instruction is the zero word. -/
theorem data_protection (e : Execution) (n : ℕ) (hmem : (e.state n).ex2mem.mem_aluop.isMem = true)
    (hmapped : Mapped (e.state n).ex2mem.mem_mem_addr) :
    e.Protected n (e.state n).ex2mem.mem_mem_addr (e.state n).ex2mem.mem_aluop.isStore ↔
      Permitted (e.state n).mmu.tlb (e.state n).ex2mem.mem_mem_addr
        (e.state n).ex2mem.mem_aluop.isStore ∨
      interrupted (e.state n) (e.input n) = true ∨
      (e.state n).ex2mem.mem_mem_addr ≠ ZeroWord ∧
        (e.state n).ex2mem.mem_current_inst_addr ≠ ZeroWord := by
  have hrst := e.input_rst n
  have hexc : e.excepttype n = _ := mem_excepttype_output_eq hrst
  unfold Protected
  by_cases hperm :
      Permitted (e.state n).mmu.tlb (e.state n).ex2mem.mem_mem_addr
        (e.state n).ex2mem.mem_aluop.isStore
  · simp [hperm]
  cases hint : interrupted (e.state n) (e.input n) with
  | true =>
    rw [hint, if_pos rfl] at hexc
    have hstart : ¬ e.DStarts n := fun h => absurd (hexc.symm.trans (h.excepttype hrst)) (by simp)
    simp [hperm, hexc, hstart]
  | false =>
    rw [hint, if_neg (by simp)] at hexc
    simp only [hperm, not_false_eq_true, true_imp_iff, imp_false, Bool.false_eq_true, false_or]
    constructor
    · rintro ⟨-, -, h | h⟩
      · exact ne_zero_of_isTlb hmem (by rw [← hexc, h, refusal_isTlb])
      · exact absurd (hexc.symm.trans h) fault_ne_interrupt
    · rintro ⟨haddr, hpc⟩
      have href := hexc.trans (fault_eq_refusal hmem hmapped haddr hpc fun h => hperm h.permitted)
      have hstart : ¬ e.DStarts n := fun h => by
        have hnone : (e.excepttype n).isTlb = false := by
          rw [show e.excepttype n = _ from h.excepttype hrst]; rfl
        simp [href, refusal_isTlb] at hnone
      exact ⟨hstart, hstart, .inl href⟩

/-- A run that loads from an unmapped page: `lui t0,1; lw t1,0(t0)`. -/
def missedLoad : Execution := straight 0#8 [0x3C080001#32, 0x8D090000#32]

theorem data_protection_missedLoad :
    (missedLoad.state 8).ex2mem.mem_aluop = .EXE_LW_OP ∧
      (missedLoad.state 8).ex2mem.mem_mem_addr = 0x10000#32 ∧
      missedLoad.Protected 8 0x10000#32 false := by
  have hop : (missedLoad.state 8).ex2mem.mem_aluop = .EXE_LW_OP := by decide +kernel
  have haddr : (missedLoad.state 8).ex2mem.mem_mem_addr = 0x10000#32 := by decide +kernel
  have hpc : (missedLoad.state 8).ex2mem.mem_current_inst_addr ≠ ZeroWord := by decide +kernel
  have h := data_protection missedLoad 8 (by rw [hop]; rfl) (by rw [haddr]; decide)
  exact ⟨hop, haddr, h.mpr (.inr (.inr ⟨by decide, hpc⟩))⟩

/-- A run that loads from address zero: `lw t1,0(zero)`. -/
def zeroLoad : Execution := straight 0#8 [0x8C090000#32]

/-- With no valid entry in the TLB, the load from address zero raises nothing and goes
to the bus. -/
theorem zeroLoad_unprotected :
    (zeroLoad.state 6).ex2mem.mem_aluop = .EXE_LW_OP ∧
      (zeroLoad.state 6).ex2mem.mem_mem_addr = 0#32 ∧
      zeroLoad.excepttype 6 = .none ∧ zeroLoad.DStarts 6 ∧
        ¬ Permitted (zeroLoad.state 6).mmu.tlb 0#32 false ∧
      ¬ zeroLoad.Protected 6 0#32 false := by
  have hstart : zeroLoad.DStarts 6 := by decide +kernel
  have hperm : ¬ Permitted (zeroLoad.state 6).mmu.tlb 0#32 false := by decide +kernel
  exact ⟨by decide +kernel, by decide +kernel, by decide +kernel, hstart, hperm,
    fun h => hperm (h.1 hstart)⟩

end Execution

end CPU_TOP

end mips32s
