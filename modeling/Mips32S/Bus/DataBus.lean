import Mips32S.Bus.Interface
import Mips32S.Pipeline.Stages

namespace mips32s

namespace vir2phy

theorem hit_index_idem (tlb : Tlb) (addr : Word) (held : Fin 16) :
    hit_index tlb addr (hit_index tlb addr held) = hit_index tlb addr held := by
  unfold hit_index
  cases (List.finRange 16).find? (hit tlb addr) <;> rfl

end vir2phy

namespace CPU_TOP

open pipeline

/-- The exception the instruction in MEM raises on its own account: the exception
type with the interrupt test removed. -/
def fault (s : State) (i : Input) : ExceptType :=
  mem.excepttype_output i.rst s.ex2mem.mem_excepttype s.ex2mem.mem_current_inst_addr
    s.ex2mem.mem_mem_addr
    ZeroWord ZeroWord (mmu_is_tlbl_data s i) (mmu_is_tlbs s i) (mmu_is_tlb_modify s i)

/-- An enabled interrupt hits the instruction in MEM. -/
def interrupted (s : State) (i : Input) : Bool :=
  s.ex2mem.mem_current_inst_addr != ZeroWord && mem.interrupt_pending (mem_cp0_cause s i)
    (mem_cp0_status s i)

/-- The data side starts a bus transaction in this cycle. -/
def DStarts (s : State) (i : Input) : Prop :=
  wishbone_bus.Starts (flush s i) (dbus_request s i) s.dwishbone

instance (s : State) (i : Input) : Decidable (DStarts s i) :=
  inferInstanceAs (Decidable (wishbone_bus.Starts _ _ _))

section
variable {s : State} {i i' : Input}

section
variable (hrst : i.rst = false)
include hrst

theorem mem_excepttype_output_eq :
    mem_excepttype_output s i = if interrupted s i then .interrupt else fault s i := by
  unfold mem_excepttype_output fault interrupted mem.excepttype_output
  by_cases hpc : s.ex2mem.mem_current_inst_addr = ZeroWord
  · simp [hrst, hpc]
  · cases hpend : mem.interrupt_pending (mem_cp0_cause s i) (mem_cp0_status s i) <;>
      simp [hrst, hpc]

theorem fault_eq_none (h : mem_excepttype_output s i = .none) : fault s i = .none := by
  rw [mem_excepttype_output_eq hrst] at h
  split_ifs at h
  exact h

theorem dwishbone_step :
    (step s i).dwishbone = wishbone_bus.next false (bubble s i) (flush s i) (dbus_request s i)
      i.dwishbone_ack_input i.dwishbone_data_input s.dwishbone := by
  simp only [step, hrst]

theorem bubblereq_from_mem_eq :
    bubblereq_from_mem s i =
      wishbone_bus.stallreq false (flush s i)
        (dbus_request s i) i.dwishbone_ack_input s.dwishbone := by
  simp only [bubblereq_from_mem, hrst]

end

theorem DStarts.isMem (h : DStarts s i) : s.ex2mem.mem_aluop.isMem = true := by
  have hce : cpu_ram_ce_output s i = true := h.2.1
  simp only [cpu_ram_ce_output, ram_ce_output, mem.mem_ce_output, Bool.and_eq_true] at hce
  exact hce.1.1.2

section
variable (hrst : i.rst = false)
include hrst

theorem DStarts.excepttype (h : DStarts s i) : mem_excepttype_output s i = .none :=
  (flush_eq_false_iff hrst).mp h.2.2

theorem DStarts.ctl (h : DStarts s i) : ctl s i = .holdMem := by
  rw [ctl_eq_holdMem_iff hrst, bubblereq_from_mem_eq hrst]
  exact ⟨h.excepttype hrst, wishbone_bus.Starts.stallreq h⟩

theorem ctl_of_dbus_busy (hbusy : s.dwishbone.wishbone_state = .WB_BUSY)
    (hack : i.dwishbone_ack_input = false) (hflush : flush s i = false) : ctl s i = .holdMem := by
  rw [ctl_eq_holdMem_iff hrst, bubblereq_from_mem_eq hrst]
  exact ⟨(flush_eq_false_iff hrst).mp hflush, by simp [wishbone_bus.stallreq, hbusy, hack]⟩

theorem ctl_ne_holdMem_of_dbus_ack (hbusy : s.dwishbone.wishbone_state = .WB_BUSY)
    (hack : i.dwishbone_ack_input = true) : CPU_TOP.ctl s i ≠ .holdMem := by
  rw [Ne, ctl_eq_holdMem_iff hrst, bubblereq_from_mem_eq hrst]
  simp [wishbone_bus.stallreq, hbusy, hack]

theorem ex2mem_hold (hctl : CPU_TOP.ctl s i = .holdMem) : (step s i).ex2mem = s.ex2mem := by
  have h := congrArg Regs.mem (regs_step (s := s) hrst)
  rwa [hctl] at h

end

theorem isTlbWrite_of_isMem {op : AluOp} (h : op.isMem = true) : op.isTlbWrite = false := by
  cases op <;> first | rfl | exact absurd h (by decide)

theorem fault_hold (hrst : i.rst = false) (hrst' : i'.rst = false)
    (hctl : CPU_TOP.ctl s i = .holdMem) (hmem : s.ex2mem.mem_aluop.isMem = true) :
    fault (step s i) i' = fault s i := by
  have hreg := ex2mem_hold hrst hctl
  have haddr : ram_addr_output (step s i) i' = ram_addr_output s i := by
    simp only [ram_addr_output, hreg, hrst, hrst']
  have hwe : mmu_we (step s i) i' = mmu_we s i := by simp only [mmu_we, hreg, hrst, hrst']
  have htlb : (step s i).mmu.tlb_entry = s.mmu.tlb_entry := by
    simp [step, mmu.next, hrst, isTlbWrite_of_isMem hmem]
  have hhit : (step s i).mmu.data_hit =
      vir2phy.hit_index s.mmu.tlb_entry (ram_addr_output s i) s.mmu.data_hit := rfl
  have hidem := vir2phy.hit_index_idem s.mmu.tlb_entry (ram_addr_output s i) s.mmu.data_hit
  simp only [fault, hreg, hrst, hrst', mmu_is_tlbl_data, mmu_is_tlbs, mmu_is_tlb_modify,
    mmu.is_tlbl_data, mmu.is_tlbs, mmu.is_tlb_modify, mmu.missing, haddr, hwe, htlb, hhit, hidem]

end

namespace Execution

variable {e : Execution} {n a t m b : ℕ}

def DStarts (e : Execution) (n : ℕ) : Prop := CPU_TOP.DStarts (e.state n) (e.input n)

instance (e : Execution) (n : ℕ) : Decidable (e.DStarts n) :=
  inferInstanceAs (Decidable (CPU_TOP.DStarts _ _))

/-- The data bus has a transaction pending at the beginning of cycle `n`. -/
def DBusy (e : Execution) (n : ℕ) : Prop := (e.state n).dwishbone.wishbone_state = .WB_BUSY

/-- The transaction pending at cycle `n` was started in cycle `a` by the instruction
that is still in MEM, and has waited for its acknowledge ever since. -/
structure DPending (e : Execution) (a n : ℕ) : Prop where
  lt : a < n
  starts : e.DStarts a
  slot : (e.slots n).mem = (e.slots a).mem
  ex2mem : (e.state n).ex2mem = (e.state a).ex2mem
  waits : ∀ k, a < k → k < n → e.DBusy k ∧ (e.input k).dwishbone_ack_input = false
  drives : wishbone_bus.Drives (dbus_request (e.state a) (e.input a)) (e.state n).dwishbone
  fault : fault (e.state n) (e.input n) = .none

theorem slots_mem_hold (h : e.ctl n = .holdMem) : (e.slots (n + 1)).mem = (e.slots n).mem := by
  rw [slots_succ, h]
  rfl

theorem DStarts.pending (h : e.DStarts n) : e.DPending n (n + 1) where
  lt := Nat.lt_succ_self n
  starts := h
  slot := slots_mem_hold (CPU_TOP.DStarts.ctl (e.input_rst n) h)
  ex2mem := ex2mem_hold (e.input_rst n) (CPU_TOP.DStarts.ctl (e.input_rst n) h)
  waits := fun k hlo hhi => absurd hhi (by omega)
  drives := by
    rw [state_succ, dwishbone_step (e.input_rst n)]
    exact wishbone_bus.Starts.drives h
  fault := by
    rw [state_succ, fault_hold (e.input_rst n) (e.input_rst (n + 1))
      (CPU_TOP.DStarts.ctl (e.input_rst n) h) (CPU_TOP.DStarts.isMem h)]
    exact fault_eq_none (e.input_rst n) (CPU_TOP.DStarts.excepttype (e.input_rst n) h)

theorem DPending.isMem (h : e.DPending a n) : (e.state n).ex2mem.mem_aluop.isMem = true := by
  rw [h.ex2mem]
  exact CPU_TOP.DStarts.isMem h.starts

theorem DPending.succ (h : e.DPending a n) (hbusy : e.DBusy n)
    (hack : (e.input n).dwishbone_ack_input = false)
    (hflush : flush (e.state n) (e.input n) = false) : e.DPending a (n + 1) := by
  have hrst := e.input_rst n
  have hctl : e.ctl n = .holdMem := ctl_of_dbus_busy hrst hbusy hack hflush
  refine ⟨h.lt.trans (Nat.lt_succ_self n), h.starts, (slots_mem_hold hctl).trans h.slot,
    (ex2mem_hold hrst hctl).trans h.ex2mem, ?_, ?_, ?_⟩
  · intro k hlo hhi
    obtain hk | rfl : k < n ∨ k = n := by omega
    · exact h.waits k hlo hk
    · exact ⟨hbusy, hack⟩
  · rw [state_succ, dwishbone_step hrst]
    exact h.drives.next hbusy hack hflush
  · rw [state_succ, fault_hold hrst (e.input_rst (n + 1)) hctl h.isMem]
    exact h.fault

/-- In every reachable state a pending data transaction belongs to the instruction in
MEM, which has started it once and waited since. -/
theorem DBusy.pending (h : e.DBusy n) : ∃ a, e.DPending a n := by
  induction n with
  | zero => exact absurd (dbus_idle_zero.symm.trans h) (by decide)
  | succ n ih =>
    have hbusy := h
    rw [DBusy, state_succ, dwishbone_step (e.input_rst n)] at hbusy
    obtain hstart | ⟨hprev, hack, hflush⟩ := wishbone_bus.busy_cases hbusy
    · exact ⟨n, DStarts.pending hstart⟩
    · obtain ⟨a, ha⟩ := ih hprev
      exact ⟨a, ha.succ hprev hack hflush⟩

theorem isMem_of_holdMem (h : e.ctl n = .holdMem) : (e.state n).ex2mem.mem_aluop.isMem = true := by
  have hrst := e.input_rst n
  obtain ⟨hexc, hreq⟩ := (ctl_eq_holdMem_iff hrst).mp h
  have hflush := (flush_eq_false_iff hrst).mpr hexc
  rw [bubblereq_from_mem_eq hrst, wishbone_bus.stallreq, hflush] at hreq
  cases hs : (e.state n).dwishbone.wishbone_state with
  | WB_IDLE =>
    rw [hs] at hreq
    exact CPU_TOP.DStarts.isMem ⟨hs, by simpa using hreq, hflush⟩
  | WB_BUSY =>
    obtain ⟨a, ha⟩ := DBusy.pending hs
    exact ha.isMem
  | WB_WAIT_FOR_STALL =>
    rw [hs] at hreq
    exact absurd hreq (by simp)

theorem DStarts.busy (h : e.DStarts n) : e.DBusy (n + 1) := by
  rw [DBusy, state_succ, dwishbone_step (e.input_rst n)]
  exact wishbone_bus.Starts.busy h

/-- A started transaction is pending for as long as its instruction is in MEM. -/
theorem DStarts.persists (h : e.DStarts a) (hslot : (e.slots a).mem = some t)
    (hn : (e.slots n).mem = some t) (hlt : a < m) (hle : m ≤ n) : e.DBusy m ∧ e.DPending a m := by
  induction m, hlt using Nat.le_induction with
  | base => exact ⟨h.busy, h.pending⟩
  | succ m hlt ih =>
    obtain ⟨hbusy, hpend⟩ := ih (by omega)
    have hrst := e.input_rst m
    have hhold : e.ctl m = .holdMem := by
      by_contra hctl
      exact mem_ne_of_left (hpend.slot.trans hslot) hctl (by omega) hn
    have hack : (e.input m).dwishbone_ack_input = false := by
      by_contra hack
      exact ctl_ne_holdMem_of_dbus_ack hrst hbusy (by simpa using hack) hhold
    have hflush := (flush_eq_false_iff hrst).mpr ((ctl_eq_holdMem_iff hrst).mp hhold).1
    refine ⟨?_, hpend.succ hbusy hack hflush⟩
    rw [DBusy, state_succ, dwishbone_step hrst, wishbone_bus.wishbone_state_next, hbusy]
    simp [hack, hflush]

theorem DStarts.unique (ha : e.DStarts a) (hb : e.DStarts b) (hsa : (e.slots a).mem = some t)
    (hsb : (e.slots b).mem = some t) : a = b := by
  refine unique_of_not_lt (P := fun k => e.DStarts k ∧ (e.slots k).mem = some t) ?_ ⟨ha, hsa⟩
    ⟨hb, hsb⟩
  intro a b ⟨ha, hsa⟩ ⟨hb, hsb⟩ hlt
  obtain ⟨hbusy, -⟩ := ha.persists hsa hsb hlt le_rfl
  exact absurd (hb.1.symm.trans hbusy) (by decide)

/-- A load or store that misses in the TLB raises an exception, unless it is the
instruction at address zero. -/
theorem excepttype_of_data_miss (hmem : (e.state n).ex2mem.mem_aluop.isMem = true)
    (hpc : (e.state n).ex2mem.mem_current_inst_addr ≠ ZeroWord)
    (hmiss : mmu_is_tlbl_data (e.state n) (e.input n) = true ∨
      mmu_is_tlbs (e.state n) (e.input n) = true) :
    e.excepttype n ≠ .none := by
  have hrst := e.input_rst n
  obtain ⟨hsys, -, -, htlbl⟩ := mem_quiet (.inl hmem)
  have hram : ram_addr_output (e.state n) (e.input n) = (e.state n).ex2mem.mem_mem_addr := by
    simp [ram_addr_output, mem.mem_addr_output, hrst, hmem]
  have haddr : (e.state n).ex2mem.mem_mem_addr ≠ ZeroWord := by
    rintro hzero
    simp [mmu_is_tlbl_data, mmu_is_tlbs, mmu.is_tlbl_data, mmu.is_tlbs, hram, hzero] at hmiss
  unfold Execution.excepttype mem_excepttype_output mem.excepttype_output
  cases hpend : mem.interrupt_pending (mem_cp0_cause (e.state n) (e.input n))
    (mem_cp0_status (e.state n) (e.input n)) <;>
    cases hl : mmu_is_tlbl_data (e.state n) (e.input n) <;> simp_all

end Execution

end CPU_TOP

end mips32s
