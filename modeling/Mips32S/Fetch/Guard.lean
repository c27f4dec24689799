import Mips32S.Bus.DataBus
import Mips32S.Bus.FetchBus
import Mips32S.Isa.Tlb

namespace mips32s.CPU_TOP

open pipeline Isa

/-- If the address is in a mapped segment, some TLB entry maps it to a valid page. -/
def FetchValid (m : mmu.State) (vaddr : Word) : Prop :=
  Mapped vaddr → ∃ j, (m.tlb j).Matches vaddr ∧ ((m.tlb j).page vaddr).v = true

instance (m : mmu.State) (vaddr : Word) : Decidable (FetchValid m vaddr) :=
  inferInstanceAs (Decidable (_ → _))

theorem FetchValid.congr {m m' : mmu.State} {vaddr : Word} (h : FetchValid m vaddr)
    (htlb : m'.tlb = m.tlb) :
    FetchValid m' vaddr := by
  unfold FetchValid at h ⊢
  rwa [htlb]

theorem fetchValid_of_not_tlbl {s : State} {i : Input} (hwe : mmu_we s i = false)
    (hmiss : mmu_is_tlbl_inst s i = false) (hpc : s.if_pc_reg.PC_output ≠ ZeroWord) :
    FetchValid s.mmu s.if_pc_reg.PC_output := by
  intro hmapped
  have hseg := is_kseg0_kseg1_of_mapped s.if_pc_reg.PC_output hmapped
  rw [mmu_is_tlbl_inst, mmu.is_tlbl_inst, hwe, missing_eq] at hmiss
  obtain ⟨p, hlookup, hv⟩ : ∃ p, lookup s.mmu.tlb s.if_pc_reg.PC_output = some p ∧ p.v = true := by
    simpa [mmu.checked, hseg, hpc, Option.any_eq_true] using hmiss
  obtain ⟨j, hprobe, rfl⟩ := Option.map_eq_some_iff.mp hlookup
  exact ⟨j, (probe_eq_some_iff.mp hprobe).1, hv⟩

theorem isLoad_of_bubblereq_from_id {s : State} {i : Input} (h : bubblereq_from_id s i = true) :
    s.id_ex.ex_aluop.isLoad = true := by
  simp only [bubblereq_from_id, ID.bubble_require_wait_for_load, id_forward, Bool.or_eq_true,
    Bool.and_eq_true] at h
  obtain h | h := h <;> exact h.2.1.1

theorem isStore_eq_false_of_isLoad {op : AluOp} (h : op.isLoad = true) : op.isStore = false := by
  cases op <;> first | rfl | exact absurd h (by decide)

namespace Execution

variable {e : Execution} {n t a : ℕ}

/-- Instruction `t` was delivered as a fetch that missed in the TLB. -/
def Flagged (e : Execution) (t : ℕ) : Prop := (e.fetched t).is_inst_tlbl_output = true

/-- No instruction in the pipeline was delivered as a miss. -/
def Unflagged (e : Execution) (n : ℕ) : Prop := ∀ t, (e.slots n).Occupies t → ¬ e.Flagged t

theorem Flagged.pc_ne_zero (h : e.Flagged t) : e.pc t ≠ ZeroWord := by
  intro hpc
  have hzero : (e.state t).if_pc_reg.PC_output = ZeroWord := hpc
  have hmiss : mmu_is_tlbl_inst (e.state t) (e.input t) = true := h
  simp [mmu_is_tlbl_inst, mmu.is_tlbl_inst, hzero] at hmiss

section
variable (h : e.Flagged t) (hslot : (e.slots n).mem = some t)
include h hslot

theorem Flagged.is_tlbl_inst : (e.state n).ex2mem.mem_excepttype.is_tlbl_inst = true := by
  have hflag : (e.fetched t).is_inst_tlbl_output = true := h
  rw [(inMem hslot).excepttype, decodeFlags, hflag]
  simp [EX.excepttype_output, ID.excepttype_output, h.pc_ne_zero]

theorem Flagged.excepttype :
    e.excepttype n = if interrupted (e.state n) (e.input n) then .interrupt else .tlbl_inst := by
  have hrst := e.input_rst n
  have hin := inMem hslot
  have hpc : (e.state n).ex2mem.mem_current_inst_addr ≠ ZeroWord := by
    rw [hin.current_inst_addr]
    exact h.pc_ne_zero
  have hsys : (e.state n).ex2mem.mem_excepttype.is_syscall = false := by
    rw [hin.excepttype, decodeFlags, inst_eq_zero_of_tlbl h]
    rfl
  rw [Execution.excepttype, mem_excepttype_output_eq hrst]
  simp [fault, mem.excepttype_output, hrst, hpc, hsys, h.is_tlbl_inst hslot]

theorem Flagged.ctl : e.ctl n = .flush := by
  rw [ctl_eq_flush, h.excepttype hslot]
  split_ifs <;> simp

end

theorem wb_not_flagged (hslot : (e.slots n).wb = some t) : ¬ e.Flagged t := by
  intro h
  obtain ⟨k, ⟨hpass, hmem⟩, -⟩ := holdsWb hslot
  rw [h.ctl hmem] at hpass
  simp [Ctl.Passes] at hpass

theorem Unflagged.of_succ (h : e.Unflagged (n + 1)) (hctl : e.ctl n ≠ .flush) : e.Unflagged n := by
  intro t hocc
  by_cases hwb : (e.slots n).wb = some t
  · exact wb_not_flagged hwb
  · exact h t (hocc.next _ hctl hwb)

/-- What holds as long as nothing in the pipeline is flagged. Fetching spaces the
instructions out: while a fetch is under way EX is empty, and while none is MEM is
empty or EX is and MEM has no store. So a fetch never starts behind a store, and
neither its address nor the TLB changes before a store behind it is through. -/
structure Guarded (e : Execution) (n : ℕ) : Prop where
  fetching : (e.state n).iwishbone.wishbone_state ≠ .WB_IDLE → (e.slots n).ex = none
  idle : (e.state n).iwishbone.wishbone_state = .WB_IDLE →
    (e.slots n).mem = none ∨ ((e.slots n).ex = none ∧ (e.state n).ex2mem.mem_aluop.isStore = false)
  masked : (e.state n).iwishbone.wishbone_state ≠ .WB_IDLE →
    (e.state n).ex2mem.mem_aluop.isStore = true →
    (e.state n).if_pc_reg.PC_output ≠ ZeroWord →
      FetchValid (e.state n).mmu (e.state n).if_pc_reg.PC_output
  started : ∀ a < n, e.IStarts a → (∀ k, a ≤ k → k < n → e.ctl k ≠ .go ∧ e.ctl k ≠ .flush) →
    (e.state a).if_pc_reg.PC_output ≠ ZeroWord →
      FetchValid (e.state a).mmu (e.state a).if_pc_reg.PC_output

theorem isStore_eq_false_of_mem_none (h : (e.slots n).mem = none) :
    (e.state n).ex2mem.mem_aluop.isStore = false := by
  obtain hop | hop := (ex2mem_idle h).aluop <;> rw [hop] <;> rfl

theorem tlb_succ (h : (e.state n).ex2mem.mem_aluop.isTlbWrite = false) :
    (e.state (n + 1)).mmu.tlb = (e.state n).mmu.tlb := by
  have hentry : (e.state (n + 1)).mmu.tlb_entry = (e.state n).mmu.tlb_entry := by
    simp [state_succ, step, mmu.next, e.input_rst n, h]
  unfold mmu.State.tlb
  rw [hentry]

namespace Guarded

variable (h : e.Guarded n)
include h

theorem not_store_of_idle (hs : (e.state n).iwishbone.wishbone_state = .WB_IDLE) :
    (e.state n).ex2mem.mem_aluop.isStore = false :=
  (h.idle hs).elim isStore_eq_false_of_mem_none And.right

theorem start (hst : e.IStarts n) (hpc : (e.state n).if_pc_reg.PC_output ≠ ZeroWord) :
    FetchValid (e.state n).mmu (e.state n).if_pc_reg.PC_output := by
  refine fetchValid_of_not_tlbl (i := e.input n) ?_ ?_ hpc
  · rw [mmu_we, mem.mem_we, h.not_store_of_idle hst.1, Bool.and_false]
  · have hce : rom_ce (e.state n) (e.input n) = true := hst.2.1
    simp only [rom_ce, Bool.and_eq_true, Bool.not_eq_true'] at hce
    exact hce.2

theorem started_succ (ha : a < n + 1) (hst : e.IStarts a)
    (hquiet : ∀ k, a ≤ k → k < n + 1 → e.ctl k ≠ .go ∧ e.ctl k ≠ .flush)
    (hpc : (e.state a).if_pc_reg.PC_output ≠ ZeroWord) :
    FetchValid (e.state a).mmu (e.state a).if_pc_reg.PC_output := by
  obtain rfl | hlt : a = n ∨ a < n := by omega
  · exact h.start hst hpc
  · exact h.started a hlt hst (fun k hlo hhi => hquiet k hlo (by omega)) hpc

theorem ex_eq_none (hmem : (e.state n).ex2mem.mem_aluop.isMem = true) : (e.slots n).ex = none := by
  by_cases hs : (e.state n).iwishbone.wishbone_state = .WB_IDLE
  · refine ((h.idle hs).resolve_left fun hnone => ?_).1
    exact absurd hmem (by simp [(ex2mem_idle hnone).isMem])
  · exact h.fetching hs

theorem succ_of_go (hflag : e.Unflagged (n + 1)) (hgo : e.ctl n = .go) : e.Guarded (n + 1) := by
  have hidle := ibus_idle_succ (.inl hgo)
  refine ⟨fun hne => absurd hidle hne, fun _ => .inl ?_, fun hne => absurd hidle hne,
    fun a ha _ hquiet => ?_⟩
  · have hmem : (e.slots (n + 1)).mem = (e.slots n).ex := by simp [slots_succ, hgo]
    rw [hmem]
    cases hce : (e.state n).if_pc_reg.chip_enable_flag with
    | true =>
      have hid : (e.slots (n + 1)).id = some n := by simp [slots_succ, hgo, hce]
      refine h.fetching (ibus_ne_idle_of_go hgo hce ?_)
      simpa [Flagged, fetched, if_output] using hflag n (.of_id hid)
    | false =>
      cases n with
      | zero => rfl
      | succ n => exact absurd ((chip_enable_succ n).symm.trans hce) (by decide)
  · exact absurd hgo (hquiet n (by omega) (by omega)).1

theorem succ_of_holdDecode (hctl : e.ctl n = .holdDecode) : e.Guarded (n + 1) := by
  have hrst := e.input_rst n
  have hex : (e.slots (n + 1)).ex = none := by simp [slots_succ, hctl]
  have hmem : (e.slots (n + 1)).mem = (e.slots n).ex := by simp [slots_succ, hctl]
  have hop : (e.state (n + 1)).ex2mem.mem_aluop = (e.state n).id_ex.ex_aluop := by
    rw [ex2mem_succ, hctl]; rfl
  refine ⟨fun _ => hex, fun hidle => .inr ⟨hex, ?_⟩, fun hne hstore hpc => ?_,
    fun a ha => h.started_succ ha⟩
  · -- no fetch is under way, so decode waits for a load in EX
    rw [hop]
    refine isStore_eq_false_of_isLoad (isLoad_of_bubblereq_from_id (i := e.input n) ?_)
    refine ((ctl_eq_holdDecode_iff hrst).mp hctl).2.2.resolve_right fun hif => ?_
    exact ibus_ne_idle_of_waiting hif (by simp [hctl]) hidle
  · have hslot : (e.slots n).ex ≠ none := fun hnone =>
      absurd hstore (by simp [isStore_eq_false_of_mem_none (hmem.trans hnone)])
    have hs : (e.state n).iwishbone.wishbone_state = .WB_IDLE := by
      by_contra hs
      exact hslot (h.fetching hs)
    have hst : e.IStarts n := by
      by_contra hno
      exact hne (ibus_idle_of_not_starts hs hno)
    have hnone : (e.slots n).mem = none := (h.idle hs).resolve_right fun h' => hslot h'.1
    have hpc' := PC_output_hold (CPU_TOP.IStarts.chip_enable hst) (by simp [hctl])
    rw [hpc'] at hpc ⊢
    exact (h.start hst hpc).congr (tlb_succ (ex2mem_idle hnone).isTlbWrite)

theorem succ_of_holdMem (hctl : e.ctl n = .holdMem) : e.Guarded (n + 1) := by
  have hmem := isMem_of_holdMem hctl
  have hex : (e.slots (n + 1)).ex = none := by simp [slots_succ, hctl, h.ex_eq_none hmem]
  have hop : (e.state (n + 1)).ex2mem = (e.state n).ex2mem := by rw [ex2mem_succ, hctl]
  have htlb := tlb_succ (isTlbWrite_of_isMem hmem)
  refine ⟨fun _ => hex, fun hidle => .inr ⟨hex, ?_⟩, fun hne hstore hpc => ?_,
    fun a ha => h.started_succ ha⟩
  · rw [hop]
    refine h.not_store_of_idle ?_
    by_contra hs
    exact ibus_ne_idle_of_hold hs (by simp [hctl]) hidle
  · rw [hop] at hstore
    have hs : (e.state n).iwishbone.wishbone_state ≠ .WB_IDLE := fun hs =>
      absurd hstore (by simp [h.not_store_of_idle hs])
    have hce : (e.state n).if_pc_reg.chip_enable_flag = true := by
      obtain ⟨a, ha⟩ := exists_fetching hs
      exact ha.chip_enable
    have hpc' := PC_output_hold hce (by simp [hctl])
    rw [hpc'] at hpc ⊢
    exact (h.masked hs hstore hpc).congr htlb

end Guarded

/-- As long as nothing in the pipeline is flagged, fetching is guarded. -/
theorem guarded (h : e.Unflagged n) : e.Guarded n := by
  induction n with
  | zero => exact ⟨fun _ => rfl, fun _ => .inl rfl, fun hne => absurd ibus_idle_zero hne,
      fun a ha => absurd ha (by omega)⟩
  | succ n ih =>
    cases hctl : e.ctl n with
    | flush =>
      have hidle := ibus_idle_succ (.inr hctl)
      refine ⟨fun hne => absurd hidle hne, fun _ => .inl (by rw [slots_succ, hctl]; rfl),
        fun hne => absurd hidle hne,
        fun a ha _ hquiet => absurd hctl (hquiet n (by omega) (by omega)).2⟩
    | go => exact (ih (h.of_succ (by simp [hctl]))).succ_of_go h hctl
    | holdDecode => exact (ih (h.of_succ (by simp [hctl]))).succ_of_holdDecode hctl
    | holdMem => exact (ih (h.of_succ (by simp [hctl]))).succ_of_holdMem hctl

end Execution

end mips32s.CPU_TOP
