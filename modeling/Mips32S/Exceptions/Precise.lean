import Mips32S.Exceptions.Effects

namespace mips32s.CPU_TOP

open pipeline

/-- The situations in which the processor takes exceptions precisely. No interrupt
hits while MEM writes the TLB or has a data transaction pending; no load or store
waits in EX when the pending transaction is acknowledged in a cycle that stalls
decode; no load or store at instruction address zero misses in the TLB. -/
@[mk_iff]
structure SafeCycle (s : State) (i : Input) : Prop where
  interrupt : interrupted s i = true →
    s.ex2mem.mem_aluop.isTlbWrite = false ∧ s.dwishbone.wishbone_state ≠ .WB_BUSY
  stalled : s.dwishbone.wishbone_state = .WB_BUSY → i.dwishbone_ack_input = true →
    (bubblereq_from_id s i = true ∨ bubblereq_from_if s i = true) → s.id_ex.ex_aluop.isMem = false
  zero : s.ex2mem.mem_current_inst_addr = ZeroWord → cpu_ram_ce_output s i = ram_ce_output s i

instance (s : State) (i : Input) : Decidable (SafeCycle s i) :=
  decidable_of_iff _ (safeCycle_iff s i).symm

namespace Execution

variable {e : Execution} {n k t k' : ℕ}

def Undone (e : Execution) (t : ℕ) : Prop := ∀ k eff, ¬ e.Performs t k eff

/-- By the end of cycle `n` instruction `t` has performed each side effect it calls
for exactly once, and it never performs any other. -/
def Done (e : Execution) (t n : ℕ) : Prop :=
  ∀ eff, (e.Demands t eff → ∃ k, k ≤ n ∧ e.Performs t k eff ∧ ∀ k', e.Performs t k' eff → k' = k) ∧
    (¬ e.Demands t eff → ∀ k, ¬ e.Performs t k eff)

/-- The exception taken in cycle `n` is precise: it hits an instruction `v` in MEM;
`v` and the younger instructions in the pipeline never have a side effect; every
older instruction has completed, each of its side effects having happened exactly
once, unless an earlier exception squashed it without any; and up to now an effect
changed the state by the values of its instruction, and nothing else changed it but
exception entry. -/
def Precise (e : Execution) (n : ℕ) : Prop :=
  ∃ v, (e.slots n).mem = some v ∧
    (∀ t, v ≤ t → (e.slots n).Occupies t → e.Undone t) ∧
    (∀ t, t < v → e.Delivered t →
      e.Done t n ∨ (e.Undone t ∧ ∃ k < n, e.ctl k = .flush ∧ (e.slots k).Occupies t)) ∧
    ∀ k ≤ n, e.Attributed k

theorem wait_not_isMem (hsafe : ∀ k < n, SafeCycle (e.state k) (e.input k))
    (hwait : (e.state n).dwishbone.wishbone_state = .WB_WAIT_FOR_STALL) :
    (e.state n).ex2mem.mem_aluop.isMem = false ∧ (e.slots n).ex = none := by
  induction n with
  | zero => exact absurd (dbus_idle_zero.symm.trans hwait) (by decide)
  | succ n ih =>
    have hrst := e.input_rst n
    rw [state_succ, dwishbone_step hrst] at hwait
    obtain ⟨hstall, hprev⟩ := wishbone_bus.wait_cases hwait
    have hreq : bubblereq_from_mem (e.state n) (e.input n) = false := by
      rw [bubblereq_from_mem_eq hrst, wishbone_bus.stallreq]
      obtain ⟨hs, hack⟩ | hs := hprev
      · simp [hs, hack]
      · simp [hs]
    have hctl : e.ctl n = .holdDecode := by
      cases hctl : e.ctl n with
      | go => exact absurd ((bubble_eq_zero_iff hrst).mpr (.inl hctl)) hstall
      | flush => exact absurd ((bubble_eq_zero_iff hrst).mpr (.inr hctl)) hstall
      | holdMem => exact absurd ((ctl_eq_holdMem_iff hrst).mp hctl).2 (by simp [hreq])
      | holdDecode => rfl
    refine ⟨?_, by rw [slots_succ, hctl]; rfl⟩
    have hop : (e.state (n + 1)).ex2mem.mem_aluop = (e.state n).id_ex.ex_aluop := by
      rw [ex2mem_succ, hctl]
      rfl
    rw [hop]
    obtain ⟨hs, hack⟩ | hs := hprev
    · exact (hsafe n (Nat.lt_succ_self n)).stalled hs hack
        ((ctl_eq_holdDecode_iff hrst).mp hctl).2.2
    · obtain ⟨-, hex⟩ := ih (fun k hk => hsafe k (by omega)) hs
      exact (id_ex_idle hex).isMem

theorem exists_start_of_leaves (hsafe : ∀ k ≤ n, SafeCycle (e.state k) (e.input k))
    (hleave : e.LeavesMemAt t n) (hmem : (e.state n).ex2mem.mem_aluop.isMem = true) :
    ∃ a < n, e.Performs t a .bus := by
  have hrst := e.input_rst n
  obtain ⟨hpass, hslot⟩ := hleave
  obtain ⟨hexc, hreq⟩ := (ctl_passes_iff hrst).mp hpass
  have hflush := (flush_eq_false_iff hrst).mpr hexc
  cases hs : (e.state n).dwishbone.wishbone_state with
  | WB_BUSY =>
    obtain ⟨a, ha⟩ := DBusy.pending hs
    exact ⟨a, ha.lt, ha.slot.symm.trans hslot, ha.starts⟩
  | WB_WAIT_FOR_STALL =>
    have hnot := (wait_not_isMem (fun k hk => hsafe k hk.le) hs).1
    exact absurd hmem (by simp [hnot])
  | WB_IDLE =>
    -- an idle bus that does not hold the access must have been refused it by the MMU
    exfalso
    have hce : cpu_ram_ce_output (e.state n) (e.input n) = false := by
      rw [bubblereq_from_mem_eq hrst, wishbone_bus.stallreq, hs, hflush] at hreq
      simpa [dbus_request] using hreq
    have hram : ram_ce_output (e.state n) (e.input n) = true := by
      simp [ram_ce_output, mem.mem_ce_output, hrst, hmem]
    by_cases hpc : (e.state n).ex2mem.mem_current_inst_addr = ZeroWord
    · have := (hsafe n le_rfl).zero hpc
      simp [hce, hram] at this
    · refine excepttype_of_data_miss hmem hpc ?_ hexc
      cases hl : mmu_is_tlbl_data (e.state n) (e.input n) <;>
        cases hst : mmu_is_tlbs (e.state n) (e.input n) <;> simp_all [cpu_ram_ce_output]

theorem ctl_ne_holdMem_of_isTlbWrite (h : (e.state n).ex2mem.mem_aluop.isTlbWrite = true) :
    e.ctl n ≠ .holdMem :=
      fun hhold => absurd h (by simp [isTlbWrite_of_isMem (isMem_of_holdMem hhold)])

theorem tlb_unique (h : e.Performs t k .tlb) (h' : e.Performs t k' .tlb) : k' = k :=
  unique_of_not_lt (P := fun k => e.Performs t k .tlb)
    (fun _ _ ha hb hlt => mem_ne_of_left ha.1 (ctl_ne_holdMem_of_isTlbWrite ha.2) hlt hb.1) h' h

/-- An instruction that reaches WB has performed all its side effects exactly once. -/
theorem done_of_wb (hsafe : ∀ k ≤ n, SafeCycle (e.state k) (e.input k)) (hk : k ≤ n)
    (hwb : (e.slots k).wb = some t) : e.Done t n := by
  have hin := inWb hwb
  obtain ⟨j, hleave, -⟩ := holdsWb hwb
  have hjk : j < k := mem_lt_wb hleave.2 hwb
  refine fun eff => ⟨fun hdem => ?_, fun hnot k hperf => hnot hperf.demands⟩
  cases eff with
  | gpr => exact ⟨k, hk, ⟨hwb, hin.wreg.trans hdem.1, hin.waddr ▸ hdem.2⟩,
      fun k' h' => wb_unique h'.1 hwb⟩
  | hilo => exact ⟨k, hk, ⟨hwb, hin.whilo.trans hdem⟩, fun k' h' => wb_unique h'.1 hwb⟩
  | cp0 => exact ⟨k, hk, ⟨hwb, hin.cp0_reg_we.trans hdem⟩, fun k' h' => wb_unique h'.1 hwb⟩
  | tlb =>
    have hperf : e.Performs t j .tlb :=
      ⟨hleave.2, (congrArg AluOp.isTlbWrite (inMem hleave.2).aluop).trans hdem⟩
    exact ⟨j, by omega, hperf, fun k' h' => tlb_unique hperf h'⟩
  | bus =>
    obtain ⟨a, ha, hperf⟩ := exists_start_of_leaves (fun k hk => hsafe k (by omega)) hleave
      ((congrArg AluOp.isMem (inMem hleave.2).aluop).trans hdem)
    exact ⟨a, by omega, hperf, fun k' h' => h'.2.unique hperf.2 h'.1 hperf.1⟩

theorem fault_of_isTlbWrite (htlb : (e.state n).ex2mem.mem_aluop.isTlbWrite = true) :
    fault (e.state n) (e.input n) = .none := by
  have hrst := e.input_rst n
  obtain ⟨hsys, hinv, heret, htlbl⟩ := mem_quiet (.inr htlb)
  have hmem : (e.state n).ex2mem.mem_aluop.isMem = false := by
    by_contra hmem
    exact absurd htlb (by simp [isTlbWrite_of_isMem (by simpa using hmem)])
  have hadel : (e.state n).ex2mem.mem_excepttype.is_ADEL = false ∧
      (e.state n).ex2mem.mem_excepttype.is_ADES = false := by
    cases hslot : (e.slots n).mem with
    | none => simp [(ex2mem_idle hslot).excepttype, ExceptFlags.zero]
    | some t =>
      rw [(inMem hslot).excepttype]
      generalize (e.state n).ex2mem.mem_aluop = op at htlb
      cases op <;> first | exact ⟨rfl, rfl⟩ | exact absurd htlb (by decide)
  simp [fault, mem.excepttype_output, hrst, hsys, hinv, heret, htlbl, hadel,
    no_data_fault hrst hmem]

section
variable (hsafe : SafeCycle (e.state n) (e.input n)) (hctl : e.ctl n = .flush)
include hsafe hctl

/-- The instruction an exception hits has neither written the TLB nor started a transaction. -/
theorem victim_undone (hslot : (e.slots n).mem = some t) :
    ¬ e.Performs t k .tlb ∧ ¬ e.Performs t k .bus := by
  have hrst := e.input_rst n
  have hexc : mem_excepttype_output (e.state n) (e.input n) ≠ .none :=
    (ctl_eq_flush_iff hrst).mp hctl
  have hint (hfault : fault (e.state n) (e.input n) = .none) :
      interrupted (e.state n) (e.input n) = true := by
    by_contra hint
    exact hexc (by simp [mem_excepttype_output_eq hrst, hint, hfault])
  have hle {k : ℕ} (hk : (e.slots k).mem = some t) : k ≤ n := by
    by_contra hlt
    exact mem_ne_of_left hslot (by simp [hctl]) (by omega) hk
  constructor
  · rintro ⟨hk, htlb⟩
    obtain rfl : k = n := by
      by_contra hne
      exact mem_ne_of_left hk (ctl_ne_holdMem_of_isTlbWrite htlb)
        (lt_of_le_of_ne (hle hk) hne) hslot
    exact absurd htlb (by simp [(hsafe.interrupt (hint (fault_of_isTlbWrite htlb))).1])
  · rintro ⟨hk, hstart⟩
    obtain hlt | rfl := (hle hk).lt_or_eq
    · obtain ⟨hbusy, hpend⟩ := hstart.persists hk hslot hlt le_rfl
      exact (hsafe.interrupt (hint hpend.fault)).2 hbusy
    · exact hexc (CPU_TOP.DStarts.excepttype hrst hstart)

theorem undone_of_squashed (hocc : (e.slots n).Occupies t) (hwb : (e.slots n).wb ≠ some t) :
    e.Undone t := by
  have hsq : SquashedAt e.ctl (fun n => (e.state n).if_pc_reg.chip_enable_flag) t n :=
    ⟨hctl, hocc, hwb⟩
  have hmem (k : ℕ) : ¬ e.Performs t k .tlb ∧ ¬ e.Performs t k .bus := by
    by_cases hslot : (e.slots n).mem = some t
    · exact victim_undone hsafe hctl hslot
    · exact ⟨fun h => hsq.mem_ne hslot k h.1, fun h => hsq.mem_ne hslot k h.1⟩
  intro k eff h
  cases eff with
  | gpr => exact hsq.wb_ne k h.1
  | hilo => exact hsq.wb_ne k h.1
  | cp0 => exact hsq.wb_ne k h.1
  | tlb => exact (hmem k).1 h
  | bus => exact (hmem k).2 h

end

/-- `ori $1, $0, 5; syscall; sw $1, 0($0)`. -/
def syscallBetween : Execution := straight 0#8 [0x34010005#32, 0x0000000C#32, 0xAC010000#32]

/-- `lui $2, 0x1234; mtc0 $2, EntryHi; ori $1, $0, 0x101; mtc0 $1, Status; tlbwi`
with interrupt line 0 raised all the time: the write to Status enables it, and the
interrupt hits the TLB write. -/
def interruptedTlbWrite : Execution :=
  straight 0x01#8 [0x3C021234#32, 0x40825000#32, 0x34010101#32, 0x40816000#32, EXE_TLBWI]

end Execution

end mips32s.CPU_TOP
