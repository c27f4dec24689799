import Mips32S.Exceptions.Precise
import Mips32S.Fetch.Guard
import Mips32S.Isa.Access

namespace mips32s.CPU_TOP

open pipeline Isa vir2phy

/-- The bus lines request an access at virtual address `vaddr` of an unmapped segment:
its physical address, its byte lanes, its direction and, for a store of `y`, the
bytes of `y` on these lanes. -/
structure Carries (acc : Access) (vaddr y : Word) (r : wishbone_bus.State) : Prop where
  stb : r.wishbone_stb_output = true
  cyc : r.wishbone_cyc_output = true
  addr : r.wishbone_addr_output = wishbone_bus.phy_wb_addr (0b000#3 ++ vaddr.extractLsb' 0 29)
  sel : r.wishbone_sel_output = acc.lanes vaddr
  we : r.wishbone_we_output = acc.store
  data : acc.store = true →
    ∀ j < acc.bytes, byte r.wishbone_data_output (offset vaddr + j) = byte y j

section
variable {s : State} {i : Input} {acc : Access}

theorem carries_of_drives {r : wishbone_bus.State} (hrst : i.rst = false)
    (hexc : mem_excepttype_output s i = .none) (hacc : access? s.ex2mem.mem_aluop = some acc)
    (halign : acc.Aligned s.ex2mem.mem_mem_addr)
    (hseg : is_kseg0_kseg1 s.ex2mem.mem_mem_addr = true)
    (h : wishbone_bus.Drives (dbus_request s i) r) :
    Carries acc s.ex2mem.mem_mem_addr s.ex2mem.mem_reg2 r := by
  have hmem : s.ex2mem.mem_aluop.isMem = true := by rw [← access?_isSome, hacc]; rfl
  refine ⟨h.stb, h.cyc, ?_, ?_, ?_, ?_⟩
  · rw [h.addr]
    simp [dbus_request, mmu_data_addr, ram_addr_output, mem.mem_addr_output, hrst, hmem,
      physical_addr, hseg, physical_addr_sm]
  · rw [h.sel]
    simp only [dbus_request, ram_sel_output, hrst]
    exact mem_sel_output_eq hacc halign
  · rw [h.we]
    simp [dbus_request, ram_we_output, mmu_we, mem.mem_we, hrst, hexc, access?_store hacc]
  · intro hstore j hj
    rw [h.data]
    simp only [dbus_request, ram_data_output, hrst]
    exact mem_data_output_byte hacc hstore halign _ _ hj

theorem ram_data_input_of_ack (hrst : i.rst = false) (hbusy : s.dwishbone.wishbone_state = .WB_BUSY)
    (hack : i.dwishbone_ack_input = true) (hwe : s.dwishbone.wishbone_we_output = false) :
    ram_data_input s i = i.dwishbone_data_input := by
  simp [ram_data_input, wishbone_bus.cpu_data_output, hrst, hbusy, hack, hwe]

theorem no_address_error (hrst : i.rst = false) (hexc : mem_excepttype_output s i = .none)
    (hpc : s.ex2mem.mem_current_inst_addr ≠ ZeroWord) :
    s.ex2mem.mem_excepttype.is_ADEL = false ∧ s.ex2mem.mem_excepttype.is_ADES = false := by
  rw [mem_excepttype_output, mem.excepttype_output, hrst, if_neg Bool.false_ne_true,
    if_neg hpc] at hexc
  simp only [ite_eq_iff', reduceCtorEq, imp_false] at hexc
  simp only [← Bool.not_eq_true]
  tauto

end

namespace Execution

variable {e : Execution} {n t N : ℕ}

/-- The virtual address of the access of instruction `t`, issued in cycle `m`. -/
def vaddr (e : Execution) (t m : ℕ) : Word :=
  id_reg1_output (e.state m) (e.input m) + ((e.inst t).extractLsb' 0 16).signExtend 32

/-- Up to cycle `N` the run takes no exception or interrupt, and has its program and
its data in the unmapped segments. -/
structure Unmapped (e : Execution) (N : ℕ) : Prop where
  excepttype : ∀ n ≤ N, e.excepttype n = .none
  fetch : ∀ n ≤ N, is_kseg0_kseg1 (e.state n).if_pc_reg.PC_output = true
  data : ∀ n ≤ N, (e.state n).ex2mem.mem_aluop.isMem = true →
    is_kseg0_kseg1 (e.state n).ex2mem.mem_mem_addr = true

/-- Instruction `t`, which leaves MEM in cycle `n`, has started exactly one data
transaction. From the start up to the acknowledge in cycle `n` the bus carries its own
access, and a load hands the value read from the acknowledged word to WB. -/
def AccessedOnce (e : Execution) (t n : ℕ) (acc : Access) : Prop :=
  ∃ a m, a < n ∧ e.Performs t a .bus ∧ (∀ k, e.Performs t k .bus → k = a) ∧ e.IssuedAt t m ∧
    (∀ k, a < k → k ≤ n → e.DBusy k ∧ ((e.input k).dwishbone_ack_input = true ↔ k = n) ∧
      Carries acc (e.vaddr t m) (id_reg2_output (e.state m) (e.input m)) (e.state k).dwishbone) ∧
    (acc.store = false → (e.slots (n + 1)).wb = some t ∧
      (e.state (n + 1)).mem2wb.wb_wdata =
        acc.loadValue (e.vaddr t m) (e.input n).dwishbone_data_input)

namespace Unmapped

variable (h : e.Unmapped N) (hn : n ≤ N)
include h hn

theorem unflagged : e.Unflagged n := by
  intro t hocc
  have hlt : t < n := occupies_lt hocc
  have hchecked : mmu.checked (e.state t).if_pc_reg.PC_output = false := by
    simp [mmu.checked, h.fetch t (by omega)]
  simp [Flagged, fetched, if_output, mmu_is_tlbl_inst, mmu.is_tlbl_inst, hchecked]

theorem pc_ne_zero (hslot : (e.slots n).mem = some t) :
    (e.state n).ex2mem.mem_current_inst_addr ≠ ZeroWord := by
  have hlt : t < n := occupies_lt (.of_mem hslot)
  intro hzero
  rw [(inMem hslot).current_inst_addr] at hzero
  have hseg := h.fetch t (by omega)
  change is_kseg0_kseg1 (e.pc t) = true at hseg
  rw [hzero] at hseg
  exact absurd hseg (by decide)

theorem safeCycle : SafeCycle (e.state n) (e.input n) := by
  have hrst := e.input_rst n
  have hexc := h.excepttype n hn
  refine ⟨fun hint => ?_, fun hbusy _ _ => ?_, fun hpc => ?_⟩
  · exact absurd hexc (by simp [Execution.excepttype, mem_excepttype_output_eq hrst, hint])
  · obtain ⟨a, ha⟩ := DBusy.pending hbusy
    have hex := (guarded (h.unflagged hn)).ex_eq_none ha.isMem
    exact (id_ex_idle hex).isMem
  · cases hslot : (e.slots n).mem with
    | none => simp [cpu_ram_ce_output, ram_ce_output, mem.mem_ce_output, (ex2mem_idle hslot).isMem]
    | some t => exact absurd hpc (h.pc_ne_zero hn hslot)

theorem aligned (hslot : (e.slots n).mem = some t) {acc : Access}
    (hacc : access? (e.state n).ex2mem.mem_aluop = some acc) :
    acc.Aligned (e.state n).ex2mem.mem_mem_addr := by
  have hflags := no_address_error (e.input_rst n) (h.excepttype n hn) (h.pc_ne_zero hn hslot)
  rw [(inMem hslot).excepttype] at hflags
  exact aligned_of_no_address_error hacc hflags.1 hflags.2

end Unmapped

theorem exists_issue (hslot : (e.slots n).mem = some t) :
    ∃ m, e.IssuedAt t m ∧ (e.state n).ex2mem.mem_mem_addr = e.vaddr t m ∧
      (e.state n).ex2mem.mem_reg2 = id_reg2_output (e.state m) (e.input m) := by
  obtain ⟨k, -, hmem, m, hissue, hex, hif⟩ := holdsMem hslot
  refine ⟨m, hissue, ?_, ?_⟩
  · rw [hmem]
    simp [ex_output, EX.mem_addr_output, hex, id_output, vaddr, hif, inst]
  · rw [hmem]
    simp [ex_output, hex, id_output]

theorem slots_wb_of_leaves (hleave : e.LeavesMemAt t n) : (e.slots (n + 1)).wb = some t := by
  obtain ⟨hctl | hctl, hslot⟩ := hleave <;> simp [slots_succ, hctl, hslot]

theorem mem2wb_of_leaves (hleave : e.LeavesMemAt t n) :
    (e.state (n + 1)).mem2wb = mem_output (e.state n) (e.input n) := by
  obtain ⟨hctl | hctl, -⟩ := hleave <;> rw [mem2wb_succ, hctl]

theorem ack_of_leaves (hbusy : e.DBusy n) (hpass : (e.ctl n).Passes) :
    (e.input n).dwishbone_ack_input = true := by
  have hrst := e.input_rst n
  obtain ⟨hexc, hreq⟩ := (ctl_passes_iff hrst).mp hpass
  rw [bubblereq_from_mem_eq hrst, wishbone_bus.stallreq, hbusy] at hreq
  by_contra hack
  exact absurd hreq (by simp [hack])

/-- Exactly-once data access. In a run without exceptions whose program and data lie
in the unmapped segments, whatever the acknowledge delays on both buses, each load or
store that leaves MEM has made its own access exactly once, and the waiting state of
the data bus never meets a load or store. -/
theorem accessed_once (e : Execution) (N : ℕ) (h : e.Unmapped N) :
    (∀ n t acc, n ≤ N → e.LeavesMemAt t n → access? (e.op t) = some acc → e.AccessedOnce t n acc) ∧
      ∀ n ≤ N, (e.state n).dwishbone.wishbone_state = .WB_WAIT_FOR_STALL →
        (e.state n).ex2mem.mem_aluop.isMem = false := by
  refine ⟨fun n t acc hn hleave hacc => ?_, fun n hn hwait => ?_⟩
  · have hslot := hleave.2
    rw [op, ← (inMem hslot).aluop] at hacc
    have hmem : (e.state n).ex2mem.mem_aluop.isMem = true := by rw [← access?_isSome, hacc]; rfl
    obtain ⟨a, han, hperf⟩ :=
      exists_start_of_leaves (fun k hk => h.safeCycle (by omega)) hleave hmem
    obtain ⟨m, hissue, haddr, hreg2⟩ := exists_issue hslot
    have hpend {k : ℕ} := hperf.2.persists hperf.1 hslot (m := k)
    have hcarries {k : ℕ} (hlo : a < k) (hhi : k ≤ n) :
        Carries acc (e.vaddr t m) (id_reg2_output (e.state m) (e.input m))
        (e.state k).dwishbone := by
      have hreg := (hpend han le_rfl).2.ex2mem
      rw [← haddr, ← hreg2, hreg]
      rw [hreg] at hacc
      exact carries_of_drives (e.input_rst a) (h.excepttype a (by omega)) hacc
        (h.aligned (by omega) hperf.1 hacc) (h.data a (by omega) (hreg ▸ hmem))
        (hpend hlo hhi).2.drives
    refine ⟨a, m, han, hperf, fun k hk => hk.2.unique hperf.2 hk.1 hperf.1, hissue,
      fun k hlo hhi => ?_, ?_⟩
    · refine ⟨(hpend hlo hhi).1, ⟨fun hack => ?_, fun hkn => ?_⟩, ?_⟩
      · by_contra hne
        exact absurd hack (by simp [((hpend han le_rfl).2.waits k hlo (by omega)).2])
      · rw [hkn]
        exact ack_of_leaves (hpend han le_rfl).1 hleave.1
      · exact hcarries hlo hhi
    · intro hload
      have hcarry := (hcarries han le_rfl)
      refine ⟨(slots_wb_of_leaves hleave), ?_⟩
      rw [mem2wb_of_leaves hleave, mem_output, e.input_rst n, ← haddr]
      rw [ram_data_input_of_ack (e.input_rst n) (hpend han le_rfl).1
        (ack_of_leaves (hpend han le_rfl).1 hleave.1) (hcarry.we.trans hload)]
      exact wdata_output_eq hacc hload (h.aligned hn hslot hacc) _ _
  · exact (wait_not_isMem (fun k hk => h.safeCycle (by omega)) hwait).1

/-- `lui $1, 0x8000; lw $2, 4($1)`: the load leaves MEM in cycle 9. -/
theorem accessed_once_lw :
    (straight 0#8 [0x3C018000#32, 0x8C220004#32]).Unmapped 9 ∧
      (straight 0#8 [0x3C018000#32, 0x8C220004#32]).LeavesMemAt 4 9 ∧
      (straight 0#8 [0x3C018000#32, 0x8C220004#32]).AccessedOnce 4 9 ⟨false, 4, false⟩ := by
  have hrun : (straight 0#8 [0x3C018000#32, 0x8C220004#32]).Unmapped 9 :=
    ⟨by decide +kernel, by decide +kernel, by decide +kernel⟩
  have hleave : (straight 0#8 [0x3C018000#32, 0x8C220004#32]).LeavesMemAt 4 9 :=
    ⟨.inl (by decide +kernel), by decide +kernel⟩
  exact ⟨hrun, hleave, (accessed_once _ 9 hrun).1 9 4 _ le_rfl hleave (by decide +kernel)⟩

end Execution

end mips32s.CPU_TOP
