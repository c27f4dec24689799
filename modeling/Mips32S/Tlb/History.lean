import Mips32S.Tlb.Coherence

namespace mips32s.CPU_TOP.Execution

open Isa pipeline
variable {e : Execution} {n t N : ℕ}

/-- What cycle `n` does to the TLB and its registers. -/
def tlbOp (e : Execution) (n : ℕ) : Option TlbOp := CPU_TOP.tlbOp (e.state n) (e.input n)

theorem tlbUnit_zero : (e.state 0).tlbUnit = .reset := by
  have hwb : (e.state 0).mem2wb = .bubble := congrArg Regs.wb regs_zero
  have hcp0 : (e.state 0).cp0.tlbRegs = TlbUnit.reset.toTlbRegs := by
    simp only [state, step, cp0_reg.next, e.reset1_rst, if_true]
    exact cp0_reg.tlbRegs_reset _ _
  have htlb : (e.state 0).mmu.tlb = TlbUnit.reset.tlb := by
    have hentry : (e.state 0).mmu.tlb_entry = fun _ => 0#63 := by
      simp only [state, step, mmu.next, e.reset1_rst, if_true]
    have hzero : TlbEntry.unpack 0#63 = ⟨0#19, ⟨0#20, false, false⟩, ⟨0#20, false, false⟩⟩ := by
      decide
    funext j
    change TlbEntry.unpack ((e.state 0).mmu.tlb_entry j) = _
    rwa [hentry]
  refine congrArg₂ TlbUnit.mk ?_ htlb
  rwa [wb_cp0, hwb]

theorem cp0_tlbRegs_succ : (e.state (n + 1)).cp0.tlbRegs =
    if (e.excepttype n).isTlb then
      { (e.state n).tlbUnit.toTlbRegs with vpn2 :=
        (except_badvaddr (e.state n) (e.input n)).extractLsb' 13 19 }
    else (e.state n).tlbUnit.toTlbRegs := by
  have htick : (cp0_reg.State.tick (e.input n).int_input (e.state n).cp0).tlbRegs =
      (e.state n).cp0.tlbRegs := rfl
  have hnow : (e.state n).tlbUnit.toTlbRegs =
      ((cp0_reg.State.tick (e.input n).int_input (e.state n).cp0).write (wb_cp0 (e.state n))
        (e.state n).mem2wb.tlb_write_struct).tlbRegs := by
    rw [cp0_reg.tlbRegs_write, htick, ← cp0_reg.tlbRegs_write]
    rfl
  rw [hnow]
  simp only [state_succ, step, cp0_reg.next, e.input_rst n, Bool.false_eq_true, if_false]
  exact cp0_reg.tlbRegs_except _ _ _ _ _ _

/-- The TLB registers after a cycle: the write that leaves MEM takes effect, or the
exception that is taken, or nothing. -/
theorem tlbRegs_succ
    (hplain : (e.ctl n).Passes → (tlbMove (e.state n).ex2mem).any TlbOp.usesRegs = true →
      cp0_reg.Plain (wb_cp0 (e.state n))) :
    (e.state (n + 1)).tlbUnit.toTlbRegs = match e.ctl n with
      | .go | .holdDecode => (tlbMove (e.state n).ex2mem).elim (e.state n).tlbUnit.toTlbRegs
          ((e.state n).tlbUnit.toTlbRegs.exec (e.state n).tlbUnit.tlb)
      | .holdMem => (e.state n).tlbUnit.toTlbRegs
      | .flush => if (e.excepttype n).isTlb then
            { (e.state n).tlbUnit.toTlbRegs with vpn2 :=
            (except_badvaddr (e.state n) (e.input n)).extractLsb' 13 19 }
          else (e.state n).tlbUnit.toTlbRegs := by
  have hunit : (e.state (n + 1)).tlbUnit.toTlbRegs =
      cp0_reg.tlbWrite (wb_cp0 (e.state (n + 1))) (e.state (n + 1)).mem2wb.tlb_write_struct
        (e.state (n + 1)).cp0.tlbRegs := cp0_reg.tlbRegs_write _ _ _
  have hnone (h : e.ctl n ≠ .flush) : (e.excepttype n).isTlb = false := by
    rw [Ne, ctl_eq_flush, not_not] at h
    rw [h]
    rfl
  rw [hunit, cp0_tlbRegs_succ, wb_cp0, mem2wb_succ]
  cases hctl : e.ctl n with
  | go | holdDecode =>
    rw [hnone (by simp [hctl])]
    exact tlbWrite_move (e.input_rst n) (hplain (by simp [Ctl.Passes, hctl]))
  | holdMem =>
    rw [hnone (by simp [hctl])]
    rfl
  | flush => rfl

theorem write_of_tlbMove {r : EX2MEM} {op : TlbOp} {u : TlbUnit} (h : tlbMove r = some op) :
    u.toTlbRegs.write u.tlb op = u.tlb := by
  unfold tlbMove at h
  split_ifs at h <;> cases h <;> rfl

section
variable (h : (e.state n).ex2mem.mem_aluop.isTlbWrite = true)
include h

theorem tlbMove_of_isTlbWrite : tlbMove (e.state n).ex2mem = none := by
  have hwe : (e.state n).ex2mem.mem_cp0_reg_we = false := by
    cases hslot : (e.slots n).mem with
    | none => exact (ex2mem_idle hslot).cp0_reg_we
    | some t =>
      rw [(inMem hslot).cp0_reg_we]
      rw [(inMem hslot).aluop] at h
      cases hop : (ID.decode (e.inst t)).aluop <;> simp_all [AluOp.isTlbWrite, AluOp.writesCp0]
  simp [tlbMove, hwe]

theorem isTlb_of_isTlbWrite : (e.excepttype n).isTlb = false := by
  rw [excepttype, mem_excepttype_output_eq (e.input_rst n), fault_of_isTlbWrite h]
  split_ifs <;> rfl

theorem tlbRegs_succ_of_isTlbWrite :
    (e.state (n + 1)).tlbUnit.toTlbRegs = (e.state n).tlbUnit.toTlbRegs := by
  have hmove := tlbMove_of_isTlbWrite h
  rw [tlbRegs_succ (by simp [hmove]), hmove, isTlb_of_isTlbWrite h]
  cases e.ctl n <;> rfl

theorem tlb_succ_of_isTlbWrite (hplain : cp0_reg.Plain (wb_cp0 (e.state n))) :
    (e.state (n + 1)).tlbUnit.tlb = Function.update (e.state n).tlbUnit.tlb
      (if (e.state n).ex2mem.mem_aluop = .EXE_TLBWR_OP
        then ((e.state n).cp0.random_output.extractLsb' 0 4).toFin
        else (e.state n).tlbUnit.index.toFin)
      (e.state n).tlbUnit.entry := by
  have hrst := e.input_rst n
  refine (tlb_step hrst).trans ?_
  rw [h, if_pos rfl, mem_entry_eq hrst hplain]
  congr 1
  rw [mem.tlb_write_index, mem_index_eq hrst hplain, mem_cp0_random, hrst]
  exact apply_ite BitVec.toFin _ _ _

end

theorem tlb_succ_of_not_isTlbWrite (h : (e.state n).ex2mem.mem_aluop.isTlbWrite = false) :
    (e.state (n + 1)).tlbUnit.tlb = (e.state n).tlbUnit.tlb := by
  refine (tlb_step (e.input_rst n)).trans ?_
  rw [h]
  rfl

theorem tlbUnit_succ_of_isTlbWrite (h : (e.state n).ex2mem.mem_aluop.isTlbWrite = true)
    (hplain : cp0_reg.Plain (wb_cp0 (e.state n))) :
    (e.state (n + 1)).tlbUnit = (e.state n).tlbUnit.exec
      (if (e.state n).ex2mem.mem_aluop = .EXE_TLBWR_OP
        then .tlbwr ((e.state n).cp0.random_output.extractLsb' 0 4) else .tlbwi) := by
  have hregs := tlbRegs_succ_of_isTlbWrite h
  have htlb := tlb_succ_of_isTlbWrite h hplain
  split_ifs at htlb ⊢ <;> exact congrArg₂ TlbUnit.mk hregs htlb

section
variable (h : (e.state n).ex2mem.mem_aluop.isTlbWrite = false)
include h

/-- An instruction that leaves MEM and writes no TLB entry moves a value to a register,
reads the TLB or does nothing. -/
theorem tlbUnit_succ_of_passes (hpass : (e.ctl n).Passes)
    (hplain : (tlbMove (e.state n).ex2mem).any TlbOp.usesRegs = true →
      cp0_reg.Plain (wb_cp0 (e.state n))) :
    (e.state (n + 1)).tlbUnit =
      (tlbMove (e.state n).ex2mem).elim (e.state n).tlbUnit (e.state n).tlbUnit.exec := by
  have htlb := tlb_succ_of_not_isTlbWrite h
  have hregs : (e.state (n + 1)).tlbUnit.toTlbRegs =
      (tlbMove (e.state n).ex2mem).elim (e.state n).tlbUnit.toTlbRegs
        ((e.state n).tlbUnit.toTlbRegs.exec (e.state n).tlbUnit.tlb) := by
    rw [tlbRegs_succ fun _ => hplain]
    obtain hctl | hctl := hpass <;> rw [hctl]
  cases hmove : tlbMove (e.state n).ex2mem with
  | none =>
    rw [hmove] at hregs
    exact congrArg₂ TlbUnit.mk hregs htlb
  | some op =>
    rw [hmove] at hregs
    exact congrArg₂ TlbUnit.mk hregs (htlb.trans (write_of_tlbMove hmove).symm)

/-- An exception of the TLB updates EntryHi, any other leaves the registers alone. -/
theorem tlbUnit_succ_of_flush (hctl : e.ctl n = .flush) :
    (e.state (n + 1)).tlbUnit =
      (if (e.excepttype n).isTlb then some
        (.fault (except_badvaddr (e.state n) (e.input n))) else none).elim
        (e.state n).tlbUnit (e.state n).tlbUnit.exec := by
  have htlb := tlb_succ_of_not_isTlbWrite h
  have hregs := tlbRegs_succ (e := e) (n := n) (by simp [hctl, Ctl.Passes])
  rw [hctl] at hregs
  cases hexc : (e.excepttype n).isTlb <;> rw [hexc] at hregs <;>
    exact congrArg₂ TlbUnit.mk hregs htlb

end

theorem tlbUnit_succ (hset : Settled (e.state n) (e.input n)) :
    (e.state (n + 1)).tlbUnit = (e.tlbOp n).elim (e.state n).tlbUnit (e.state n).tlbUnit.exec := by
  unfold Settled at hset
  unfold tlbOp
  unfold CPU_TOP.tlbOp at hset ⊢
  by_cases hwi : (e.state n).ex2mem.mem_aluop = .EXE_TLBWI_OP
  · rw [if_pos hwi] at hset ⊢
    rw [tlbUnit_succ_of_isTlbWrite (by rw [hwi]; rfl) (hset rfl), hwi]
    rfl
  by_cases hwr : (e.state n).ex2mem.mem_aluop = .EXE_TLBWR_OP
  · rw [if_neg hwi, if_pos hwr] at hset ⊢
    rw [tlbUnit_succ_of_isTlbWrite (by rw [hwr]; rfl) (hset rfl), hwr]
    rfl
  rw [if_neg hwi, if_neg hwr] at hset ⊢
  have hwrite : (e.state n).ex2mem.mem_aluop.isTlbWrite = false := by
    cases hop : (e.state n).ex2mem.mem_aluop <;> simp_all [AluOp.isTlbWrite]
  cases hctl : CPU_TOP.ctl (e.state n) (e.input n) with
  | go =>
    rw [hctl] at hset
    exact tlbUnit_succ_of_passes hwrite (.inl hctl) hset
  | holdDecode =>
    rw [hctl] at hset
    exact tlbUnit_succ_of_passes hwrite (.inr hctl) hset
  | holdMem =>
    have hregs := tlbRegs_succ (e := e) (n := n)
    rw [show e.ctl n = _ from hctl] at hregs
    exact congrArg₂ TlbUnit.mk (hregs (by simp [Ctl.Passes])) (tlb_succ_of_not_isTlbWrite hwrite)
  | flush => exact tlbUnit_succ_of_flush hwrite hctl

theorem tlbOp_of_leaves (h : e.LeavesMemAt t n) :
    ∃ m, e.IssuedAt t m ∧
      e.tlbOp n = TlbOp.ofInst (e.inst t) (id_reg1_output (e.state m) (e.input m))
      ((e.state n).cp0.random_output.extractLsb' 0 4) := by
  obtain ⟨k, -, hr, hex⟩ := holdsMem h.2
  have hin := inEx_of_holds hex
  obtain ⟨m, hissue, hid, -⟩ := hex
  have hreg1 : (e.state k).id_ex.ex_reg1 = id_reg1_output (e.state m) (e.input m) := by
    rw [hid, id_output]
  refine ⟨m, hissue, tlbOp_eq_ofInst h.1 ?_ ?_⟩
  · rw [hr, ← hin.aluop]
    rfl
  · rw [hr, ← hin.aluop, ← hin.inst, ← hreg1, ← e.input_rst k]
    rfl

/-- The TLB and its registers after `N` cycles are what the instruction stream has made
of them, one operation after the other; an instruction that leaves MEM contributes the
operation of its word, with the operand it was issued with. The MMU translates every
mapped address by the lowest-numbered entry of that TLB. -/
theorem tlb_coherence (e : Execution) (N : ℕ) (hset : ∀ n < N, Settled (e.state n) (e.input n)) :
    (e.state N).tlbUnit = (trace.log e.tlbOp N).foldl TlbUnit.exec .reset ∧
      (∀ n < N, ∀ t, e.LeavesMemAt t n → ∃ m, e.IssuedAt t m ∧
        e.tlbOp n = TlbOp.ofInst (e.inst t) (id_reg1_output (e.state m) (e.input m))
          ((e.state n).cp0.random_output.extractLsb' 0 4)) ∧
      ∀ vaddr held, Mapped vaddr →
        Translates (e.state N).mmu vaddr held (e.state N).tlbUnit.tlb := by
  refine ⟨?_, fun n _ t h => tlbOp_of_leaves h, fun vaddr held h => translates _ vaddr held h⟩
  induction N with
  | zero => exact tlbUnit_zero
  | succ N ih =>
    rw [tlbUnit_succ (hset N (by omega)), trace.log, List.foldl_append,
      ← ih fun n hn => hset n (by omega)]
    cases e.tlbOp N <;> rfl

/-- A run that fills entry 3: `lui t0,1; mtc0 t0,EntryHi; li t1,0x47; mtc0 t1,EntryLo0;
mtc0 t1,EntryLo1; li t2,3; mtc0 t2,Index; tlbwi; tlbp; tlbr`. -/
def filledEntry : Execution :=
  straight 0#8 [0x3C080001#32, 0x40885000#32, 0x34090047#32, 0x40891000#32, 0x40891800#32,
    0x340A0003#32, 0x408A0000#32, 0x42000002#32, 0x42000008#32, 0x42000001#32]

theorem tlb_coherence_filledEntry :
    (∀ n < 30, Settled (filledEntry.state n) (filledEntry.input n)) ∧
      (filledEntry.state 30).tlbUnit = (trace.log filledEntry.tlbOp 30).foldl TlbUnit.exec .reset ∧
      (filledEntry.state 30).tlbUnit.tlb 3 = ⟨8#19, ⟨1#20, true, true⟩, ⟨1#20, true, true⟩⟩ := by
  have hset : ∀ n < 30, Settled (filledEntry.state n) (filledEntry.input n) := by decide +kernel
  exact ⟨hset, (tlb_coherence filledEntry 30 hset).1, by decide +kernel⟩

end mips32s.CPU_TOP.Execution
