import Mips32S.Exceptions.Precise
import Mips32S.Lib.Trace
import Mips32S.Tlb.Registers

namespace mips32s

open Isa pipeline vir2phy BitVec

theorem unpack_tlb_write_entry (hi lo1 lo0 : Word) :
    TlbEntry.unpack (mem.tlb_write_entry hi lo1 lo0) =
      ⟨hi.extractLsb' 13 19, .ofEntryLo lo1, .ofEntryLo lo0⟩ := by
  unfold mem.tlb_write_entry TlbEntry.unpack Page.ofEntryLo
  simp (disch := decide) only [extractLsb'_append_eq_of_le,
    extractLsb'_append_eq_of_add_le, getLsbD_append, getLsbD_extractLsb']
  simp

namespace CPU_TOP

/-- The TLB and its registers as the instruction in MEM is to see them: with the
write of the instruction in WB. -/
def State.tlbUnit (s : State) : TlbUnit :=
  ⟨(s.cp0.write (wb_cp0 s) s.mem2wb.tlb_write_struct).tlbRegs, s.mmu.tlb⟩

/-- The register move or TLB read of the instruction in MEM. -/
def tlbMove (r : EX2MEM) : Option TlbOp :=
  if r.mem_cp0_reg_we = false then none
  else if r.mem_cp0_reg_write_addr = CP0_REG_INDEX then some (.index r.mem_cp0_reg_data)
  else if r.mem_cp0_reg_write_addr = CP0_REG_ENTRYLO0 then some (.entryLo0 r.mem_cp0_reg_data)
  else if r.mem_cp0_reg_write_addr = CP0_REG_ENTRYLO1 then some (.entryLo1 r.mem_cp0_reg_data)
  else if r.mem_cp0_reg_write_addr = CP0_REG_ENTRYHI then some (.entryHi r.mem_cp0_reg_data)
  else if r.mem_cp0_reg_write_addr = CP0_TLBR then
    if r.mem_aluop = .EXE_TLBP_OP then none else some .tlbr
  else if r.mem_cp0_reg_write_addr = CP0_TLBP then
    if r.mem_aluop = .EXE_TLBP_OP then some .tlbp else none
  else none

/-- The address a TLB exception reports. -/
def except_badvaddr (s : State) (i : Input) : Word :=
  mem.badvaddr_output s.ex2mem.mem_excepttype s.ex2mem.mem_current_inst_addr (mmu_badvaddr s i)

/-- What the cycle does to the TLB and its registers: a TLB write in MEM, else the
update of EntryHi by an exception, else the move or read that leaves MEM. -/
def tlbOp (s : State) (i : Input) : Option TlbOp :=
  if s.ex2mem.mem_aluop = .EXE_TLBWI_OP then some .tlbwi
  else if s.ex2mem.mem_aluop = .EXE_TLBWR_OP then
    some (.tlbwr (s.cp0.random_output.extractLsb' 0 4))
  else match ctl s i with
    | .flush =>
      if (mem_excepttype_output s i).isTlb then some (.fault (except_badvaddr s i)) else none
    | .holdMem => none
    | .go | .holdDecode => tlbMove s.ex2mem

/-- No TLB instruction in MEM comes right behind a `TLBR` or `TLBP` in WB. -/
def Settled (s : State) (i : Input) : Prop :=
  (tlbOp s i).any TlbOp.usesRegs = true → cp0_reg.Plain (wb_cp0 s)

instance (s : State) (i : Input) : Decidable (Settled s i) := inferInstanceAs (Decidable (_ → _))

variable {s : State} {i : Input}

section
variable (hrst : i.rst = false) (hplain : cp0_reg.Plain (wb_cp0 s))
include hrst hplain

theorem mem_index_eq : (mem_cp0_index s i).extractLsb' 0 4 = s.tlbUnit.index := by
  rw [mem_cp0_index, hrst]
  exact (cp0_reg.bypass_tlbRegs _ s.cp0 _ hplain).1

theorem mem_vpn2_eq : (mem_cp0_entryhi s i).extractLsb' 13 19 = s.tlbUnit.vpn2 := by
  rw [mem_cp0_entryhi, hrst]
  exact (cp0_reg.bypass_tlbRegs _ s.cp0 _ hplain).2.1

theorem mem_entry_eq :
    TlbEntry.unpack (mem.tlb_write_entry (mem_cp0_entryhi s i) (mem_cp0_entrylo1 s i)
      (mem_cp0_entrylo0 s i)) =
      s.tlbUnit.entry := by
  rw [unpack_tlb_write_entry, mem_vpn2_eq hrst hplain, mem_cp0_entrylo1, mem_cp0_entrylo0, hrst]
  rw [(cp0_reg.bypass_tlbRegs s.mem2wb.tlb_write_struct s.cp0 _ hplain).2.2.2,
    (cp0_reg.bypass_tlbRegs s.mem2wb.tlb_write_struct s.cp0 _ hplain).2.2.1]
  rfl

end

theorem tlb_step (hrst : i.rst = false) : (step s i).mmu.tlb =
    if s.ex2mem.mem_aluop.isTlbWrite then
      Function.update s.mmu.tlb
        (mem.tlb_write_index s.ex2mem.mem_aluop (mem_cp0_random s i) (mem_cp0_index s i)).toFin
        (TlbEntry.unpack (mem.tlb_write_entry (mem_cp0_entryhi s i) (mem_cp0_entrylo1 s i)
        (mem_cp0_entrylo0 s i)))
    else s.mmu.tlb := by
  funext j
  simp only [mmu.State.tlb, step, mmu.next, hrst, Bool.false_eq_true, if_false]
  split_ifs with hwrite
  · by_cases hj : j = (mem.tlb_write_index s.ex2mem.mem_aluop (mem_cp0_random s i)
      (mem_cp0_index s i)).toFin
    · subst hj
      simp
    · simp only [hj, if_false, Function.update_of_ne hj]
      rfl
  · rfl

theorem tlb_read_struct_switch :
    (tlb_read_struct s i).switch = (s.ex2mem.mem_aluop != .EXE_TLBP_OP) := by
  unfold tlb_read_struct mmu.tlb_read_struct
  split_ifs <;> simp_all

section
variable (hrst : i.rst = false)
include hrst

theorem tlb_read_struct_of_tlbr (hplain : cp0_reg.Plain (wb_cp0 s))
    (hop : s.ex2mem.mem_aluop ≠ .EXE_TLBP_OP) :
    TlbEntry.unpack (tlb_read_struct s i).entry = s.tlbUnit.tlb s.tlbUnit.index.toFin := by
  have hswitch : (s.ex2mem.mem_aluop != .EXE_TLBP_OP) = true := by simpa using hop
  rw [tlb_read_struct, mmu.tlb_read_struct, hswitch, mem_index_eq hrst hplain]
  rfl

theorem tlb_read_struct_of_tlbp (hplain : cp0_reg.Plain (wb_cp0 s))
    (hop : s.ex2mem.mem_aluop = .EXE_TLBP_OP) :
    (if (tlb_read_struct s i).entry.getLsbD 0 then none else some
      (tlb_read_struct s i).index.toFin) =
      probe s.tlbUnit.tlb (s.tlbUnit.vpn2 ++ 0#13) := by
  have hprobe : probe s.tlbUnit.tlb (s.tlbUnit.vpn2 ++ 0#13) =
      probe s.mmu.tlb (mem_cp0_entryhi s i) := by
    refine probe_congr ?_
    rw [mem_vpn2_eq hrst hplain]
    exact extractLsb'_append_eq_left
  have hswitch : (s.ex2mem.mem_aluop != .EXE_TLBP_OP) = false := by simpa using hop
  rw [hprobe, tlb_read_struct, mmu.tlb_read_struct, hswitch, tlb_miss_eq]
  cases hfound : probe s.mmu.tlb (mem_cp0_entryhi s i) with
  | none => simp
  | some j => simp [hit_index_eq s.mmu _ _ hfound]

theorem tlbWrite_tlbr (d : Word)
    (hplain : s.ex2mem.mem_aluop ≠ .EXE_TLBP_OP → cp0_reg.Plain (wb_cp0 s)) :
    cp0_reg.tlbWrite ⟨true, CP0_TLBR, d⟩ (tlb_read_struct s i) s.tlbUnit.toTlbRegs =
      (if s.ex2mem.mem_aluop = .EXE_TLBP_OP then none else some TlbOp.tlbr).elim s.tlbUnit.toTlbRegs
        (s.tlbUnit.toTlbRegs.exec s.tlbUnit.tlb) := by
  change (if (tlb_read_struct s i).switch then _ else _) = _
  rw [tlb_read_struct_switch]
  by_cases hop : s.ex2mem.mem_aluop = .EXE_TLBP_OP
  · simp [hop]
  · rw [tlb_read_struct_of_tlbr hrst (hplain hop) hop, if_neg hop, if_pos (by simpa using hop)]
    rfl

theorem tlbWrite_tlbp (d : Word)
    (hplain : s.ex2mem.mem_aluop = .EXE_TLBP_OP → cp0_reg.Plain (wb_cp0 s)) :
    cp0_reg.tlbWrite ⟨true, CP0_TLBP, d⟩ (tlb_read_struct s i) s.tlbUnit.toTlbRegs =
      (if s.ex2mem.mem_aluop = .EXE_TLBP_OP then some TlbOp.tlbp else none).elim s.tlbUnit.toTlbRegs
        (s.tlbUnit.toTlbRegs.exec s.tlbUnit.tlb) := by
  change (if (tlb_read_struct s i).switch then _ else _) = _
  rw [tlb_read_struct_switch]
  by_cases hop : s.ex2mem.mem_aluop = .EXE_TLBP_OP
  · rw [tlb_read_struct_of_tlbp hrst (hplain hop) hop, if_pos hop, if_neg (by simp [hop])]
    rfl
  · simp [hop]

/-- The write that leaves MEM is the move or read it stands for. -/
theorem tlbWrite_move
    (hplain : (tlbMove s.ex2mem).any TlbOp.usesRegs = true → cp0_reg.Plain (wb_cp0 s)) :
    cp0_reg.tlbWrite (mem_cp0 s i) (tlb_read_struct s i) s.tlbUnit.toTlbRegs =
      (tlbMove s.ex2mem).elim s.tlbUnit.toTlbRegs (s.tlbUnit.toTlbRegs.exec s.tlbUnit.tlb) := by
  have hcp0 : mem_cp0 s i =
      ⟨s.ex2mem.mem_cp0_reg_we, s.ex2mem.mem_cp0_reg_write_addr, s.ex2mem.mem_cp0_reg_data⟩ := by
    simp [mem_cp0, mem_output, hrst]
  rw [hcp0]
  unfold cp0_reg.tlbWrite
  unfold tlbMove at hplain ⊢
  cases hwe : s.ex2mem.mem_cp0_reg_we with
  | false => rfl
  | true =>
    rw [hwe] at hplain
    generalize s.ex2mem.mem_cp0_reg_write_addr = addr at hplain ⊢
    by_cases hindex : addr = CP0_REG_INDEX
    · subst hindex
      rfl
    by_cases hlo0 : addr = CP0_REG_ENTRYLO0
    · subst hlo0
      rfl
    by_cases hlo1 : addr = CP0_REG_ENTRYLO1
    · subst hlo1
      rfl
    by_cases hhi : addr = CP0_REG_ENTRYHI
    · subst hhi
      rfl
    by_cases htlbr : addr = CP0_TLBR
    · subst htlbr
      exact tlbWrite_tlbr hrst _ fun hop => hplain (by rw [if_neg hop]; rfl)
    by_cases htlbp : addr = CP0_TLBP
    · subst htlbp
      exact tlbWrite_tlbp hrst _ fun hop => hplain (by rw [hop]; rfl)
    simp [hindex, hlo0, hlo1, hhi, htlbr, htlbp]

end

theorem tlbOp_eq_ofInst {inst reg1 : Word} (hpass : (ctl s i).Passes)
    (hop : s.ex2mem.mem_aluop = (ID.decode inst).aluop)
    (hcp0 : EX.Cp0Write.mk s.ex2mem.mem_cp0_reg_we s.ex2mem.mem_cp0_reg_write_addr
      s.ex2mem.mem_cp0_reg_data =
      EX.cp0_output false (ID.decode inst).aluop inst reg1) :
    tlbOp s i = TlbOp.ofInst inst reg1 (s.cp0.random_output.extractLsb' 0 4) := by
  have hleave : tlbOp s i = if s.ex2mem.mem_aluop = .EXE_TLBWI_OP then some .tlbwi
      else if s.ex2mem.mem_aluop = .EXE_TLBWR_OP then
        some (.tlbwr (s.cp0.random_output.extractLsb' 0 4))
      else tlbMove s.ex2mem := by
    unfold tlbOp
    obtain hctl | hctl := hpass <;> rw [hctl]
  rw [hleave, hop]
  unfold tlbMove TlbOp.ofInst
  rw [hop]
  generalize (ID.decode inst).aluop = op at hcp0
  obtain ⟨hwe, haddr, hdata⟩ := EX.Cp0Write.mk.inj hcp0
  rw [hwe, haddr, hdata]
  cases op with
  | EXE_MTC0_OP => simp
  | _ => rfl

end CPU_TOP

end mips32s
