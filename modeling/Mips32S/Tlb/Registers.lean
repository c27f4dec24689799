import Mips32S.Cpu.Execution
import Mips32S.Isa.TlbUnit

namespace mips32s

open Isa bits

namespace cp0_reg

/-- CP0 as the TLB instructions see it. -/
def State.tlbRegs (c : State) : TlbRegs where
  index := c.index_output.extractLsb' 0 4
  p := c.index_output.getLsbD 31
  vpn2 := c.entryhi_output.extractLsb' 13 19
  lo0 := .ofEntryLo c.entrylo0_output
  lo1 := .ofEntryLo c.entrylo1_output

/-- What a write of the instruction in WB means for the TLB registers; `tlb` is the
result of the read or probe that travels with it. -/
def tlbWrite (wb : EX.Cp0Write) (tlb : TlbStruct) (r : TlbRegs) : TlbRegs :=
  if wb.we = false then r
  else if wb.write_addr = CP0_REG_INDEX then { r with index := wb.data.extractLsb' 0 4 }
  else if wb.write_addr = CP0_REG_ENTRYLO0 then { r with lo0 := .ofEntryLo wb.data }
  else if wb.write_addr = CP0_REG_ENTRYLO1 then { r with lo1 := .ofEntryLo wb.data }
  else if wb.write_addr = CP0_REG_ENTRYHI then { r with vpn2 := wb.data.extractLsb' 13 19 }
  else if wb.write_addr = CP0_TLBR then if tlb.switch then r.load (.unpack tlb.entry) else r
  else if wb.write_addr = CP0_TLBP then
    if tlb.switch then r
    else r.probed (if tlb.entry.getLsbD 0 then none else some tlb.index.toFin)
  else r

section
variable (x d : Word) (w : BitVec 63)

theorem ofEntryLo_setSlice (pfn : BitVec 20) {lo len : Nat} (flags : BitVec len) (hlo : lo ≤ 1)
    (hhi : 3 ≤ lo + len) (hfit : lo + len ≤ 6) :
    Page.ofEntryLo (setSlice (setSlice x 6 pfn) lo flags) =
      ⟨pfn, flags.getLsbD (2 - lo), flags.getLsbD (1 - lo)⟩ := by
  unfold Page.ofEntryLo
  rw [extractLsb'_setSlice_disjoint _ _ _ _ _ (by decide) (.inr hfit),
    extractLsb'_setSlice _ _ _ (by decide), getLsbD_setSlice _ _ _ 2 (by decide),
    getLsbD_setSlice _ _ _ 1 (by decide), if_pos (by omega),
    if_pos (by omega)]

theorem ofEntryLo_set_entrylo : Page.ofEntryLo (set_entrylo x d) = .ofEntryLo d := by
  rw [set_entrylo, ofEntryLo_setSlice _ _ _ (by decide) (by decide) (by decide)]
  simp [Page.ofEntryLo]

theorem ofEntryLo_tlbr (pfn : BitVec 20) (dv : BitVec 2) :
    Page.ofEntryLo (setSlice (setSlice x 6 pfn) 1 dv) = ⟨pfn, dv.getLsbD 1, dv.getLsbD 0⟩ :=
  ofEntryLo_setSlice x pfn dv (by decide) (by decide) (by decide)

theorem vpn2_set_entryhi :
    (setSlice (setSlice x 13 (d.extractLsb' 13 19)) 0 (d.extractLsb' 0 8)).extractLsb' 13 19 =
      d.extractLsb' 13 19 := by
  rw [extractLsb'_setSlice_disjoint _ _ _ _ _ (by decide) (by decide),
    extractLsb'_setSlice _ _ _ (by decide)]

end

section
variable (c : State) (d : Word)

theorem tlbRegs_index :
    { c with index_output := setSlice c.index_output 0 (d.extractLsb' 0 4) }.tlbRegs =
      { c.tlbRegs with index := d.extractLsb' 0 4 } := by
  simp only [State.tlbRegs, extractLsb'_setSlice c.index_output 0 (d.extractLsb' 0 4) (by decide),
    getLsbD_setSlice c.index_output 0 (d.extractLsb' 0 4) 31 (by decide)]
  rfl

theorem tlbRegs_entrylo0 :
    { c with entrylo0_output := set_entrylo c.entrylo0_output d }.tlbRegs =
      { c.tlbRegs with lo0 := .ofEntryLo d } := by
  simp only [State.tlbRegs, ofEntryLo_set_entrylo]

theorem tlbRegs_entrylo1 :
    { c with entrylo1_output := set_entrylo c.entrylo1_output d }.tlbRegs =
      { c.tlbRegs with lo1 := .ofEntryLo d } := by
  simp only [State.tlbRegs, ofEntryLo_set_entrylo]

theorem tlbRegs_entryhi :
    { c with
      entryhi_output := setSlice (setSlice c.entryhi_output 13 (d.extractLsb' 13 19)) 0
        (d.extractLsb' 0 8) }.tlbRegs =
      { c.tlbRegs with vpn2 := d.extractLsb' 13 19 } := by
  simp only [State.tlbRegs, vpn2_set_entryhi]

theorem tlbRegs_tlbr (w : BitVec 63) :
    { c with
      entryhi_output := setSlice c.entryhi_output 13 (w.extractLsb' 44 19)
      entrylo1_output := setSlice (setSlice c.entrylo1_output 6 (w.extractLsb' 24 20)) 1
        (w.extractLsb' 22 2)
      entrylo0_output := setSlice (setSlice c.entrylo0_output 6 (w.extractLsb' 2 20)) 1
        (w.extractLsb' 0 2) }.tlbRegs =
      c.tlbRegs.load (.unpack w) := by
  simp [State.tlbRegs, ofEntryLo_tlbr,
    extractLsb'_setSlice c.entryhi_output 13 (w.extractLsb' 44 19) (by decide),
    TlbRegs.load, TlbEntry.unpack]

theorem tlbRegs_tlbp (j : BitVec 4) (miss : Bool) :
    { c with index_output := if miss = false then j.setWidth 32 else BitVec.allOnes 32 }.tlbRegs =
      c.tlbRegs.probed (if miss then none else some j.toFin) := by
  cases miss with
  | true =>
    have hindex : (BitVec.allOnes 32).extractLsb' 0 4 = 0b1111#4 := by decide
    have hp : (BitVec.allOnes 32).getLsbD 31 = true := by decide
    simp only [State.tlbRegs, TlbRegs.probed, Bool.true_eq_false, if_false, if_true, hindex, hp]
  | false =>
    have hindex : (j.setWidth 32).extractLsb' 0 4 = j := by
      ext k hk
      simp [hk, show k < 32 by omega]
    have hp : (j.setWidth 32).getLsbD 31 = false := by simp
    simp only [State.tlbRegs, TlbRegs.probed, Bool.false_eq_true, if_false, if_true, hindex, hp]

end

theorem tlbRegs_write (wb : EX.Cp0Write) (tlb : TlbStruct) (c : State) :
    (c.write wb tlb).tlbRegs = tlbWrite wb tlb c.tlbRegs := by
  unfold State.write tlbWrite
  cases hwe : wb.we with
  | false => rfl
  | true =>
    generalize wb.write_addr = addr
    by_cases hindex : addr = CP0_REG_INDEX
    · subst hindex
      exact tlbRegs_index c wb.data
    by_cases hlo0 : addr = CP0_REG_ENTRYLO0
    · subst hlo0
      exact tlbRegs_entrylo0 c wb.data
    by_cases hlo1 : addr = CP0_REG_ENTRYLO1
    · subst hlo1
      exact tlbRegs_entrylo1 c wb.data
    by_cases hhi : addr = CP0_REG_ENTRYHI
    · subst hhi
      exact tlbRegs_entryhi c wb.data
    by_cases htlbr : addr = CP0_TLBR
    · subst htlbr
      cases hswitch : tlb.switch with
      | true => exact tlbRegs_tlbr c tlb.entry
      | false => rfl
    by_cases htlbp : addr = CP0_TLBP
    · subst htlbp
      cases hswitch : tlb.switch with
      | true => rfl
      | false => exact tlbRegs_tlbp c tlb.index (tlb.entry.getLsbD 0)
    simp only [hindex, hlo0, hlo1, hhi, htlbr, htlbp, Bool.true_eq_false, if_false,
      apply_ite State.tlbRegs]
    simp [State.tlbRegs]

theorem tlbRegs_reset (c : State) (d : Word) :
    { c.reset with data_output := d }.tlbRegs = TlbUnit.reset.toTlbRegs := by
  have hpage : Page.ofEntryLo ZeroWord = ⟨0#20, false, false⟩ := by decide
  simp [State.tlbRegs, State.reset, hpage, TlbUnit.reset]

/-- Only the exceptions of the TLB touch its registers: they put the page pair of the
faulting address into EntryHi. -/
theorem tlbRegs_except (exc : ExceptType) (current_inst_addr : Word) (is_in_delayslot : Bool)
    (unaligned_addr badvaddr : Word) (c : State) :
    (c.except exc current_inst_addr is_in_delayslot unaligned_addr badvaddr).tlbRegs =
      if exc.isTlb then { c.tlbRegs with vpn2 := badvaddr.extractLsb' 13 19 } else c.tlbRegs := by
  have hvpn2 : (setSlice c.entryhi_output 13 (badvaddr.extractLsb' 13 19)).extractLsb' 13 19 =
      badvaddr.extractLsb' 13 19 := extractLsb'_setSlice _ _ _ (by decide)
  cases exc with
  | tlbl_inst | tlb_modify | tlbl_data | tlbs =>
    simp only [State.except, State.tlbRegs, hvpn2]
    rfl
  | _ => rfl

/-- The write does not carry the result of a `TLBR` or `TLBP`. -/
def Plain (wb : EX.Cp0Write) : Prop :=
  wb.we = true → wb.write_addr ≠ CP0_TLBR ∧ wb.write_addr ≠ CP0_TLBP

instance (wb : EX.Cp0Write) : Decidable (Plain wb) := inferInstanceAs (Decidable (_ → _))

variable {wb : EX.Cp0Write} (tlb : TlbStruct) (c : State) (held : Word)

theorem tlbWrite_of_plain (h : Plain wb) (r : TlbRegs) : tlbWrite wb tlb r =
    { r with
      index := if mem.bypass wb CP0_REG_INDEX then wb.data.extractLsb' 0 4 else r.index
      vpn2 := if mem.bypass wb CP0_REG_ENTRYHI then wb.data.extractLsb' 13 19 else r.vpn2
      lo0 := if mem.bypass wb CP0_REG_ENTRYLO0 then .ofEntryLo wb.data else r.lo0
      lo1 := if mem.bypass wb CP0_REG_ENTRYLO1 then .ofEntryLo wb.data else r.lo1 } := by
  unfold tlbWrite mem.bypass
  cases hwe : wb.we with
  | false => rfl
  | true =>
    obtain ⟨htlbr, htlbp⟩ := h hwe
    generalize wb.write_addr = addr at htlbr htlbp
    by_cases hindex : addr = CP0_REG_INDEX
    · subst hindex
      rfl
    by_cases hlo0 : addr = CP0_REG_ENTRYLO0
    · subst hlo0
      rfl
    by_cases hlo1 : addr = CP0_REG_ENTRYLO1
    · subst hlo1
      rfl
    by_cases hhi : addr = CP0_REG_ENTRYHI
    · subst hhi
      rfl
    simp [hindex, hlo0, hlo1, hhi, htlbr, htlbp]

/-- The registers MEM works with are the current ones: it sees the write in WB. -/
theorem bypass_tlbRegs (h : Plain wb) :
    (mem.cp0_index false wb c.index_output held).extractLsb' 0 4 = (c.write wb tlb).tlbRegs.index ∧
      (mem.cp0_entryhi false wb c.entryhi_output held).extractLsb' 13 19 =
        (c.write wb tlb).tlbRegs.vpn2 ∧
      Page.ofEntryLo (mem.cp0_entrylo0 false wb c.entrylo0_output held) =
        (c.write wb tlb).tlbRegs.lo0 ∧
      Page.ofEntryLo (mem.cp0_entrylo1 false wb c.entrylo1_output held) =
        (c.write wb tlb).tlbRegs.lo1 := by
  rw [tlbRegs_write, tlbWrite_of_plain tlb h]
  refine ⟨?_, ?_, ?_, ?_⟩
  · unfold mem.cp0_index
    cases mem.bypass wb CP0_REG_INDEX with
    | true => exact extractLsb'_setSlice held 0 (wb.data.extractLsb' 0 4) (by decide)
    | false => rfl
  · unfold mem.cp0_entryhi
    cases mem.bypass wb CP0_REG_ENTRYHI with
    | true => exact vpn2_set_entryhi held wb.data
    | false => rfl
  · unfold mem.cp0_entrylo0 mem.cp0_entrylo
    cases mem.bypass wb CP0_REG_ENTRYLO0 with
    | true => exact ofEntryLo_set_entrylo held wb.data
    | false => rfl
  · unfold mem.cp0_entrylo1 mem.cp0_entrylo
    cases mem.bypass wb CP0_REG_ENTRYLO1 with
    | true => exact ofEntryLo_set_entrylo held wb.data
    | false => rfl

end cp0_reg

end mips32s
