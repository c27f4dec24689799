import Mips32S.Cp0.Registers
import Mips32S.Exceptions.Return
import Mips32S.Isa.Exactness

namespace mips32s.CPU_TOP.Execution

open pipeline Isa ID
variable {e : Execution} {n t : ℕ}

/-- What the write-back register holds of an instruction it was issued with: the CP0 write and the
TLB result that EX and MEM made of it. -/
theorem wb_cp0_of_wb (h : (e.slots n).wb = some t) :
    ∃ m j, e.IssuedAt t m ∧ e.LeavesMemAt t j ∧
      wb_cp0 (e.state n) = EX.cp0_output false (decode (e.inst t)).aluop (e.inst t)
        (id_reg1_output (e.state m) (e.input m)) ∧
      (e.state n).mem2wb.tlb_write_struct = tlb_read_struct (e.state j) (e.input j) := by
  obtain ⟨j, hleave, hwb⟩ := holdsWb h
  obtain ⟨k, -, hmem, hex⟩ := holdsMem hleave.2
  have hop := (inEx_of_holds hex).aluop
  have hinst := (inEx_of_holds hex).inst
  obtain ⟨m, hissue, hid, -⟩ := hex
  refine ⟨m, j, hissue, hleave, ?_, by rw [hwb]; rfl⟩
  have hreg : (e.state k).id_ex.ex_reg1 = id_reg1_output (e.state m) (e.input m) := by
    rw [show (e.state k).id_ex.ex_reg1 = (e.state k).id_ex.toSlot.ex_reg1 from rfl, hid]
    rfl
  simp only [wb_cp0, hwb, mem_output, e.input_rst j, hmem, ex_output, ex_cp0_output,
    e.input_rst k, hop, hinst, hreg, Bool.not_false, Bool.true_and, Bool.false_eq_true, if_false]

theorem aluop_of_isMtc0 {inst : Word} (h : isMtc0 inst = true) :
    (decode inst).aluop = .EXE_MTC0_OP := by
  rw [decode_mtc0 h]
  rfl

theorem wb_cp0_of_mtc0 (h : (e.slots n).wb = some t)
    (hop : (decode (e.inst t)).aluop = .EXE_MTC0_OP) :
    ∃ m, e.IssuedAt t m ∧
      wb_cp0 (e.state n) = ⟨true, rd (e.inst t), id_reg1_output (e.state m) (e.input m)⟩ ∧
      (e.state n).mem2wb.tlb_write_struct.switch = true := by
  obtain ⟨m, j, hissue, hleave, hwb, htlb⟩ := wb_cp0_of_wb h
  refine ⟨m, hissue, ?_, ?_⟩
  · rw [hwb, hop]
    rfl
  · have hmem : (e.state j).ex2mem.mem_aluop = .EXE_MTC0_OP := (inMem hleave.2).aluop.trans hop
    rw [htlb, tlb_read_struct, hmem]
    rfl

/-- CP0 before the instruction in WB writes it: the counters and interrupt lines have moved. -/
def cp0Before (e : Execution) (n : ℕ) : cp0_reg.State :=
  (e.state n).cp0.tick (e.input n).int_input

/-- The frame of `MTC0`. In every run, an `MTC0` in WB that names a register changes in CP0 only the
writable bits of that register, to those of the operand it was issued with, and a write of Compare
also ends the timer interrupt; one that names no register changes nothing. The decoder ignores
selects up to 3 and takes the word for no `MTC0` with a larger one, which changes nothing. Register
number 20 is left out: the CP0 unit takes it for the result of a `TLBR`. -/
theorem mtc0_frame (e : Execution) (n t : ℕ) (rt rd : BitVec 5) (sel : BitVec 3)
    (hinst : e.inst t = (Instr.MTC0 rt rd sel).encode) (hwb : (e.slots n).wb = some t)
    (hrd : rd ≠ CP0_TLBR) :
    (sel.toNat ≤ 3 → ∃ m, e.IssuedAt t m ∧
      (id_decoded (e.state m) (e.input m)).reg1_addr = rt ∧
      (∀ r : Cp0Reg, rd = r.num → e.cp0Older n =
        { r.set (r.written (r.content (e.cp0Before n)) (id_reg1_output (e.state m) (e.input m)))
            (e.cp0Before n) with
          timer_int_output := r != .Compare && (e.cp0Before n).timer_int_output }) ∧
      ((∀ r : Cp0Reg, rd ≠ r.num) → e.cp0Older n = e.cp0Before n)) ∧
    (3 < sel.toNat → (decode (e.inst t)).instvalid = true ∧ e.cp0Older n = e.cp0Before n) := by
  refine ⟨fun hsel => ?_, fun hsel => ?_⟩
  · have hop : isMtc0 (e.inst t) = true := by
      rw [hinst]
      exact isMtc0_encode rt rd hsel
    obtain ⟨m, hissue, hwrite, hswitch⟩ := wb_cp0_of_mtc0 hwb (aluop_of_isMtc0 hop)
    have hnum : ID.rd (e.inst t) = rd := by rw [hinst, Instr.encode, rd_rType]
    rw [hnum] at hwrite
    refine ⟨m, hissue, ?_, fun r hr => ?_, fun hr => ?_⟩
    · rw [id_decoded, e.input_rst m, if2id_eq hissue.2, if_neg Bool.false_ne_true]
      change (decode (e.inst t)).reg1_addr = rt
      rw [decode_mtc0 hop, hinst]
      exact rt_rType ..
    · rw [cp0Older, hwrite]
      exact cp0_reg.write_eq_set rfl hr
    · rw [cp0Older, hwrite]
      exact cp0_reg.write_eq_self hr hrd hswitch
  · have hinv : (decode (e.inst t)).instvalid = true := by
      rw [hinst]
      exact (legal_of_rejected (rejected_mtc0 rt rd hsel)).2
    have hwe : (wb_cp0 (e.state n)).we = false := by
      refine (inWb hwb).cp0_reg_we.trans ?_
      rw [decode_of_invalid hinv]
      rfl
    exact ⟨hinv, if_pos hwe⟩

/-- `lui $1, 0x9000; mtc0 $1, $15, 1`. -/
def setEBase : Execution := straight 0#8 [0x3C019000#32, 0x40817801#32]

/-- It changes nothing but EBase. -/
theorem mtc0_frame_ebase :
    (setEBase.slots 9).wb = some 4 ∧
      ∃ x, setEBase.cp0Older 9 = { setEBase.cp0Before 9 with ebase_output := x } := by
  have hwb : (setEBase.slots 9).wb = some 4 := by decide +kernel
  have hinst : setEBase.inst 4 = (Instr.MTC0 1#5 15#5 1#3).encode := by decide +kernel
  obtain ⟨m, -, -, hset, -⟩ :=
    (mtc0_frame setEBase 9 4 1#5 15#5 1#3 hinst hwb (by decide)).1 (by decide)
  exact ⟨hwb, _, hset .EBase rfl⟩

/-- The select does not matter: an `MTC0` of register 15 with select 1 writes EBase. -/
theorem mtc0_select_ignored :
    setEBase.inst 4 = (Instr.MTC0 1#5 15#5 1#3).encode ∧ (setEBase.slots 9).wb = some 4 ∧
      (setEBase.state 9).cp0.ebase_output = 0x80001000#32 ∧
      (setEBase.state 10).cp0.ebase_output = 0x90000000#32 := by
  decide +kernel

end mips32s.CPU_TOP.Execution
