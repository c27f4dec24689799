import Mips32S.Isa.Alu
import Mips32S.Isa.Instruction
import Mips32S.Pipeline.Stages

namespace mips32s.ID

open Isa bits Option

/-- The TLB instruction behind an operation code. -/
def tlbInstr? : AluOp → Option TlbInstr
  | .EXE_TLBR_OP => some .TLBR
  | .EXE_TLBWI_OP => some .TLBWI
  | .EXE_TLBWR_OP => some .TLBWR
  | .EXE_TLBP_OP => some .TLBP
  | _ => none

/-- The select of the register that CP0 has under a number. The decoder drops that of the
instruction, and EBase is the one register with another select than 0. -/
def cp0Select (number : BitVec 5) : BitVec 3 := if number = CP0_REG_EBASE then 1#3 else 0#3

section
variable (w : Word) (r : RegAddr → Word) (pc : Word) (hl : Word × Word)
  (c : BitVec 5 → BitVec 3 → Word)

/-- The operands of a decoded instruction. -/
def operand1 (d : Decoded) : Word := if d.reg1_read then r d.reg1_addr else d.imm

def operand2 (d : Decoded) : Word := if d.reg2_read then r d.reg2_addr else d.imm

/-- What EX puts into the destination register, with no CP0 write in flight. -/
def result (d : Decoded) (x y : Word) : Word :=
  EX.wdata_output d.alusel (EX.logicout false d.aluop x y) (EX.shiftres false d.aluop x y)
    (EX.moveres false d.aluop w hl ⟨false, 0#5, ZeroWord⟩ ⟨false, 0#5, ZeroWord⟩
      (c (rd w) (cp0Select (rd w))) ZeroWord)
    (EX.arithres false d.aluop x y) (link_addr_output false pc w)

/-- The redirection of the program counter. -/
def jump (x y : Word) : Option Word :=
  if branch_flag_output false w x y then some (branch_target_addr_output false pc w x y) else none

/-- A move to CP0 under the number under which the result of `TLBR` arrives. -/
def readsTlb (d : Decoded) : Prop :=
  d.aluop = .EXE_MTC0_OP ∧ (EX.cp0_output false d.aluop w (operand1 r d)).write_addr = CP0_TLBR

instance (d : Decoded) : Decidable (readsTlb w r d) := inferInstanceAs (Decidable (_ ∧ _))

/-- Everything the decoder makes the pipeline do for a word decoded as `d`. -/
def actionOf (d : Decoded) : Action where
  gpr :=
    if d.wreg then
      some (d.waddr, match access? d.aluop with
        | some a => .loaded a (EX.mem_addr_output (operand1 r d) w)
        | none => .word (result w pc hl c d (operand1 r d) (operand2 r d)))
    else none
  store := (access? d.aluop).bind fun a =>
    if a.store then some (a, EX.mem_addr_output (operand1 r d) w, operand2 r d) else none
  hilo :=
    let h := EX.hilo_output false d.aluop (operand1 r d) hl
      (EX.mulres false d.aluop (operand1 r d) (operand2 r d) 0#64)
    if h.whilo then some (h.hi, h.lo) else none
  cp0 :=
    if d.aluop = .EXE_MTC0_OP ∧ ¬ readsTlb w r d then
      let k := EX.cp0_output false d.aluop w (operand1 r d)
      some (k.write_addr, cp0Select k.write_addr, k.data)
    else none
  tlb := if readsTlb w r d then some .TLBR else tlbInstr? d.aluop
  jump := jump w pc (operand1 r d) (operand2 r d)
  trap := if d.excepttype_is_syscall then some .syscall else if d.excepttype_is_eret then some .eret
    else none

def action : Action := actionOf w r pc hl c (decode w)

theorem jump_eq (x y : Word) : jump w pc x y =
    (branch? w).bind fun b => if b.taken x y then some (b.target pc w x) else none := by
  unfold jump
  rw [branch_flag_output_eq]
  cases hb : branch? w with
  | none => rfl
  | some b =>
    simp only [any_some, bind_some]
    split_ifs with htaken
    · rw [branch_target_addr_output_eq pc hb htaken]
    · rfl

theorem jump_eq_none (h : (decode w).next_inst_in_delayslot = false) (x y : Word) :
    jump w pc x y = none := by
  rw [next_inst_in_delayslot_decode, isSome_eq_false_iff, isNone_iff_eq_none] at h
  rw [jump_eq, h]
  rfl

end

/-- The operation neither accesses memory nor writes HI and LO, CP0 or the TLB. -/
def Quiet (op : AluOp) : Prop :=
  access? op = none ∧ tlbInstr? op = none ∧ op ≠ .EXE_MTC0_OP ∧ op.writesHilo = false

instance (op : AluOp) : Decidable (Quiet op) := inferInstanceAs (Decidable (_ ∧ _ ∧ _ ∧ _))

theorem quiet_of_result? {op : AluOp} {f : Word → Word → Word} (h : result? op = some f) :
    Quiet op := by
  cases op <;> first | decide | cases h

section
variable {w : Word} {d : Decoded} {b : Branch} (r : RegAddr → Word) (pc : Word) (hl : Word × Word)
  (c : BitVec 5 → BitVec 3 → Word)
variable (hdec : decode w = d)
include hdec

theorem action_quiet (hq : Quiet d.aluop) :
    action w r pc hl c =
      { Action.nothing with
        gpr := if d.wreg then
          some (d.waddr, .word (result w pc hl c d (operand1 r d) (operand2 r d))) else none
        jump := jump w pc (operand1 r d) (operand2 r d)
        trap := if d.excepttype_is_syscall then some .syscall
          else if d.excepttype_is_eret then some .eret else none } := by
  obtain ⟨hmem, htlb, hcp0, hhilo⟩ := hq
  have hwhilo : (EX.hilo_output false d.aluop (operand1 r d) hl
      (EX.mulres false d.aluop (operand1 r d) (operand2 r d) 0#64)).whilo = false := by
    rw [CPU_TOP.Execution.hilo_output_whilo, hhilo]
  unfold action actionOf readsTlb
  simp only [hdec, hmem, htlb, hcp0, hwhilo, false_and, if_false, Bool.false_eq_true, bind_none]
  rfl

theorem action_alu {f : Word → Word → Word} (hf : result? d.aluop = some f)
    (hsel : sel? d.aluop = some d.alusel) (hwreg : d.wreg = true)
    (hdelay : d.next_inst_in_delayslot = false) (hsys : d.excepttype_is_syscall = false)
    (heret : d.excepttype_is_eret = false) :
    action w r pc hl c =
      { Action.nothing with gpr := some (d.waddr, .word (f (operand1 r d) (operand2 r d))) } := by
  rw [action_quiet r pc hl c hdec (quiet_of_result? hf),
    jump_eq_none w pc (by rw [hdec, hdelay]) _ _, hwreg, hsys, heret, result,
    EX.wdata_output_eq hf hsel]
  rfl

theorem action_branch (hq : Quiet d.aluop) (hwreg : d.wreg = false)
    (hsys : d.excepttype_is_syscall = false) (heret : d.excepttype_is_eret = false)
    (hb : branch? w = some b) :
    action w r pc hl c =
      { Action.nothing with
        jump := if b.taken (operand1 r d) (operand2 r d) then some (b.target pc w (operand1 r d))
          else none } := by
  rw [action_quiet r pc hl c hdec hq, jump_eq, hb, hwreg, hsys, heret]
  rfl

theorem action_link (hq : Quiet d.aluop) (hwreg : d.wreg = true)
    (hsys : d.excepttype_is_syscall = false) (heret : d.excepttype_is_eret = false)
    (hsel : d.alusel = .EXE_RES_JUMP_BRANCH) (hlink : link_addr_output false pc w = pc + 8#32)
    (hb : branch? w = some b) (htaken : ∀ x y, b.taken x y = true) :
    action w r pc hl c =
      { Action.nothing with
        gpr := some (d.waddr, .word (pc + 8#32))
        jump := some (b.target pc w (operand1 r d)) } := by
  rw [action_quiet r pc hl c hdec hq, jump_eq, hb, hwreg, hsys, heret, result, hsel, hlink,
    bind_some, htaken]
  rfl

end

variable (r : RegAddr → Word) (pc : Word) (hl : Word × Word) (c : BitVec 5 → BitVec 3 → Word)

theorem action_mfc0 {t n : BitVec 5} {sel : BitVec 3}
    (h : Takes (Instr.MFC0 t n sel).encode (.MFC0 t n sel)) :
    action (Instr.MFC0 t n sel).encode r pc hl c =
      { Action.nothing with gpr := some (t, .word (c n (cp0Select n))) } := by
  rw [action_quiet r pc hl c (decode_eq h) ⟨rfl, rfl, by rintro ⟨⟩, rfl⟩, jump_eq, branch?_eq h]
  simp only [Instr.encode, decoded, mfc0Op, result, rt_rType, rd_rType]
  rfl

theorem action_mtc0 {t n : BitVec 5} {sel : BitVec 3}
    (h : Takes (Instr.MTC0 t n sel).encode (.MTC0 t n sel)) :
    action (Instr.MTC0 t n sel).encode r pc hl c =
      { Action.nothing with
        cp0 := if n = CP0_TLBR then none else some (n, cp0Select n, r t)
        tlb := if n = CP0_TLBR then some .TLBR else none } := by
  unfold action actionOf readsTlb
  rw [jump_eq, branch?_eq h, decode_eq h]
  simp only [Instr.encode, decoded, mtc0Op, plainOp, Decoded.init, operand1, EX.cp0_output,
    ← rd.eq_1, rt_rType, rd_rType, true_and, ite_not]
  rfl

/-- The instruction moves from or to the CP0 register it names, if any. -/
def Names : Instr → Prop
  | .MFC0 _ rd sel => sel = cp0Select rd
  | .MTC0 _ rd sel => sel = cp0Select rd ∧ rd ≠ CP0_TLBR
  | _ => True

/-- What the decoder makes the pipeline do for an encoded instruction, if it takes the word for
that instruction, is the meaning of the instruction. -/
theorem action_encode (i : Instr) (h : Takes i.encode i) (hnames : Names i)
    (hzero : r 0#5 = ZeroWord) :
    action i.encode r pc hl c = i.action r pc hl c := by
  have hdec := decode_eq h
  have hb := branch?_eq h
  cases i with
  | shift op rt rd sa =>
    have hsa : sa.toNat % 32 = sa.toNat := Nat.mod_eq_of_lt sa.isLt
    cases op <;>
    · rw [action_alu r pc hl c hdec rfl rfl rfl rfl rfl rfl]
      simp [decoded, shiftImm, Decoded.init, operand1, operand2, Instr.encode, Instr.action,
        Shift.result, hsa]
  | shiftVar op | reg op =>
    cases op <;>
    · rw [action_alu r pc hl c hdec rfl rfl rfl rfl rfl rfl]
      simp [decoded, regOp, Decoded.init, operand1, operand2, Instr.encode, Instr.action,
        Shift.result, RegOp.result]
  | imm op =>
    cases op <;>
    · rw [action_alu r pc hl c hdec rfl rfl rfl rfl rfl rfl]
      simp [decoded, immOp, immCode, Decoded.init, operand1, operand2, Instr.encode, Instr.action,
        ImmOp.result]
  | LUI =>
    rw [action_alu r pc hl c hdec rfl rfl rfl rfl rfl rfl]
    simp [decoded, immOp, Decoded.init, operand1, operand2, Instr.encode, Instr.action, hzero]
  | BEQ | BNE | BLEZ | BGTZ | BLTZ | BGEZ =>
    rw [action_branch r pc hl c hdec ⟨rfl, rfl, by rintro ⟨⟩, rfl⟩ rfl rfl rfl hb]
    simp [decoded, branchOp, Decoded.init, operand1, operand2, Instr.encode, Instr.action,
      Branch.taken, Branch.target, branchTo, ← imm16.eq_1]
  | J | JR =>
    rw [action_branch r pc hl c hdec ⟨rfl, rfl, by rintro ⟨⟩, rfl⟩ rfl rfl rfl hb]
    simp [decoded, branchOp, Decoded.init, operand1, Instr.encode, Instr.action, Branch.taken,
      Branch.target, jumpTo]
  | JAL | JALR =>
    rw [action_link r pc hl c hdec ⟨rfl, rfl, by rintro ⟨⟩, rfl⟩ rfl rfl rfl rfl
      (by simp [link_addr_output, Instr.encode]) hb fun _ _ => rfl]
    simp [decoded, branchOp, Decoded.init, operand1, Instr.encode, Instr.action,
      Branch.target, jumpTo]
  | SYSCALL | CACHE | ERET =>
    rw [action_quiet r pc hl c hdec ⟨rfl, rfl, by rintro ⟨⟩, rfl⟩, jump_eq, hb]
    rfl
  | MFC0 => rw [action_mfc0 r pc hl c h, Instr.action, hnames]
  | mult signed =>
    cases signed <;>
    · unfold action actionOf
      rw [jump_eq, hb, hdec, EX.hilo_output_eq rfl]
      simp only [Instr.encode, decoded, plainOp, Decoded.init, operand1, operand2, rs_rType, rt_rType]
      rfl
  | hilo op =>
    cases op <;>
    · unfold action actionOf
      rw [jump_eq, hb, hdec]
      simp only [Instr.encode, decoded, hiloOp, plainOp, Decoded.init, operand1, rs_rType, rd_rType]
      rfl
  | mem op =>
    cases op <;>
    · unfold action actionOf
      rw [jump_eq, hb, hdec]
      simp only [Instr.encode, decoded, memOp, loadOp, storeOp, Decoded.init, operand1, operand2,
        EX.mem_addr_output, ← imm16.eq_1, rs_iType, rt_iType, imm16_iType]
      rfl
  | MTC0 =>
    rw [action_mtc0 r pc hl c h, if_neg hnames.2, if_neg hnames.2, Instr.action, hnames.1]
    rfl
  | tlb op =>
    unfold action actionOf
    rw [jump_eq, hb, hdec]
    cases op <;> rfl

end mips32s.ID
