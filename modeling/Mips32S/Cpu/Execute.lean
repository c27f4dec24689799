import Mips32S.Cpu.StageRegs

namespace mips32s.EX

/-- The HI/LO pair and its write enable. -/
structure HiLo where
  whilo : Bool
  hi : Word
  lo : Word

/-- A CP0 write travelling down the pipeline. -/
structure Cp0Write where
  we : Bool
  write_addr : BitVec 5
  data : Word

/-- The values EX computes but assigns only for some operations. -/
structure Latch where
  mulres : BitVec 64
  moveres : Word
  cp0_reg_read_addr_output : BitVec 5

/-- The current HI and LO: from MEM, else from WB, else from the registers. -/
def HILO (rst : Bool) (mem wb : HiLo) (hi lo : Word) : Word × Word :=
  if rst then (ZeroWord, ZeroWord)
  else if mem.whilo then (mem.hi, mem.lo)
  else if wb.whilo then (wb.hi, wb.lo)
  else (hi, lo)

/-- The absolute value of a signed operand, as an unsigned word. -/
def mult_op (reg : Word) : Word := if reg.getLsbD 31 then ~~~reg + 1#32 else reg

def mulres (rst : Bool) (op : AluOp) (reg1 reg2 : Word) (held : BitVec 64) : BitVec 64 :=
  if rst then 0#64
  else if op = .EXE_MULT_OP then
    let hilo_temp := (mult_op reg1).setWidth 64 * (mult_op reg2).setWidth 64
    if reg1.getLsbD 31 ^^ reg2.getLsbD 31 then ~~~hilo_temp + 1#64 else hilo_temp
  else if op = .EXE_MULTU_OP then reg1.setWidth 64 * reg2.setWidth 64
  else held

def hilo_output (rst : Bool) (op : AluOp) (reg1 : Word) (cur : Word × Word) (mul : BitVec 64) :
    HiLo :=
  if rst then ⟨false, ZeroWord, ZeroWord⟩
  else match op with
    | .EXE_MTHI_OP => ⟨true, reg1, cur.2⟩
    | .EXE_MTLO_OP => ⟨true, cur.1, reg1⟩
    | .EXE_MULT_OP => ⟨true, mul.extractLsb' 32 32, mul.extractLsb' 0 32⟩
    | .EXE_MULTU_OP => ⟨true, mul.extractLsb' 32 32, mul.extractLsb' 0 32⟩
    | _ => ⟨false, ZeroWord, ZeroWord⟩

/-- The CP0 register EX reads; only `MFC0` assigns it. -/
def cp0_reg_read_addr_output (rst : Bool) (op : AluOp) (inst : Word) (held : BitVec 5) : BitVec 5 :=
  if rst = false ∧ op = .EXE_MFC0_OP then inst.extractLsb' 11 5 else held

/-- The move result, with the CP0 value forwarded from MEM and WB. -/
def moveres (rst : Bool) (op : AluOp) (inst : Word) (cur : Word × Word) (mem wb : Cp0Write)
    (cp0_reg_data_input held : Word) : Word :=
  if rst then ZeroWord
  else match op with
    | .EXE_MFHI_OP => cur.1
    | .EXE_MFLO_OP => cur.2
    | .EXE_MFC0_OP =>
      if mem.we && mem.write_addr == inst.extractLsb' 11 5 then mem.data
      else if wb.we && wb.write_addr == inst.extractLsb' 11 5 then wb.data
      else cp0_reg_data_input
    | _ => held

def cp0_output (rst : Bool) (op : AluOp) (inst reg1 : Word) : Cp0Write :=
  if rst then ⟨false, 0#5, ZeroWord⟩
  else match op with
    | .EXE_MTC0_OP => ⟨true, inst.extractLsb' 11 5, reg1⟩
    | .EXE_TLBR_OP => ⟨true, CP0_TLBR, ZeroWord⟩
    | .EXE_TLBP_OP => ⟨true, CP0_TLBP, ZeroWord⟩
    | _ => ⟨false, 0#5, ZeroWord⟩

def logicout (rst : Bool) (op : AluOp) (reg1 reg2 : Word) : Word :=
  if rst then ZeroWord
  else match op with
    | .EXE_OR_OP => reg1 ||| reg2
    | .EXE_AND_OP => reg1 &&& reg2
    | .EXE_NOR_OP => ~~~(reg1 ||| reg2)
    | .EXE_XOR_OP => reg1 ^^^ reg2
    | _ => ZeroWord

/-- The shifter. The arithmetic right shift joins the sign bits shifted into place
with the logical shift; its left amount `32 - n` is computed on six bits. -/
def shiftres (rst : Bool) (op : AluOp) (reg1 reg2 : Word) : Word :=
  if rst then ZeroWord
  else match op with
    | .EXE_SLL_OP => reg2 <<< (reg1.extractLsb' 0 5)
    | .EXE_SRL_OP => reg2 >>> (reg1.extractLsb' 0 5)
    | .EXE_SRA_OP =>
      ((if reg2.getLsbD 31 then BitVec.allOnes 32 else 0#32) <<<
          (32#6 - (reg1.extractLsb' 0 5).setWidth 6)) |||
        (reg2 >>> (reg1.extractLsb' 0 5))
    | _ => ZeroWord

/-- The second operand of the adder: negated for subtraction and signed compare. -/
def reg2_input_mux (op : AluOp) (reg2 : Word) : Word :=
  if op = .EXE_SUBU_OP ∨ op = .EXE_SLT_OP then ~~~reg2 + 1#32 else reg2

def result_sum (op : AluOp) (reg1 reg2 : Word) : Word := reg1 + reg2_input_mux op reg2

def reg1_lt_reg2 (op : AluOp) (reg1 reg2 : Word) : Bool :=
  if op = .EXE_SLT_OP then
    (reg1.getLsbD 31 && !reg2.getLsbD 31) ||
      (!reg1.getLsbD 31 && !reg2.getLsbD 31 && (result_sum op reg1 reg2).getLsbD 31) ||
      (reg1.getLsbD 31 && reg2.getLsbD 31 && (result_sum op reg1 reg2).getLsbD 31)
  else reg1.ult reg2

def arithres (rst : Bool) (op : AluOp) (reg1 reg2 : Word) : Word :=
  if rst then ZeroWord
  else match op with
    | .EXE_SLT_OP | .EXE_SLTU_OP => (BitVec.ofBool (reg1_lt_reg2 op reg1 reg2)).setWidth 32
    | .EXE_ADDIU_OP | .EXE_ADDU_OP | .EXE_SUBU_OP => result_sum op reg1 reg2
    | _ => ZeroWord

/-- The effective address of loads and stores, computed for every instruction. -/
def mem_addr_output (reg1 inst : Word) : Word := reg1 + (inst.extractLsb' 0 16).signExtend 32

def is_ADES (op : AluOp) (addr : Word) : Bool :=
  op = .EXE_SW_OP && addr.extractLsb' 0 2 != 0#2

def is_ADEL (op : AluOp) (addr : Word) : Bool :=
  (op = .EXE_LHU_OP && addr.getLsbD 0) || (op = .EXE_LW_OP && addr.extractLsb' 0 2 != 0#2)

/-- The pending-exception word with the address-error bits filled in. -/
def excepttype_output (flags : ExceptFlags) (op : AluOp) (addr : Word) : ExceptFlags :=
  { flags with is_ADEL := is_ADEL op addr, is_ADES := is_ADES op addr }

def wdata_output (sel : AluSel) (logic shift move arith link : Word) : Word :=
  match sel with
  | .EXE_RES_LOGIC => logic
  | .EXE_RES_SHIFT => shift
  | .EXE_RES_MOVE => move
  | .EXE_RES_ARITHMETIC => arith
  | .EXE_RES_JUMP_BRANCH => link
  | _ => ZeroWord

end mips32s.EX

namespace mips32s.hilo_reg

def next (rst : Bool) (wb : EX.HiLo) (s : Word × Word) : Word × Word :=
  if rst then (ZeroWord, ZeroWord) else if wb.whilo then (wb.hi, wb.lo) else s

end mips32s.hilo_reg
