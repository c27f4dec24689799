import Mips32S.Cpu.StageRegs

namespace mips32s.ID

/-- The major opcode, `inst_input[31:26]`. -/
def opcode (inst : Word) : BitVec 6 := inst.extractLsb' 26 6

/-- The function field, `inst_input[5:0]`. -/
def funct (inst : Word) : BitVec 6 := inst.extractLsb' 0 6

/-- `inst_input[25:21]`. -/
def rs (inst : Word) : RegAddr := inst.extractLsb' 21 5

/-- `inst_input[20:16]`. -/
def rt (inst : Word) : RegAddr := inst.extractLsb' 16 5

/-- `inst_input[15:11]`. -/
def rd (inst : Word) : RegAddr := inst.extractLsb' 11 5

/-- `inst_input[10:6]`. -/
def shamt (inst : Word) : BitVec 5 := inst.extractLsb' 6 5

/-- `inst_input[15:0]`. -/
def imm16 (inst : Word) : BitVec 16 := inst.extractLsb' 0 16

abbrev EXE_SPECIAL_INST : BitVec 6 := 0b000000#6
abbrev EXE_REGIMM_INST : BitVec 6 := 0b000001#6
abbrev EXE_AND : BitVec 6 := 0b100100#6
abbrev EXE_OR : BitVec 6 := 0b100101#6
abbrev EXE_XOR : BitVec 6 := 0b100110#6
abbrev EXE_NOR : BitVec 6 := 0b100111#6
abbrev EXE_ANDI : BitVec 6 := 0b001100#6
abbrev EXE_ORI : BitVec 6 := 0b001101#6
abbrev EXE_XORI : BitVec 6 := 0b001110#6
abbrev EXE_LUI : BitVec 6 := 0b001111#6
abbrev EXE_SLL : BitVec 6 := 0b000000#6
abbrev EXE_SLLV : BitVec 6 := 0b000100#6
abbrev EXE_SRL : BitVec 6 := 0b000010#6
abbrev EXE_SRLV : BitVec 6 := 0b000110#6
abbrev EXE_SRA : BitVec 6 := 0b000011#6
abbrev EXE_SRAV : BitVec 6 := 0b000111#6
abbrev EXE_MFHI : BitVec 6 := 0b010000#6
abbrev EXE_MTHI : BitVec 6 := 0b010001#6
abbrev EXE_MFLO : BitVec 6 := 0b010010#6
abbrev EXE_MTLO : BitVec 6 := 0b010011#6
abbrev EXE_SLT : BitVec 6 := 0b101010#6
abbrev EXE_SLTU : BitVec 6 := 0b101011#6
abbrev EXE_SLTI : BitVec 6 := 0b001010#6
abbrev EXE_SLTIU : BitVec 6 := 0b001011#6
abbrev EXE_SUBU : BitVec 6 := 0b100011#6
abbrev EXE_ADDU : BitVec 6 := 0b100001#6
abbrev EXE_ADDIU : BitVec 6 := 0b001001#6
abbrev EXE_MULT : BitVec 6 := 0b011000#6
abbrev EXE_MULTU : BitVec 6 := 0b011001#6
abbrev EXE_J : BitVec 6 := 0b000010#6
abbrev EXE_JAL : BitVec 6 := 0b000011#6
abbrev EXE_JALR : BitVec 6 := 0b001001#6
abbrev EXE_JR : BitVec 6 := 0b001000#6
abbrev EXE_BEQ : BitVec 6 := 0b000100#6
abbrev EXE_BGEZ : BitVec 5 := 0b00001#5
abbrev EXE_BGTZ : BitVec 6 := 0b000111#6
abbrev EXE_BLEZ : BitVec 6 := 0b000110#6
abbrev EXE_BLTZ : BitVec 5 := 0b00000#5
abbrev EXE_BNE : BitVec 6 := 0b000101#6
abbrev EXE_LB : BitVec 6 := 0b100000#6
abbrev EXE_LBU : BitVec 6 := 0b100100#6
abbrev EXE_LHU : BitVec 6 := 0b100101#6
abbrev EXE_LW : BitVec 6 := 0b100011#6
abbrev EXE_SB : BitVec 6 := 0b101000#6
abbrev EXE_SW : BitVec 6 := 0b101011#6
abbrev EXE_SYSCALL : BitVec 6 := 0b001100#6
abbrev EXE_CACHE : BitVec 6 := 0b101111#6

/-- The decoder outputs that are a function of the instruction word alone.
`instvalid` has the source's polarity: it is set for an invalid instruction. -/
structure Decoded where
  aluop : AluOp
  alusel : AluSel
  waddr : RegAddr
  wreg : Bool
  reg1_read : Bool
  reg2_read : Bool
  reg1_addr : RegAddr
  reg2_addr : RegAddr
  imm : Word
  next_inst_in_delayslot : Bool
  excepttype_is_eret : Bool
  excepttype_is_syscall : Bool
  instvalid : Bool
  deriving DecidableEq

/-- The values assigned before the case statements. -/
def Decoded.init (inst : Word) : Decoded where
  aluop := .EXE_NOP_OP
  alusel := .EXE_RES_NOP
  waddr := rd inst
  wreg := false
  reg1_read := false
  reg2_read := false
  reg1_addr := rs inst
  reg2_addr := rt inst
  imm := ZeroWord
  next_inst_in_delayslot := false
  excepttype_is_eret := false
  excepttype_is_syscall := false
  instvalid := true

/-- A shift by the constant in `inst_input[10:6]`. -/
def shiftImm (inst : Word) (op : AluOp) (d : Decoded) : Decoded :=
  { d with
    wreg := true, aluop := op, alusel := .EXE_RES_SHIFT, reg1_read := false, reg2_read := true,
    imm := (shamt inst).setWidth 32, waddr := rd inst, instvalid := false }

/-- A two-operand register instruction with result `rd`. -/
def regOp (op : AluOp) (sel : AluSel) (d : Decoded) : Decoded :=
  { d with
    wreg := true, aluop := op, alusel := sel, reg1_read := true, reg2_read := true
    instvalid := false }

/-- An instruction with one register operand, an immediate and result `rt`. -/
def immOp (inst : Word) (op : AluOp) (sel : AluSel) (imm : Word) (d : Decoded) : Decoded :=
  { d with
    wreg := true, aluop := op, alusel := sel, reg1_read := true, reg2_read := false, imm := imm,
    waddr := rt inst, instvalid := false }

/-- A load from `rs` plus offset into `rt`. -/
def loadOp (inst : Word) (op : AluOp) (d : Decoded) : Decoded :=
  { d with
    wreg := true, aluop := op, alusel := .EXE_RES_LOAD_STORE, reg1_read := true, reg2_read := false,
    waddr := rt inst, instvalid := false }

/-- A store of `rt` to `rs` plus offset. -/
def storeOp (op : AluOp) (d : Decoded) : Decoded :=
  { d with
    wreg := false, aluop := op, alusel := .EXE_RES_LOAD_STORE, reg1_read := true, reg2_read := true,
    instvalid := false }

/-- A branch or jump; `read1` and `read2` say which operands it reads. -/
def branchOp (op : AluOp) (read1 read2 : Bool) (d : Decoded) : Decoded :=
  { d with
    wreg := false, aluop := op, alusel := .EXE_RES_JUMP_BRANCH, reg1_read := read1, reg2_read := read2,
    next_inst_in_delayslot := true, instvalid := false }

/-- An instruction without operands and without register result. -/
def plainOp (op : AluOp) (d : Decoded) : Decoded :=
  { d with
    wreg := false, aluop := op, alusel := .EXE_RES_NOP, reg1_read := false, reg2_read := false,
    instvalid := false }

/-- The inner case statement over `inst_input[5:0]` for `inst_input[10:6] = 0`. -/
def specialFunct (inst : Word) (d : Decoded) : Decoded :=
  if funct inst = EXE_ADDU then regOp .EXE_ADDU_OP .EXE_RES_ARITHMETIC d
  else if funct inst = EXE_AND then regOp .EXE_AND_OP .EXE_RES_LOGIC d
  else if funct inst = EXE_JALR then
    { branchOp .EXE_JALR_OP true false d with wreg := true, waddr := rd inst }
  else if funct inst = EXE_JR then branchOp .EXE_JR_OP true false d
  else if funct inst = EXE_NOR then regOp .EXE_NOR_OP .EXE_RES_LOGIC d
  else if funct inst = EXE_OR then regOp .EXE_OR_OP .EXE_RES_LOGIC d
  else if funct inst = EXE_SLLV then regOp .EXE_SLL_OP .EXE_RES_SHIFT d
  else if funct inst = EXE_SRLV then regOp .EXE_SRL_OP .EXE_RES_SHIFT d
  else if funct inst = EXE_SRAV then regOp .EXE_SRA_OP .EXE_RES_SHIFT d
  else if funct inst = EXE_SLT then regOp .EXE_SLT_OP .EXE_RES_ARITHMETIC d
  else if funct inst = EXE_SLTU then regOp .EXE_SLTU_OP .EXE_RES_ARITHMETIC d
  else if funct inst = EXE_SUBU then regOp .EXE_SUBU_OP .EXE_RES_ARITHMETIC d
  else if funct inst = EXE_XOR then regOp .EXE_XOR_OP .EXE_RES_LOGIC d
  else if funct inst = EXE_MFHI then
    { plainOp .EXE_MFHI_OP d with wreg := true, alusel := .EXE_RES_MOVE }
  else if funct inst = EXE_MFLO then
    { plainOp .EXE_MFLO_OP d with wreg := true, alusel := .EXE_RES_MOVE }
  else if funct inst = EXE_MTHI then
    { plainOp .EXE_MTHI_OP d with alusel := .EXE_RES_MOVE, reg1_read := true }
  else if funct inst = EXE_MTLO then
    { plainOp .EXE_MTLO_OP d with alusel := .EXE_RES_MOVE, reg1_read := true }
  else if funct inst = EXE_MULT then
    { plainOp .EXE_MULT_OP d with reg1_read := true, reg2_read := true }
  else if funct inst = EXE_MULTU then
    { plainOp .EXE_MULTU_OP d with reg1_read := true, reg2_read := true }
  else if funct inst = EXE_SYSCALL then
    { plainOp .EXE_SYSCALL_OP d with excepttype_is_syscall := true }
  else d

/-- The case `EXE_SPECIAL_INST`: constant shifts when `inst_input[31:21] = 0`, then
the instructions with `inst_input[10:6] = 0`. -/
def special (inst : Word) (d : Decoded) : Decoded :=
  let d :=
    if rs inst = 0#5 then
      if funct inst = EXE_SLL then shiftImm inst .EXE_SLL_OP d
      else if funct inst = EXE_SRL then shiftImm inst .EXE_SRL_OP d
      else if funct inst = EXE_SRA then shiftImm inst .EXE_SRA_OP d
      else d
    else d
  if shamt inst = 0#5 then specialFunct inst d else d

/-- The outer case statement over `inst_input[31:26]`. -/
def byOpcode (inst : Word) (d : Decoded) : Decoded :=
  let signed := (imm16 inst).signExtend 32
  let unsigned := (imm16 inst).setWidth 32
  if opcode inst = EXE_SPECIAL_INST then special inst d
  else if opcode inst = EXE_ADDIU then immOp inst .EXE_ADDIU_OP .EXE_RES_ARITHMETIC signed d
  else if opcode inst = EXE_ANDI then immOp inst .EXE_AND_OP .EXE_RES_LOGIC unsigned d
  else if opcode inst = EXE_BEQ then branchOp .EXE_BEQ_OP true true d
  else if opcode inst = EXE_BGTZ then branchOp .EXE_BGTZ_OP true false d
  else if opcode inst = EXE_BLEZ then branchOp .EXE_BLEZ_OP true false d
  else if opcode inst = EXE_BNE then branchOp .EXE_BNE_OP true true d
  else if opcode inst = EXE_REGIMM_INST then
    if rt inst = EXE_BGEZ then branchOp .EXE_BGEZ_OP true false d
    else if rt inst = EXE_BLTZ then branchOp .EXE_BLTZ_OP true false d
    else d
  else if opcode inst = EXE_J then branchOp .EXE_J_OP false false d
  else if opcode inst = EXE_JAL then
    { branchOp .EXE_JAL_OP false false d with wreg := true, waddr := 0b11111#5 }
  else if opcode inst = EXE_LB then loadOp inst .EXE_LB_OP d
  else if opcode inst = EXE_LBU then loadOp inst .EXE_LBU_OP d
  else if opcode inst = EXE_LUI then
    immOp inst .EXE_OR_OP .EXE_RES_LOGIC (imm16 inst ++ 0#16) d
  else if opcode inst = EXE_LHU then loadOp inst .EXE_LHU_OP d
  else if opcode inst = EXE_LW then loadOp inst .EXE_LW_OP d
  else if opcode inst = EXE_ORI then immOp inst .EXE_OR_OP .EXE_RES_LOGIC unsigned d
  else if opcode inst = EXE_SB then storeOp .EXE_SB_OP d
  else if opcode inst = EXE_SW then storeOp .EXE_SW_OP d
  else if opcode inst = EXE_SLTI then immOp inst .EXE_SLT_OP .EXE_RES_ARITHMETIC signed d
  else if opcode inst = EXE_SLTIU then immOp inst .EXE_SLTU_OP .EXE_RES_ARITHMETIC signed d
  else if opcode inst = EXE_XORI then immOp inst .EXE_XOR_OP .EXE_RES_LOGIC unsigned d
  else if opcode inst = EXE_CACHE then plainOp .EXE_NOP_OP d
  else d

/-- `inst_input[31:21] = 010000_00000` and `inst_input[10:0] = 0`. -/
def isMfc0 (inst : Word) : Bool :=
  inst.extractLsb' 21 11 == 0b01000000000#11 && inst.extractLsb' 0 11 == 0#11

/-- `inst_input[31:21] = 010000_00100` and `inst_input[10:0]` in 0..3. -/
def isMtc0 (inst : Word) : Bool :=
  inst.extractLsb' 21 11 == 0b01000000100#11 &&
    (inst.extractLsb' 0 11 == 0#11 || inst.extractLsb' 0 11 == 1#11 ||
      inst.extractLsb' 0 11 == 2#11 || inst.extractLsb' 0 11 == 3#11)

def mfc0Op (inst : Word) (d : Decoded) : Decoded :=
  { plainOp .EXE_MFC0_OP d with alusel := .EXE_RES_MOVE, waddr := rt inst, wreg := true }

def mtc0Op (inst : Word) (d : Decoded) : Decoded :=
  { plainOp .EXE_MTC0_OP d with reg1_read := true, reg1_addr := rt inst }

def eretOp (d : Decoded) : Decoded := { plainOp .EXE_ERET_OP d with excepttype_is_eret := true }

/-- The statements after the case statement, in the order of the source. -/
def coprocessor (inst : Word) (d : Decoded) : Decoded :=
  let d := if isMfc0 inst then mfc0Op inst d else d
  let d := if isMtc0 inst then mtc0Op inst d else d
  let d := if inst = EXE_ERET then eretOp d else d
  let d := if inst = EXE_TLBWI then plainOp .EXE_TLBWI_OP d else d
  let d := if inst = EXE_TLBWR then plainOp .EXE_TLBWR_OP d else d
  let d := if inst = EXE_TLBR then plainOp .EXE_TLBR_OP d else d
  if inst = EXE_TLBP then plainOp .EXE_TLBP_OP d else d

/-- The combinational decoder outside reset. -/
def decode (inst : Word) : Decoded := coprocessor inst (byOpcode inst (Decoded.init inst))

def Decoded.reset : Decoded where
  aluop := .EXE_NOP_OP
  alusel := .EXE_RES_NOP
  waddr := 0#5
  wreg := false
  reg1_read := false
  reg2_read := false
  reg1_addr := 0#5
  reg2_addr := 0#5
  imm := ZeroWord
  next_inst_in_delayslot := false
  excepttype_is_eret := false
  excepttype_is_syscall := false
  instvalid := false

end mips32s.ID
