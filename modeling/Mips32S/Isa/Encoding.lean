import Mips32S.Cpu.Decode

open BitVec

namespace mips32s.Isa

def rType (op : BitVec 6) (rs rt rd shamt : BitVec 5) (funct : BitVec 6) : Word :=
  op ++ rs ++ rt ++ rd ++ shamt ++ funct

def iType (op : BitVec 6) (rs rt : BitVec 5) (imm : BitVec 16) : Word := op ++ rs ++ rt ++ imm

def jType (op : BitVec 6) (index : BitVec 26) : Word := op ++ index

/-- The shifts. -/
inductive Shift where
  | SLL | SRL | SRA
  deriving DecidableEq

/-- The operations on two registers. -/
inductive RegOp where
  | ADDU | SUBU | AND | OR | XOR | NOR | SLT | SLTU
  deriving DecidableEq

/-- The operations on a register and an immediate. -/
inductive ImmOp where
  | ADDIU | SLTI | SLTIU | ANDI | ORI | XORI
  deriving DecidableEq

/-- The loads and stores. -/
inductive MemOp where
  | LB | LBU | LHU | LW | SB | SW
  deriving DecidableEq

/-- The moves from and to HI and LO. -/
inductive HiloOp where
  | MFHI | MFLO | MTHI | MTLO
  deriving DecidableEq

/-- The TLB instructions. -/
inductive TlbInstr where
  | TLBR | TLBWI | TLBWR | TLBP
  deriving DecidableEq

/-- The instructions of MIPS32 that the processor implements, with their operands. -/
inductive Instr where
  | shift (op : Shift) (rt rd sa : BitVec 5)
  | shiftVar (op : Shift) (rs rt rd : BitVec 5)
  | reg (op : RegOp) (rs rt rd : BitVec 5)
  | imm (op : ImmOp) (rs rt : BitVec 5) (imm : BitVec 16)
  | LUI (rt : BitVec 5) (imm : BitVec 16)
  | mult (signed : Bool) (rs rt : BitVec 5)
  | hilo (op : HiloOp) (r : BitVec 5)
  | mem (op : MemOp) (base rt : BitVec 5) (offset : BitVec 16)
  | BEQ (rs rt : BitVec 5) (offset : BitVec 16)
  | BNE (rs rt : BitVec 5) (offset : BitVec 16)
  | BLEZ (rs : BitVec 5) (offset : BitVec 16)
  | BGTZ (rs : BitVec 5) (offset : BitVec 16)
  | BLTZ (rs : BitVec 5) (offset : BitVec 16)
  | BGEZ (rs : BitVec 5) (offset : BitVec 16)
  | J (index : BitVec 26)
  | JAL (index : BitVec 26)
  | JR (rs : BitVec 5)
  | JALR (rs rd : BitVec 5)
  | SYSCALL (code : BitVec 20)
  | MFC0 (rt rd : BitVec 5) (sel : BitVec 3)
  | MTC0 (rt rd : BitVec 5) (sel : BitVec 3)
  | ERET
  | tlb (op : TlbInstr)
  | CACHE (base op : BitVec 5) (offset : BitVec 16)

def Shift.funct : Shift → BitVec 6
  | SLL => 0b000000#6
  | SRL => 0b000010#6
  | SRA => 0b000011#6

def Shift.functVar : Shift → BitVec 6
  | SLL => 0b000100#6
  | SRL => 0b000110#6
  | SRA => 0b000111#6

def RegOp.funct : RegOp → BitVec 6
  | ADDU => 0b100001#6
  | SUBU => 0b100011#6
  | AND => 0b100100#6
  | OR => 0b100101#6
  | XOR => 0b100110#6
  | NOR => 0b100111#6
  | SLT => 0b101010#6
  | SLTU => 0b101011#6

def ImmOp.opcode : ImmOp → BitVec 6
  | ADDIU => 0b001001#6
  | SLTI => 0b001010#6
  | SLTIU => 0b001011#6
  | ANDI => 0b001100#6
  | ORI => 0b001101#6
  | XORI => 0b001110#6

def MemOp.opcode : MemOp → BitVec 6
  | LB => 0b100000#6
  | LBU => 0b100100#6
  | LHU => 0b100101#6
  | LW => 0b100011#6
  | SB => 0b101000#6
  | SW => 0b101011#6

def TlbInstr.funct : TlbInstr → BitVec 6
  | TLBR => 0b000001#6
  | TLBWI => 0b000010#6
  | TLBWR => 0b000110#6
  | TLBP => 0b001000#6

/-- The encoding of an instruction; the fields it does not use are zero. -/
def Instr.encode : Instr → Word
  | shift op rt rd sa => rType 0b000000#6 0#5 rt rd sa op.funct
  | shiftVar op rs rt rd => rType 0b000000#6 rs rt rd 0#5 op.functVar
  | reg op rs rt rd => rType 0b000000#6 rs rt rd 0#5 op.funct
  | imm op rs rt i => iType op.opcode rs rt i
  | LUI rt i => iType 0b001111#6 0#5 rt i
  | mult signed rs rt => rType 0b000000#6 rs rt 0#5 0#5 (if signed then 0b011000#6 else 0b011001#6)
  | hilo .MFHI rd => rType 0b000000#6 0#5 0#5 rd 0#5 0b010000#6
  | hilo .MTHI rs => rType 0b000000#6 rs 0#5 0#5 0#5 0b010001#6
  | hilo .MFLO rd => rType 0b000000#6 0#5 0#5 rd 0#5 0b010010#6
  | hilo .MTLO rs => rType 0b000000#6 rs 0#5 0#5 0#5 0b010011#6
  | mem op base rt offset => iType op.opcode base rt offset
  | BEQ rs rt offset => iType 0b000100#6 rs rt offset
  | BNE rs rt offset => iType 0b000101#6 rs rt offset
  | BLEZ rs offset => iType 0b000110#6 rs 0#5 offset
  | BGTZ rs offset => iType 0b000111#6 rs 0#5 offset
  | BLTZ rs offset => iType 0b000001#6 rs 0b00000#5 offset
  | BGEZ rs offset => iType 0b000001#6 rs 0b00001#5 offset
  | J index => jType 0b000010#6 index
  | JAL index => jType 0b000011#6 index
  | JR rs => rType 0b000000#6 rs 0#5 0#5 0#5 0b001000#6
  | JALR rs rd => rType 0b000000#6 rs 0#5 rd 0#5 0b001001#6
  | SYSCALL code => jType 0b000000#6 (code ++ 0b001100#6)
  | MFC0 rt rd sel => rType 0b010000#6 0b00000#5 rt rd 0#5 (0#3 ++ sel)
  | MTC0 rt rd sel => rType 0b010000#6 0b00100#5 rt rd 0#5 (0#3 ++ sel)
  | ERET => rType 0b010000#6 0b10000#5 0#5 0#5 0#5 0b011000#6
  | tlb op => rType 0b010000#6 0b10000#5 0#5 0#5 0#5 op.funct
  | CACHE base op offset => iType 0b101111#6 base op offset

/-- The word is the encoding of an implemented instruction. -/
def Legal (w : Word) : Prop := ∃ i : Instr, i.encode = w

/-! The fields of an encoded word. -/

variable (op : BitVec 6) (rs rt rd sa : BitVec 5) (fn : BitVec 6) (i : BitVec 16) (x : BitVec 26)

@[simp] theorem opcode_rType : ID.opcode (rType op rs rt rd sa fn) = op := by
  refine eq_of_getLsbD_eq fun k hk => ?_
  simp only [ID.opcode, rType, getLsbD_extractLsb', getLsbD_append]
  grind

@[simp] theorem rs_rType : ID.rs (rType op rs rt rd sa fn) = rs := by
  refine eq_of_getLsbD_eq fun k hk => ?_
  simp only [ID.rs, rType, getLsbD_extractLsb', getLsbD_append]
  grind

@[simp] theorem rt_rType : ID.rt (rType op rs rt rd sa fn) = rt := by
  refine eq_of_getLsbD_eq fun k hk => ?_
  simp only [ID.rt, rType, getLsbD_extractLsb', getLsbD_append]
  grind

@[simp] theorem rd_rType : ID.rd (rType op rs rt rd sa fn) = rd := by
  refine eq_of_getLsbD_eq fun k hk => ?_
  simp only [ID.rd, rType, getLsbD_extractLsb', getLsbD_append]
  grind

@[simp] theorem shamt_rType : ID.shamt (rType op rs rt rd sa fn) = sa := by
  refine eq_of_getLsbD_eq fun k hk => ?_
  simp only [ID.shamt, rType, getLsbD_extractLsb', getLsbD_append]
  grind

@[simp] theorem funct_rType : ID.funct (rType op rs rt rd sa fn) = fn := by
  refine eq_of_getLsbD_eq fun k hk => ?_
  simp only [ID.funct, rType, getLsbD_extractLsb', getLsbD_append]
  grind

theorem rType_fields (w : Word) :
    rType (ID.opcode w) (ID.rs w) (ID.rt w) (ID.rd w) (ID.shamt w) (ID.funct w) = w := by
  refine eq_of_getLsbD_eq fun k hk => ?_
  simp only [ID.opcode, ID.rs, ID.rt, ID.rd, ID.shamt, ID.funct, rType,
    getLsbD_extractLsb', getLsbD_append]
  grind

theorem iType_eq : iType op rs rt i =
    rType op rs rt (i.extractLsb' 11 5) (i.extractLsb' 6 5) (i.extractLsb' 0 6) := by
  refine eq_of_getLsbD_eq fun k hk => ?_
  simp only [iType, rType, getLsbD_extractLsb', getLsbD_append]
  grind

theorem jType_eq : jType op x = rType op (x.extractLsb' 21 5) (x.extractLsb' 16 5)
    (x.extractLsb' 11 5) (x.extractLsb' 6 5) (x.extractLsb' 0 6) := by
  refine eq_of_getLsbD_eq fun k hk => ?_
  simp only [jType, rType, getLsbD_extractLsb', getLsbD_append]
  grind

@[simp] theorem opcode_iType : ID.opcode (iType op rs rt i) = op := by rw [iType_eq, opcode_rType]

@[simp] theorem rs_iType : ID.rs (iType op rs rt i) = rs := by rw [iType_eq, rs_rType]

@[simp] theorem rt_iType : ID.rt (iType op rs rt i) = rt := by rw [iType_eq, rt_rType]

@[simp] theorem opcode_jType : ID.opcode (jType op x) = op := by rw [jType_eq, opcode_rType]

@[simp] theorem funct_jType (code : BitVec 20) : ID.funct (jType op (code ++ fn)) = fn := by
  refine eq_of_getLsbD_eq fun k hk => ?_
  simp only [ID.funct, jType, getLsbD_extractLsb', getLsbD_append]
  grind

@[simp] theorem imm16_iType : ID.imm16 (iType op rs rt i) = i := by
  refine eq_of_getLsbD_eq fun k hk => ?_
  simp only [ID.imm16, iType, getLsbD_extractLsb', getLsbD_append]
  grind

@[simp] theorem index_jType : (jType op x).extractLsb' 0 26 = x := by
  refine eq_of_getLsbD_eq fun k hk => ?_
  simp only [jType, getLsbD_extractLsb', getLsbD_append]
  grind

end mips32s.Isa
