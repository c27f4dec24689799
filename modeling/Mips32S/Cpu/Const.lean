import Mathlib.Data.BitVec

namespace mips32s

/-- The 32-bit data path of the processor (`RegBus`, `InstAddrBus`, `InstBus`). -/
abbrev Word := BitVec 32

/-- A general register number (`RegAddrBus`). -/
abbrev RegAddr := BitVec 5

abbrev ZeroWord : Word := 0#32

abbrev ResetVector : Word := 0xBFC00000#32

/-- The operation codes `AluOpBus` that the decoder can produce. The encodings in
the source are pairwise different, so a code is its name. -/
inductive AluOp where
  | EXE_AND_OP | EXE_OR_OP | EXE_XOR_OP | EXE_NOR_OP
  | EXE_SLL_OP | EXE_SRL_OP | EXE_SRA_OP
  | EXE_MFHI_OP | EXE_MTHI_OP | EXE_MFLO_OP | EXE_MTLO_OP
  | EXE_SLT_OP | EXE_SLTU_OP | EXE_SUBU_OP | EXE_ADDU_OP | EXE_ADDIU_OP
  | EXE_MULT_OP | EXE_MULTU_OP
  | EXE_J_OP | EXE_JAL_OP | EXE_JALR_OP | EXE_JR_OP
  | EXE_BEQ_OP | EXE_BGEZ_OP | EXE_BGTZ_OP | EXE_BLEZ_OP | EXE_BLTZ_OP | EXE_BNE_OP
  | EXE_LB_OP | EXE_LBU_OP | EXE_LHU_OP | EXE_LW_OP | EXE_SB_OP | EXE_SW_OP
  | EXE_MFC0_OP | EXE_MTC0_OP
  | EXE_NOP_OP | EXE_SYSCALL_OP | EXE_ERET_OP
  | EXE_TLBWI_OP | EXE_TLBWR_OP | EXE_TLBR_OP | EXE_TLBP_OP
  deriving DecidableEq, Repr

/-- The result selectors `AluSelBus`. -/
inductive AluSel where
  | EXE_RES_NOP | EXE_RES_LOGIC | EXE_RES_SHIFT | EXE_RES_MOVE | EXE_RES_ARITHMETIC
  | EXE_RES_JUMP_BRANCH | EXE_RES_LOAD_STORE
  deriving DecidableEq, Repr

namespace AluOp

/-- The four loads the decoder knows (`pre_inst_is_load`). -/
def isLoad : AluOp → Bool
  | EXE_LB_OP | EXE_LBU_OP | EXE_LHU_OP | EXE_LW_OP => true
  | _ => false

/-- The two stores the decoder knows. -/
def isStore : AluOp → Bool
  | EXE_SB_OP | EXE_SW_OP => true
  | _ => false

def isMem (op : AluOp) : Bool := op.isLoad || op.isStore

def isTlbWrite : AluOp → Bool
  | EXE_TLBWI_OP | EXE_TLBWR_OP => true
  | _ => false

def writesHilo : AluOp → Bool
  | EXE_MTHI_OP | EXE_MTLO_OP | EXE_MULT_OP | EXE_MULTU_OP => true
  | _ => false

def writesCp0 : AluOp → Bool
  | EXE_MTC0_OP | EXE_TLBR_OP | EXE_TLBP_OP => true
  | _ => false

end AluOp

/-- The pending-exception word that travels with an instruction: bits 8, 9, 10,
11, 12 and 13 of `excepttype`. All other bits are constantly zero. -/
structure ExceptFlags where
  is_syscall : Bool
  inst_invalid : Bool
  is_ADEL : Bool
  is_ADES : Bool
  is_eret : Bool
  is_tlbl_inst : Bool
  deriving DecidableEq, Repr

def ExceptFlags.zero : ExceptFlags := ⟨false, false, false, false, false, false⟩

/-- The exception type that `mem` computes, in the order of its codes
`0, 1, 8, a, b, c, e, f, 10, 11, 12`. -/
inductive ExceptType where
  | none | interrupt | syscall | inst_invalid | ADEL | ADES | eret
  | tlbl_inst | tlb_modify | tlbl_data | tlbs
  deriving DecidableEq, Repr

/-- The CP0 register numbers, with the two pseudo numbers under which the results
of `TLBR` and `TLBP` travel. -/
abbrev CP0_REG_INDEX : BitVec 5 := 0b00000#5
abbrev CP0_REG_ENTRYLO0 : BitVec 5 := 0b00010#5
abbrev CP0_REG_ENTRYLO1 : BitVec 5 := 0b00011#5
abbrev CP0_REG_BADVADDR : BitVec 5 := 0b01000#5
abbrev CP0_REG_COUNT : BitVec 5 := 0b01001#5
abbrev CP0_REG_ENTRYHI : BitVec 5 := 0b01010#5
abbrev CP0_REG_COMPARE : BitVec 5 := 0b01011#5
abbrev CP0_REG_STATUS : BitVec 5 := 0b01100#5
abbrev CP0_REG_CAUSE : BitVec 5 := 0b01101#5
abbrev CP0_REG_EPC : BitVec 5 := 0b01110#5
abbrev CP0_REG_EBASE : BitVec 5 := 0b01111#5
abbrev CP0_TLBR : BitVec 5 := 0b10100#5
abbrev CP0_TLBP : BitVec 5 := 0b10101#5

/-- The instruction words that are recognised as a whole. -/
abbrev EXE_ERET : Word := 0b01000010000000000000000000011000#32
abbrev EXE_TLBWI : Word := 0b01000010000000000000000000000010#32
abbrev EXE_TLBWR : Word := 0b01000010000000000000000000000110#32
abbrev EXE_TLBR : Word := 0b01000010000000000000000000000001#32
abbrev EXE_TLBP : Word := 0b01000010000000000000000000001000#32

end mips32s
