import Mips32S.Cpu.Const
import Mips32S.Lib.Stage

namespace mips32s

open pipeline

/-- The fetch/decode pipeline register. -/
structure IF2ID where
  PC_output : Word
  inst_output : Word
  is_inst_tlbl_output : Bool

def IF2ID.bubble : IF2ID := ⟨ZeroWord, ZeroWord, false⟩

/-- One clock edge of `IF2ID`. A fetch that missed in the TLB delivers the zero
word together with the miss flag. -/
def IF2ID.next (s : IF2ID) (rst : Bool) (bubble_notice : BitVec 6) (flush_flag : Bool)
    (PC_input inst_input : Word) (is_inst_tlbl_input : Bool) : IF2ID :=
  stage (rst || flush_flag) (bubble_notice.getLsbD 1) (bubble_notice.getLsbD 2) .bubble s
    ⟨PC_input, if is_inst_tlbl_input then ZeroWord else inst_input, is_inst_tlbl_input⟩

/-- The part of the decode/execute register that is emptied by a bubble. -/
structure ID_EX.Slot where
  ex_aluop : AluOp
  ex_alusel : AluSel
  ex_reg1 : Word
  ex_reg2 : Word
  ex_wd : RegAddr
  ex_wreg : Bool
  ex_link_addr : Word
  ex_is_in_delayslot : Bool
  ex_inst : Word
  ex_excepttype : ExceptFlags
  ex_current_inst_addr : Word

def ID_EX.Slot.bubble : ID_EX.Slot where
  ex_aluop := .EXE_NOP_OP
  ex_alusel := .EXE_RES_NOP
  ex_reg1 := ZeroWord
  ex_reg2 := ZeroWord
  ex_wd := 0#5
  ex_wreg := false
  ex_link_addr := ZeroWord
  ex_is_in_delayslot := false
  ex_inst := ZeroWord
  ex_excepttype := .zero
  ex_current_inst_addr := ZeroWord

/-- The decode/execute pipeline register. -/
structure ID_EX extends ID_EX.Slot where
  is_in_delayslot_output : Bool

/-- One clock edge of `ID_EX`. The delay-slot flag for the next instruction is
cleared by reset and flush but, unlike the rest, survives an inserted bubble. -/
def ID_EX.next (s : ID_EX) (rst : Bool) (bubble_notice : BitVec 6) (flush_flag : Bool)
    (id : ID_EX.Slot) (next_inst_in_delayslot_input : Bool) : ID_EX where
  toSlot := stage (rst || flush_flag) (bubble_notice.getLsbD 2) (bubble_notice.getLsbD 3)
    .bubble s.toSlot id
  is_in_delayslot_output :=
    if rst || flush_flag then false
    else if bubble_notice.getLsbD 2 && !bubble_notice.getLsbD 3 then s.is_in_delayslot_output
    else if bubble_notice.getLsbD 2 = false then next_inst_in_delayslot_input
    else s.is_in_delayslot_output

/-- The execute/memory pipeline register. -/
structure EX2MEM where
  mem_waddr : RegAddr
  mem_wreg : Bool
  mem_wdata : Word
  mem_aluop : AluOp
  mem_mem_addr : Word
  mem_reg2 : Word
  mem_excepttype : ExceptFlags
  mem_current_inst_addr : Word
  mem_is_in_delayslot : Bool
  mem_cp0_reg_we : Bool
  mem_cp0_reg_write_addr : BitVec 5
  mem_cp0_reg_data : Word
  mem_whilo : Bool
  mem_hi : Word
  mem_lo : Word

def EX2MEM.bubble : EX2MEM where
  mem_waddr := 0#5
  mem_wreg := false
  mem_wdata := ZeroWord
  mem_aluop := .EXE_NOP_OP
  mem_mem_addr := ZeroWord
  mem_reg2 := ZeroWord
  mem_excepttype := .zero
  mem_current_inst_addr := ZeroWord
  mem_is_in_delayslot := false
  mem_cp0_reg_we := false
  mem_cp0_reg_write_addr := 0#5
  mem_cp0_reg_data := ZeroWord
  mem_whilo := false
  mem_hi := ZeroWord
  mem_lo := ZeroWord

def EX2MEM.next (s : EX2MEM) (rst : Bool) (bubble_notice : BitVec 6) (flush_flag : Bool)
    (ex : EX2MEM) : EX2MEM :=
  stage (rst || flush_flag) (bubble_notice.getLsbD 3) (bubble_notice.getLsbD 4) .bubble s ex

/-- The record `{switch, index, entry}` in which a TLB read travels from the MMU
to CP0; the source packs it into 68 bits. -/
structure TlbStruct where
  switch : Bool
  index : BitVec 4
  entry : BitVec 63

/-- The memory/write-back pipeline register. -/
structure MEM2WB where
  wb_waddr : RegAddr
  wb_wreg : Bool
  wb_wdata : Word
  wb_whilo : Bool
  wb_hi : Word
  wb_lo : Word
  wb_cp0_reg_we : Bool
  wb_cp0_reg_write_addr : BitVec 5
  wb_cp0_reg_data : Word
  tlb_write_struct : TlbStruct

def MEM2WB.bubble : MEM2WB where
  wb_waddr := 0#5
  wb_wreg := false
  wb_wdata := ZeroWord
  wb_whilo := false
  wb_hi := ZeroWord
  wb_lo := ZeroWord
  wb_cp0_reg_we := false
  wb_cp0_reg_write_addr := 0#5
  wb_cp0_reg_data := ZeroWord
  tlb_write_struct := ⟨false, 0#4, 0#63⟩

def MEM2WB.next (s : MEM2WB) (rst : Bool) (bubble_flag : BitVec 6) (flush_flag : Bool)
    (mem : MEM2WB) : MEM2WB :=
  stage (rst || flush_flag) (bubble_flag.getLsbD 4) (bubble_flag.getLsbD 5) .bubble s mem

end mips32s
