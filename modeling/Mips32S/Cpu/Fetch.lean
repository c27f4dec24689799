import Mips32S.Cpu.Const

namespace mips32s

/-- The program counter register. -/
structure IF_PC_Reg where
  PC_output : Word
  chip_enable_flag : Bool

/-- One clock edge of the program counter. The enable that decides between the
reset vector and normal advance is the one registered on the previous edge. -/
def IF_PC_Reg.next (s : IF_PC_Reg) (rst : Bool) (bubble_notice : BitVec 6) (branch_flag : Bool)
    (branch_target_address_input : Word) (flush_flag : Bool) (new_PC_address : Word) :
    IF_PC_Reg where
  chip_enable_flag := !rst
  PC_output :=
    if s.chip_enable_flag = false then ResetVector
    else if flush_flag then new_PC_address
    else if bubble_notice.getLsbD 0 = false then
      if branch_flag then branch_target_address_input else s.PC_output + 4#32
    else s.PC_output

end mips32s
