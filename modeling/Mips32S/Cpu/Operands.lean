import Mips32S.Cpu.Decode

namespace mips32s.ID

/-- The results of the instructions in EX and MEM as the decoder sees them. -/
structure Forward where
  ex_wreg : Bool
  ex_waddr : RegAddr
  ex_wdata : Word
  ex_aluop : AluOp
  mem_wreg : Bool
  mem_waddr : RegAddr
  mem_wdata : Word

/-- The load-use test of one read port. -/
def bubble_require_wait_for_load (rst : Bool) (fwd : Forward) (read : Bool) (addr : RegAddr) :
    Bool :=
  !rst && (fwd.ex_aluop.isLoad && fwd.ex_waddr == addr && read)

/-- The operand of one read port: EX first, then MEM, then the register file, or
the immediate when the port is not read. While the port waits for a load the
source assigns nothing, so the previous value `held` stays. -/
def reg_output (rst : Bool) (fwd : Forward) (read : Bool) (addr : RegAddr)
    (imm reg_data held : Word) : Word :=
  if rst then ZeroWord
  else if fwd.ex_aluop.isLoad && fwd.ex_waddr == addr && read then held
  else if read then
    if fwd.ex_wreg && fwd.ex_waddr == addr then fwd.ex_wdata
    else if fwd.mem_wreg && fwd.mem_waddr == addr then fwd.mem_wdata
    else reg_data
  else imm

/-- `(pc_input + 4) + {{14{inst[15]}}, inst[15:0], 2'b00}`. -/
def branch_addr (pc inst : Word) : Word := (pc + 4#32) + (imm16 inst ++ 0#2).signExtend 32

/-- `{pc_plus_4[31:28], inst[25:0], 2'b00}`. -/
def jump_addr (pc inst : Word) : Word :=
  (pc + 4#32).extractLsb' 28 4 ++ inst.extractLsb' 0 26 ++ 0#2

/-- Whether the decoded instruction redirects the program counter. -/
def branch_flag_output (rst : Bool) (inst reg1 reg2 : Word) : Bool :=
  if rst then false
  else if opcode inst = EXE_SPECIAL_INST then
    shamt inst == 0#5 && (funct inst == EXE_JALR || funct inst == EXE_JR)
  else if opcode inst = EXE_BEQ then reg1 == reg2
  else if opcode inst = EXE_BGTZ then reg1.getLsbD 31 == false && reg1 != ZeroWord
  else if opcode inst = EXE_BLEZ then reg1.getLsbD 31 == true || reg1 == ZeroWord
  else if opcode inst = EXE_BNE then reg1 != reg2
  else if opcode inst = EXE_REGIMM_INST then
    if rt inst = EXE_BGEZ then reg1.getLsbD 31 == false
    else if rt inst = EXE_BLTZ then reg1.getLsbD 31 == true
    else false
  else opcode inst == EXE_J || opcode inst == EXE_JAL

/-- The address the program counter is redirected to; zero without a redirection. -/
def branch_target_addr_output (rst : Bool) (pc inst reg1 reg2 : Word) : Word :=
  if branch_flag_output rst inst reg1 reg2 then
    if opcode inst = EXE_SPECIAL_INST then reg1
    else if opcode inst = EXE_J ∨ opcode inst = EXE_JAL then jump_addr pc inst
    else branch_addr pc inst
  else ZeroWord

/-- The return address of the linking jumps. -/
def link_addr_output (rst : Bool) (pc inst : Word) : Word :=
  if rst then ZeroWord
  else if opcode inst = EXE_SPECIAL_INST ∧ shamt inst = 0#5 ∧ funct inst = EXE_JALR then pc + 8#32
  else if opcode inst = EXE_JAL then pc + 8#32
  else ZeroWord

/-- The pending-exception word of the decoded instruction. -/
def excepttype_output (d : Decoded) (pc : Word) (is_tlbl_inst : Bool) : ExceptFlags where
  is_syscall := d.excepttype_is_syscall
  inst_invalid := d.instvalid
  is_ADEL := false
  is_ADES := false
  is_eret := d.excepttype_is_eret
  is_tlbl_inst := is_tlbl_inst && pc != ZeroWord

end mips32s.ID

namespace mips32s.Reg_Dir

/-- One clock edge of the register file; register 0 is never written. -/
def next (rst write_enable : Bool) (waddr : RegAddr) (wdata : Word) (regs : RegAddr → Word) :
    RegAddr → Word :=
  if rst = false ∧ write_enable ∧ waddr ≠ 0#5 then fun a => if a = waddr then wdata else regs a
  else regs

/-- A read port, with the write-through of the instruction in WB. -/
def rdata (rst write_enable : Bool) (waddr : RegAddr) (wdata : Word) (read_enable : Bool)
    (raddr : RegAddr) (regs : RegAddr → Word) : Word :=
  if rst then ZeroWord
  else if raddr = 0#5 then ZeroWord
  else if raddr = waddr ∧ write_enable ∧ read_enable then wdata
  else if read_enable then regs raddr
  else ZeroWord

end mips32s.Reg_Dir
