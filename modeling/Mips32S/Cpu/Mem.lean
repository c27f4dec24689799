import Mips32S.Cpu.Execute
import Mips32S.Lib.Slice

namespace mips32s.mem

open bits

/-- The address put to the MMU; zero for instructions that do not access memory. -/
def mem_addr_output (rst : Bool) (op : AluOp) (mem_addr_input : Word) : Word :=
  if rst then ZeroWord else if op.isMem then mem_addr_input else ZeroWord

/-- The internal write enable, which is also `is_save_inst`. -/
def mem_we (rst : Bool) (op : AluOp) : Bool := !rst && op.isStore

def mem_ce_output (rst : Bool) (op : AluOp) : Bool := !rst && op.isMem

/-- The byte lane of a byte access. -/
def byte_sel (addr : Word) : BitVec 4 :=
  match addr.extractLsb' 0 2 with
  | 0b00#2 => 0b0001#4
  | 0b01#2 => 0b0010#4
  | 0b10#2 => 0b0100#4
  | _ => 0b1000#4

/-- The byte selects. A half-word load at an odd address keeps the initial value. -/
def mem_sel_output (rst : Bool) (op : AluOp) (addr : Word) : BitVec 4 :=
  if rst then 0b0000#4
  else match op with
    | .EXE_LB_OP | .EXE_LBU_OP | .EXE_SB_OP => byte_sel addr
    | .EXE_LHU_OP =>
      match addr.extractLsb' 0 2 with
      | 0b00#2 => 0b0011#4
      | 0b10#2 => 0b1100#4
      | _ => 0b1111#4
    | _ => 0b1111#4

/-- The store data; only stores assign it outside reset. -/
def mem_data_output (rst : Bool) (op : AluOp) (reg2 held : Word) : Word :=
  if rst then ZeroWord
  else match op with
    | .EXE_SB_OP =>
      reg2.extractLsb' 0 8 ++ reg2.extractLsb' 0 8 ++ reg2.extractLsb' 0 8 ++ reg2.extractLsb' 0 8
    | .EXE_SW_OP => reg2
    | _ => held

/-- The byte a byte load selects from the data bus. -/
def byte_lane (addr data : Word) : BitVec 8 :=
  match addr.extractLsb' 0 2 with
  | 0b00#2 => data.extractLsb' 0 8
  | 0b01#2 => data.extractLsb' 8 8
  | 0b10#2 => data.extractLsb' 16 8
  | _ => data.extractLsb' 24 8

def wdata_output (rst : Bool) (op : AluOp) (addr wdata_input mem_data_input : Word) : Word :=
  if rst then ZeroWord
  else match op with
    | .EXE_LB_OP => (byte_lane addr mem_data_input).signExtend 32
    | .EXE_LBU_OP => (byte_lane addr mem_data_input).setWidth 32
    | .EXE_LHU_OP =>
      match addr.extractLsb' 0 2 with
      | 0b00#2 => (mem_data_input.extractLsb' 0 16).setWidth 32
      | 0b10#2 => (mem_data_input.extractLsb' 16 16).setWidth 32
      | _ => ZeroWord
    | .EXE_LW_OP => mem_data_input
    | _ => wdata_input

/-- The values of MEM that some branch of the source assigns only in part or not at
all, so that their previous value shows through. -/
structure Latch where
  mem_data_output : Word
  cp0_cause : Word
  cp0_index : Word
  cp0_entrylo0 : Word
  cp0_entrylo1 : Word
  cp0_entryhi : Word

/-- The instruction in WB writes CP0 register `addr`. -/
def bypass (wb : EX.Cp0Write) (addr : BitVec 5) : Bool := wb.we && wb.write_addr == addr

def cp0_status (rst : Bool) (wb : EX.Cp0Write) (cp0_status_input : Word) : Word :=
  if rst then ZeroWord else if bypass wb CP0_REG_STATUS then wb.data else cp0_status_input

def cp0_epc (rst : Bool) (wb : EX.Cp0Write) (cp0_epc_input : Word) : Word :=
  if rst then ZeroWord else if bypass wb CP0_REG_EPC then wb.data else cp0_epc_input

def cp0_cause (rst : Bool) (wb : EX.Cp0Write) (cp0_cause_input held : Word) : Word :=
  if rst then ZeroWord
  else if bypass wb CP0_REG_CAUSE then
    setSlice (setSlice (setSlice held 8 (wb.data.extractLsb' 8 2)) 22 (wb.data.extractLsb' 22 1))
      23 (wb.data.extractLsb' 23 1)
  else cp0_cause_input

def cp0_index (rst : Bool) (wb : EX.Cp0Write) (cp0_index_input held : Word) : Word :=
  if rst then ZeroWord
  else if bypass wb CP0_REG_INDEX then setSlice held 0 (wb.data.extractLsb' 0 4)
  else cp0_index_input

/-- `EntryLo0` and `EntryLo1` differ only in the register number. -/
def cp0_entrylo (addr : BitVec 5) (rst : Bool) (wb : EX.Cp0Write) (cp0_entrylo_input held : Word) :
    Word :=
  if rst then ZeroWord
  else if bypass wb addr then
    setSlice (setSlice held 6 (wb.data.extractLsb' 6 20)) 0 (wb.data.extractLsb' 0 3)
  else cp0_entrylo_input

def cp0_entrylo0 := cp0_entrylo CP0_REG_ENTRYLO0
def cp0_entrylo1 := cp0_entrylo CP0_REG_ENTRYLO1

def cp0_entryhi (rst : Bool) (wb : EX.Cp0Write) (cp0_entryhi_input held : Word) : Word :=
  if rst then ZeroWord
  else if bypass wb CP0_REG_ENTRYHI then
    setSlice (setSlice held 13 (wb.data.extractLsb' 13 19)) 0 (wb.data.extractLsb' 0 8)
  else cp0_entryhi_input

def tlb_write_index (op : AluOp) (cp0_random cp0_index : Word) : BitVec 4 :=
  if op = .EXE_TLBWR_OP then cp0_random.extractLsb' 0 4 else cp0_index.extractLsb' 0 4

/-- `{VPN2, PFN1, D1 V1, PFN0, D0 V0}`. -/
def tlb_write_entry (cp0_entryhi cp0_entrylo1 cp0_entrylo0 : Word) : BitVec 63 :=
  cp0_entryhi.extractLsb' 13 19 ++ cp0_entrylo1.extractLsb' 6 20 ++ cp0_entrylo1.extractLsb' 1 2 ++
    cp0_entrylo0.extractLsb' 6 20 ++ cp0_entrylo0.extractLsb' 1 2

/-- An enabled interrupt line is raised and interrupts are enabled outside exception level. -/
def interrupt_pending (cp0_cause cp0_status : Word) : Bool :=
  cp0_cause.extractLsb' 8 8 &&& cp0_status.extractLsb' 8 8 != 0#8 &&
    !cp0_status.getLsbD 1 && cp0_status.getLsbD 0

@[simp] theorem interrupt_pending_zero : interrupt_pending ZeroWord ZeroWord = false := by decide

/-- The exception type, by priority. Nothing is raised at instruction address zero,
which is the address of a bubble. -/
def excepttype_output (rst : Bool) (flags : ExceptFlags)
    (current_inst_addr mem_addr cp0_cause cp0_status : Word)
    (is_tlbl_data is_tlbs is_tlb_modify : Bool) : ExceptType :=
  if rst then .none
  else if current_inst_addr = ZeroWord then .none
  else if interrupt_pending cp0_cause cp0_status then .interrupt
  else if flags.is_syscall then .syscall
  else if flags.is_tlbl_inst then .tlbl_inst
  else if is_tlbl_data && mem_addr != ZeroWord then .tlbl_data
  else if is_tlbs && mem_addr != ZeroWord then .tlbs
  else if is_tlb_modify && mem_addr != ZeroWord then .tlb_modify
  else if flags.inst_invalid then .inst_invalid
  else if flags.is_ADEL then .ADEL
  else if flags.is_ADES then .ADES
  else if flags.is_eret then .eret
  else .none

/-- The faulting address handed to CP0. -/
def badvaddr_output (flags : ExceptFlags) (current_inst_addr badvaddr_input : Word) : Word :=
  if flags.is_tlbl_inst then current_inst_addr else badvaddr_input

end mips32s.mem
