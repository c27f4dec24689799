import Mips32S.Cpu.Const

namespace mips32s.ctrl

/-- The six stall bits, one per stage from the program counter on. -/
def stall (rst : Bool) (excepttype : ExceptType)
    (stallreq_from_mem stallreq_from_id stallreq_from_if : Bool) : BitVec 6 :=
  if rst then 0b000000#6
  else if excepttype ≠ .none then 0b000000#6
  else if stallreq_from_mem then 0b011111#6
  else if stallreq_from_id then 0b000111#6
  else if stallreq_from_if then 0b000111#6
  else 0b000000#6

def flush (rst : Bool) (excepttype : ExceptType) : Bool := !rst && excepttype != .none

/-- The address fetching resumes at. It is assigned under reset, on a flush and
when nothing stalls; in a stalled cycle the source keeps the previous value `held`. -/
def new_pc (rst : Bool) (excepttype : ExceptType) (stall : BitVec 6)
    (exc_vec_addr_input cp0_epc_input held : Word) : Word :=
  if rst then ZeroWord
  else match excepttype with
    | .interrupt | .syscall | .inst_invalid | .ADEL | .ADES => exc_vec_addr_input + 0x180#32
    | .eret => cp0_epc_input
    | .tlbl_inst | .tlb_modify | .tlbl_data | .tlbs => exc_vec_addr_input
    | .none => if stall = 0#6 then ZeroWord else held

end mips32s.ctrl
