import Mips32S.Cpu.Execute
import Mips32S.Lib.Slice

namespace mips32s.cp0_reg

open bits

/-- The CP0 registers, the timer interrupt and the value `data_output` last had. -/
structure State where
  count_output : Word
  compare_output : Word
  status_output : Word
  cause_output : Word
  epc_output : Word
  ebase_output : Word
  timer_int_output : Bool
  index_output : Word
  entrylo0_output : Word
  entrylo1_output : Word
  badvaddr_output : Word
  entryhi_output : Word
  random_output : Word
  data_output : Word

def State.reset (s : State) : State where
  count_output := ZeroWord
  compare_output := ZeroWord
  status_output := 0x10000000#32
  cause_output := ZeroWord
  epc_output := ZeroWord
  ebase_output := 0x80001000#32
  timer_int_output := false
  index_output := ZeroWord
  entrylo0_output := ZeroWord
  entrylo1_output := ZeroWord
  badvaddr_output := ZeroWord
  entryhi_output := ZeroWord
  random_output := ZeroWord
  data_output := s.data_output

/-- The free-running part of a clock edge: counters, interrupt lines, timer. -/
def State.tick (int_input : BitVec 8) (s : State) : State :=
  { s with
    count_output := s.count_output + 1#32
    cause_output := setSlice s.cause_output 8 int_input
    random_output := s.random_output + 1#32
    timer_int_output :=
      if s.compare_output ≠ ZeroWord ∧ s.count_output = s.compare_output then true
      else s.timer_int_output }

def set_entrylo (x data : Word) : Word :=
  setSlice (setSlice x 6 (data.extractLsb' 6 20)) 0 (data.extractLsb' 0 3)

/-- The write of the instruction in WB, register by register. `TLBR` and `TLBP`
results arrive under their pseudo register numbers. -/
def State.write (wb : EX.Cp0Write) (tlb : TlbStruct) (s : State) : State :=
  if wb.we = false then s
  else if wb.write_addr = CP0_REG_COUNT then { s with count_output := wb.data }
  else if wb.write_addr = CP0_REG_COMPARE then
    { s with compare_output := wb.data, timer_int_output := false }
  else if wb.write_addr = CP0_REG_STATUS then
    { s with
      status_output :=
        setSlice (setSlice (setSlice (setSlice s.status_output 28 (wb.data.extractLsb' 28 1))
          8 (wb.data.extractLsb' 8 8)) 4 (wb.data.extractLsb' 4 1)) 0 (wb.data.extractLsb' 0 2) }
  else if wb.write_addr = CP0_REG_EPC then { s with epc_output := wb.data }
  else if wb.write_addr = CP0_REG_CAUSE then
    { s with
      cause_output := setSlice (setSlice s.cause_output 8 (wb.data.extractLsb' 8 2))
        23 (wb.data.extractLsb' 23 1) }
  else if wb.write_addr = CP0_REG_EBASE then
    { s with ebase_output := setSlice s.ebase_output 12 (wb.data.extractLsb' 12 18) }
  else if wb.write_addr = CP0_REG_INDEX then
    { s with index_output := setSlice s.index_output 0 (wb.data.extractLsb' 0 4) }
  else if wb.write_addr = CP0_REG_ENTRYLO0 then
    { s with entrylo0_output := set_entrylo s.entrylo0_output wb.data }
  else if wb.write_addr = CP0_REG_ENTRYLO1 then
    { s with entrylo1_output := set_entrylo s.entrylo1_output wb.data }
  else if wb.write_addr = CP0_REG_BADVADDR then { s with badvaddr_output := wb.data }
  else if wb.write_addr = CP0_REG_ENTRYHI then
    { s with
      entryhi_output := setSlice (setSlice s.entryhi_output 13 (wb.data.extractLsb' 13 19))
        0 (wb.data.extractLsb' 0 8) }
  else if wb.write_addr = CP0_TLBR then
    if tlb.switch then
      { s with
        entryhi_output := setSlice s.entryhi_output 13 (tlb.entry.extractLsb' 44 19)
        entrylo1_output := setSlice (setSlice s.entrylo1_output 6 (tlb.entry.extractLsb' 24 20))
          1 (tlb.entry.extractLsb' 22 2)
        entrylo0_output := setSlice (setSlice s.entrylo0_output 6 (tlb.entry.extractLsb' 2 20))
          1 (tlb.entry.extractLsb' 0 2) }
    else s
  else if wb.write_addr = CP0_TLBP then
    if tlb.switch = false then
      { s with
        index_output :=
          if tlb.entry.getLsbD 0 = false then tlb.index.setWidth 32 else BitVec.allOnes 32 }
    else s
  else s

/-- The exception code written to `Cause[6:2]`. -/
def exc_code : ExceptType → BitVec 5
  | .interrupt | .none | .eret => 0b00000#5
  | .syscall => 0b01000#5
  | .inst_invalid => 0b01010#5
  | .ADEL => 0b00100#5
  | .ADES => 0b00101#5
  | .tlbl_inst | .tlbl_data => 0b00010#5
  | .tlb_modify => 0b00001#5
  | .tlbs => 0b00011#5

/-- The registers every exception entry writes: EPC with the branch-delay
correction, `Cause.BD`, the exception code and `Status.EXL`. -/
def State.enter (exc : ExceptType) (current_inst_addr : Word) (is_in_delayslot : Bool)
    (s : State) : State :=
  { s with
    epc_output := if is_in_delayslot then current_inst_addr - 4#32 else current_inst_addr
    cause_output :=
      setSlice (setSlice s.cause_output 31 (BitVec.ofBool is_in_delayslot)) 2 (exc_code exc)
    status_output := setSlice s.status_output 1 1#1 }

/-- The case statement over `excepttype_input`. -/
def State.except (exc : ExceptType) (current_inst_addr : Word) (is_in_delayslot : Bool)
    (unaligned_addr badvaddr : Word) (s : State) : State :=
  let e := s.enter exc current_inst_addr is_in_delayslot
  match exc with
  | .none => s
  | .interrupt | .syscall | .inst_invalid => e
  | .ADEL | .ADES => { e with badvaddr_output := unaligned_addr }
  | .eret => { s with status_output := setSlice s.status_output 1 0#1 }
  | .tlbl_inst | .tlb_modify | .tlbl_data | .tlbs =>
    { e with
      badvaddr_output := badvaddr
      entryhi_output := setSlice s.entryhi_output 13 (badvaddr.extractLsb' 13 19) }

/-- The combinational read port; unknown register numbers leave it unchanged. -/
def data_output (rst : Bool) (raddr : BitVec 5) (int_input : BitVec 8) (s : State) : Word :=
  if rst then ZeroWord
  else if raddr = CP0_REG_COUNT then s.count_output
  else if raddr = CP0_REG_COMPARE then s.compare_output
  else if raddr = CP0_REG_STATUS then s.status_output
  else if raddr = CP0_REG_EPC then s.epc_output
  else if raddr = CP0_REG_CAUSE then
    s.cause_output.extractLsb' 31 1 ++ 0#7 ++ s.cause_output.extractLsb' 23 1 ++ 0#7 ++ int_input ++
      0#1 ++ s.cause_output.extractLsb' 2 5 ++ 0#2
  else if raddr = CP0_REG_EBASE then 0b10#2 ++ s.ebase_output.extractLsb' 12 18 ++ 0#12
  else if raddr = CP0_REG_INDEX then
    s.index_output.extractLsb' 31 1 ++ 0#27 ++ s.index_output.extractLsb' 0 4
  else if raddr = CP0_REG_ENTRYLO0 then
    0#2 ++ s.entrylo0_output.extractLsb' 6 24 ++ 0#3 ++ s.entrylo0_output.extractLsb' 0 3
  else if raddr = CP0_REG_ENTRYLO1 then
    0#2 ++ s.entrylo1_output.extractLsb' 6 24 ++ 0#3 ++ s.entrylo1_output.extractLsb' 0 3
  else if raddr = CP0_REG_BADVADDR then s.badvaddr_output
  else if raddr = CP0_REG_ENTRYHI then
    s.entryhi_output.extractLsb' 13 19 ++ 0#5 ++ s.entryhi_output.extractLsb' 0 8
  else s.data_output

def exc_vec_addr_output (s : State) : Word := 0b10#2 ++ s.ebase_output.extractLsb' 12 18 ++ 0#12

def next (rst : Bool) (wb : EX.Cp0Write) (tlb : TlbStruct) (raddr : BitVec 5) (int_input : BitVec 8)
    (exc : ExceptType) (current_inst_addr : Word) (is_in_delayslot : Bool)
    (unaligned_addr badvaddr : Word) (s : State) : State :=
  { (if rst then s.reset
      else (((s.tick int_input).write wb tlb).except exc current_inst_addr is_in_delayslot
        unaligned_addr badvaddr)) with
    data_output := data_output rst raddr int_input s }

end mips32s.cp0_reg
