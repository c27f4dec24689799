import Mips32S.Cpu.Const

namespace mips32s.wishbone_bus

/-- The states of the bus interface. -/
inductive Fsm where
  | WB_IDLE | WB_BUSY | WB_WAIT_FOR_STALL
  deriving DecidableEq, Repr

/-- The registers of a bus interface. `cpu_data_output` is the value the read-data
output last had: the source does not assign it in an idle cycle without request. -/
structure State where
  wishbone_state : Fsm
  wishbone_addr_output : Word
  wishbone_data_output : Word
  wishbone_we_output : Bool
  wishbone_sel_output : BitVec 4
  wishbone_stb_output : Bool
  wishbone_cyc_output : Bool
  rd_buf : Word
  cpu_data_output : Word

/-- The request the processor side presents. -/
structure Request where
  cpu_ce : Bool
  cpu_data : Word
  cpu_addr : Word
  cpu_we : Bool
  cpu_sel : BitVec 4

/-- The platform's address map: base RAM, extension RAM, flash, boot ROM, and
everything else to the serial port region. -/
def phy_wb_addr (addr : Word) : Word :=
  if addr.extractLsb' 22 10 = 0b0000000001#10 then 0b1001000000#10 ++ addr.extractLsb' 0 22
  else if addr.extractLsb' 22 10 = 0b0000000000#10 then 0b1000000000#10 ++ addr.extractLsb' 0 22
  else if addr.extractLsb' 24 8 = 0x1e#8 then 0x1e#8 ++ addr.extractLsb' 0 24
  else if addr.extractLsb' 12 20 = 0x1fc00#20 then 0x2fc00#20 ++ addr.extractLsb' 0 12
  else 0b101#3 ++ addr.extractLsb' 0 29

/-- The bus lines released after an acknowledge or an abort. -/
def State.release (s : State) : State :=
  { s with
    wishbone_stb_output := false, wishbone_cyc_output := false, wishbone_addr_output := ZeroWord,
    wishbone_data_output := ZeroWord, wishbone_we_output := false, wishbone_sel_output := 0#4,
    wishbone_state := .WB_IDLE }

def State.reset (s : State) : State := { s.release with rd_buf := ZeroWord }

def stallreq (rst flush_input : Bool) (req : Request) (wishbone_ack_input : Bool) (s : State) :
    Bool :=
  if rst then false
  else match s.wishbone_state with
    | .WB_IDLE => req.cpu_ce && !flush_input
    | .WB_BUSY => !wishbone_ack_input
    | .WB_WAIT_FOR_STALL => false

def cpu_data_output (rst flush_input : Bool) (req : Request) (wishbone_ack_input : Bool)
    (wishbone_data_input : Word) (s : State) : Word :=
  if rst then ZeroWord
  else match s.wishbone_state with
    | .WB_IDLE => if req.cpu_ce && !flush_input then ZeroWord else s.cpu_data_output
    | .WB_BUSY =>
      if wishbone_ack_input && !s.wishbone_we_output then wishbone_data_input else ZeroWord
    | .WB_WAIT_FOR_STALL => s.rd_buf

def State.advance (stall_input : BitVec 6) (flush_input : Bool) (req : Request)
    (wishbone_ack_input : Bool) (wishbone_data_input : Word) (s : State) : State :=
  match s.wishbone_state with
  | .WB_IDLE =>
    if req.cpu_ce && !flush_input then
      { s with
        wishbone_stb_output := true, wishbone_cyc_output := true,
        wishbone_addr_output := phy_wb_addr req.cpu_addr, wishbone_data_output := req.cpu_data,
        wishbone_we_output := req.cpu_we, wishbone_sel_output := req.cpu_sel,
        wishbone_state := .WB_BUSY, rd_buf := ZeroWord }
    else s
  | .WB_BUSY =>
    if wishbone_ack_input then
      { s.release with
        rd_buf := if req.cpu_we then s.rd_buf else wishbone_data_input
        wishbone_state := if stall_input = 0#6 then .WB_IDLE else .WB_WAIT_FOR_STALL }
    else if flush_input then s.reset
    else s
  | .WB_WAIT_FOR_STALL => if stall_input = 0#6 then { s with wishbone_state := .WB_IDLE } else s

def next (rst : Bool) (stall_input : BitVec 6) (flush_input : Bool) (req : Request)
    (wishbone_ack_input : Bool) (wishbone_data_input : Word) (s : State) : State :=
  { (if rst then s.reset
      else s.advance stall_input flush_input req wishbone_ack_input wishbone_data_input) with
    cpu_data_output := cpu_data_output rst flush_input req wishbone_ack_input wishbone_data_input s }

end mips32s.wishbone_bus
