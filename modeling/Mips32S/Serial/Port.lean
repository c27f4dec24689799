import Mips32S.Lib.Trace
import Mips32S.Sram.Node

namespace mips32s.SERIAL

open sram_top (Bus wb_acc wb_wr wb_rd lines)

/-- The registers of the port. -/
structure Port where
  wb_ack_o : Bool
  wb_data_o : Word
  ext_uart_tx : BitVec 8
  ext_uart_start : Bool
  ext_uart_clear : Bool

/-- The data register on the bus. -/
def dataAddr : Word := 0xBFD003F8#32

/-- The status register on the bus. -/
def statusAddr : Word := 0xBFD003FC#32

/-- One clock edge of the port. -/
def Port.next (rst_i : Bool) (b : Bus) (ext_uart_ready : Bool) (ext_uart_rx : BitVec 8)
    (ext_uart_busy : Bool) (p : Port) : Port :=
  let p := { p with ext_uart_clear := false, wb_ack_o := false, ext_uart_start := false }
  if rst_i then p
  else if !wb_acc b then { p with wb_data_o := 0x00000000#32 }
  else if b.wb_addr_i = dataAddr then
    if wb_rd b then
      if ext_uart_ready then
        { p with
          wb_data_o := 0x000000#24 ++ ext_uart_rx, ext_uart_clear := true, wb_ack_o := true }
      else p
    else if !ext_uart_busy then
      { p with
        ext_uart_tx := b.wb_data_i.extractLsb' 0 8, ext_uart_start := true, wb_ack_o := true }
    else p
  else if b.wb_addr_i = statusAddr then
    if wb_rd b then
      { p with
        wb_data_o := 0#30 ++ BitVec.ofBool ext_uart_ready ++ BitVec.ofBool (!ext_uart_busy)
        wb_ack_o := true }
    else { p with wb_ack_o := true }
  else { p with wb_ack_o := true }

/-- The receiver: its shift register, and whether a byte waits in it to be read. -/
structure Receiver where
  RxD_data_ready : Bool
  RxD_data : BitVec 8

/-- What the receiver samples from its line: a bit of a byte, or the stop bit that completes it. -/
inductive Sample where
  | data (RxD_bit : Bool)
  | stop
  deriving DecidableEq

/-- The bits are shifted in even while a byte waits. A clear is stronger than a byte that completes
in the same cycle. -/
def Receiver.next (RxD_clear : Bool) (sample : Option Sample) (r : Receiver) : Receiver where
  RxD_data_ready :=
    if RxD_clear then false else r.RxD_data_ready || decide (sample = some .stop)
  RxD_data := match sample with
    | some (.data RxD_bit) => BitVec.ofBool RxD_bit ++ r.RxD_data.extractLsb' 1 7
    | _ => r.RxD_data

/-- The transmitter is busy from the cycle after it takes a byte until its last bit is out. -/
def busyNext (TxD_start done TxD_busy : Bool) : Bool :=
  if TxD_busy then !done else TxD_start

/-- The processor's bus interface with the serial port. -/
structure System where
  bus : wishbone_bus.State
  port : Port
  receiver : Receiver
  TxD_busy : Bool

/-- What happens in a cycle: the processor's side of the bus interface, what the receiver samples
and the end of a transmission. -/
structure Input where
  stall : BitVec 6
  flush : Bool
  req : wishbone_bus.Request
  sample : Option Sample
  done : Bool

/-- One clock edge. -/
def System.step (s : System) (i : Input) : System where
  bus := wishbone_bus.next false i.stall i.flush i.req s.port.wb_ack_o s.port.wb_data_o s.bus
  port := s.port.next false (lines s.bus) s.receiver.RxD_data_ready s.receiver.RxD_data s.TxD_busy
  receiver := s.receiver.next s.port.ext_uart_clear i.sample
  TxD_busy := busyNext s.port.ext_uart_start i.done s.TxD_busy

/-- After a reset edge, with nothing received and nothing being transmitted. -/
def System.reset (s : System) : System where
  bus := wishbone_bus.next true 0#6 false sram_top.noRequest s.port.wb_ack_o s.port.wb_data_o s.bus
  port := s.port.next true (lines s.bus) s.receiver.RxD_data_ready s.receiver.RxD_data s.TxD_busy
  receiver := { s.receiver with RxD_data_ready := false }
  TxD_busy := false

/-- A run of the system from a reset. -/
structure Run where
  start : System
  input : ℕ → Input

namespace Run

variable (e : Run) (n : ℕ)

def state : ℕ → System
  | 0 => e.start.reset
  | n + 1 => (state n).step (e.input n)

/-- The bus lines carry an access to the data register, a write or a read. -/
def DataAccess (we : Bool) : Prop :=
  wb_acc (lines (e.state n).bus) = true ∧ (lines (e.state n).bus).wb_addr_i = dataAddr ∧
    (lines (e.state n).bus).wb_we_i = we

instance (we : Bool) : Decidable (e.DataAccess n we) := inferInstanceAs (Decidable (_ ∧ _ ∧ _))

/-- The byte of the data write that is acknowledged in cycle `n`. -/
def written : Option (BitVec 8) :=
  if e.DataAccess n true ∧ (e.state n).port.wb_ack_o = true then
    some ((lines (e.state n).bus).wb_data_i.extractLsb' 0 8)
  else none

/-- The byte the transmitter takes in cycle `n`. -/
def transmitted : Option (BitVec 8) :=
  if (e.state n).port.ext_uart_start = true ∧ (e.state n).TxD_busy = false then
    some (e.state n).port.ext_uart_tx
  else none

/-- The word of the data read that is acknowledged in cycle `n`. -/
def read : Option Word :=
  if e.DataAccess n false ∧ (e.state n).port.wb_ack_o = true then some (e.state n).port.wb_data_o
  else none

/-- The byte that completes in cycle `n`. -/
def arrived : Option Word :=
  if (e.input n).sample = some .stop then some (0#24 ++ (e.state n).receiver.RxD_data) else none

/-- The words returned and the bytes received before cycle `n`. -/
def returned : List Word := trace.log e.read n

def received : List Word := trace.log e.arrived n

/-- The byte that waits in the receiver. -/
def unread : Option Word :=
  if (e.state n).receiver.RxD_data_ready then some (0#24 ++ (e.state n).receiver.RxD_data) else none

/-- The processor takes a data access off the bus before it is acknowledged. -/
def Withdrawn (we : Bool) : Prop :=
  e.DataAccess n we ∧ (e.state n).port.wb_ack_o = false ∧ (e.input n).flush = true

instance (we : Bool) : Decidable (e.Withdrawn n we) := inferInstanceAs (Decidable (_ ∧ _ ∧ _))

end Run

end mips32s.SERIAL
