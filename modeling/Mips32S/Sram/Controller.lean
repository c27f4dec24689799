import Mips32S.Cpu.Const

namespace mips32s.sram_top

/-- The states of the controller. -/
inductive Fsm where
  | IDLE | READ | WRITE0 | WRITE1 | READ_BEFORE_WRITE
  deriving DecidableEq, Repr

/-- The registers of a controller. `sram_top_base` and `sram_top_extr` differ in the
names of their pins only. The lines to the chip are active low. -/
structure State where
  state : Fsm
  wb_ack_o : Bool
  wb_data_o : Word
  ram_oe : Bool
  ram_we : Bool
  data_to_write : Word

/-- The wishbone inputs. -/
structure Bus where
  wb_stb_i : Bool
  wb_cyc_i : Bool
  wb_addr_i : Word
  wb_sel_i : BitVec 4
  wb_we_i : Bool
  wb_data_i : Word

/-- The contents of the chip. -/
abbrev Chip := BitVec 20 → Word

section
variable (b : Bus) (s : State) (chip : Chip)

def wb_acc : Bool := b.wb_cyc_i && b.wb_stb_i

def wb_wr : Bool := wb_acc b && b.wb_we_i

def wb_rd : Bool := wb_acc b && !b.wb_we_i

def baseram_ce : Bool := !wb_acc b

def baseram_we : Bool := !(wb_wr b && !s.ram_we)

def baseram_addr : BitVec 20 := b.wb_addr_i.extractLsb' 2 20

/-- The data lines: the controller drives them unless the chip's output is enabled. -/
def baseram_data : Word := if s.ram_oe then s.data_to_write else chip (baseram_addr b)

def all_select : Bool :=
  b.wb_sel_i.getLsbD 3 && b.wb_sel_i.getLsbD 2 && b.wb_sel_i.getLsbD 1 && b.wb_sel_i.getLsbD 0

end

/-- The word with the selected bytes of `x` and the others of `y`. -/
def merge (sel : BitVec 4) (x y : Word) : Word :=
  (if sel.getLsbD 3 then x.extractLsb' 24 8 else y.extractLsb' 24 8) ++
    (if sel.getLsbD 2 then x.extractLsb' 16 8 else y.extractLsb' 16 8) ++
    (if sel.getLsbD 1 then x.extractLsb' 8 8 else y.extractLsb' 8 8) ++
    (if sel.getLsbD 0 then x.extractLsb' 0 8 else y.extractLsb' 0 8)

/-- The case statement over `state`, during an access. -/
def State.access (b : Bus) (baseram_data : Word) (s : State) : State :=
  match s.state with
  | .IDLE =>
    if wb_rd b then { s with wb_ack_o := false, ram_oe := false, state := .READ }
    else if wb_wr b && all_select b then
      { s with wb_ack_o := false, data_to_write := b.wb_data_i, state := .WRITE0 }
    else if wb_wr b && !all_select b then
      { s with wb_ack_o := false, ram_oe := false, state := .READ_BEFORE_WRITE }
    else { s with wb_ack_o := false }
  | .READ =>
    { s with
      wb_data_o := merge b.wb_sel_i baseram_data ZeroWord, wb_ack_o := true, ram_oe := true
      state := .IDLE }
  | .WRITE0 => { s with ram_we := false, state := .WRITE1 }
  | .WRITE1 => { s with ram_we := true, wb_ack_o := true, state := .IDLE }
  | .READ_BEFORE_WRITE =>
    { s with
      data_to_write := merge b.wb_sel_i b.wb_data_i baseram_data, ram_oe := true, state := .WRITE0 }

/-- One clock edge of the controller. -/
def State.next (rst_i : Bool) (b : Bus) (baseram_data : Word) (s : State) : State :=
  if rst_i then { s with state := .IDLE, wb_ack_o := false, ram_oe := true, ram_we := true }
  else if !wb_acc b then
    { s with
      state := .IDLE, wb_ack_o := false, wb_data_o := 0x00000000#32, ram_oe := true, ram_we := true }
  else s.access b baseram_data

/-- The chip at a clock edge: it takes the data lines, all four bytes, when its enable
and its write line are active. -/
def Chip.next (b : Bus) (s : State) (chip : Chip) : Chip :=
  if !baseram_ce b && !baseram_we b s then
    Function.update chip (baseram_addr b) (baseram_data b s chip)
  else chip

end mips32s.sram_top
