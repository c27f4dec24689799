import Mathlib.Data.BitVec

open Function

namespace mips32s.vga

def H_CHAR_NUM : ℕ := 100
def V_CHAR_NUM : BitVec 6 := 0b100000#6
def FLUSH_STEP : ℕ := 5

/-! The parameters of the instance in `thinpad_top`, as far as the counters use them. -/

def WIDTH : ℕ := 12
def HSIZE : BitVec WIDTH := 800
def HMAX : BitVec WIDTH := 1040
def VSIZE : BitVec WIDTH := 592
def VMAX : BitVec WIDTH := 666

structure Input where
  rst : Bool
  data_from_serial : BitVec 8
  serial_data_enable : Bool
  deriving DecidableEq

structure State where
  startline : BitVec 6
  char_pos_line : BitVec 6
  char_pos_column : BitVec 7
  endline : BitVec 6 → BitVec 7
  video_char_mem : BitVec 13 → BitVec 9
  hdata : BitVec WIDTH
  vdata : BitVec WIDTH

/-- The cursor goes to the next line; from the last line of the window the window moves down. -/
def State.newLine (s : State) : State :=
  { s with
    endline := update s.endline s.char_pos_line s.char_pos_column
    char_pos_column := 0#7
    char_pos_line := s.char_pos_line + 1#6
    startline :=
      if s.char_pos_line = s.startline + V_CHAR_NUM - 0b000001#6 then
        s.startline + BitVec.ofNat 6 FLUSH_STEP
      else s.startline }

theorem State.newLine_endline (s : State) :
    s.newLine.endline = update s.endline s.char_pos_line s.char_pos_column := rfl

/-- The position registers on a received byte. -/
def State.receive (s : State) (data_from_serial : BitVec 8) : State :=
  if data_from_serial = 0x0A#8 then s.newLine
  else if data_from_serial = 0x08#8 ∨ data_from_serial = 0x7F#8 then
    if s.char_pos_column > 0#7 then { s with char_pos_column := s.char_pos_column - 1#7 } else s
  else if s.char_pos_column = BitVec.ofNat 7 (H_CHAR_NUM - 1) then s.newLine
  else { s with char_pos_column := s.char_pos_column + 1#7 }

def State.position (s : State) (i : Input) : State :=
  if i.rst = true then
    { s with
      startline := 0#6
      char_pos_line := 0#6
      char_pos_column := 0#7
      endline := update s.endline 0#6 0#7 }
  else if i.serial_data_enable = true then s.receive i.data_from_serial
  else s

/-- The write port of `video_char_mem`. -/
def State.char_mem_write (s : State) (i : Input) : BitVec 13 → BitVec 9 :=
  if i.serial_data_enable = true then
    update s.video_char_mem (s.char_pos_line ++ s.char_pos_column)
      (0#1 ++ i.data_from_serial)
  else s.video_char_mem

def State.hdata_next (s : State) : BitVec WIDTH :=
  if s.hdata = HMAX - 1 then 0 else s.hdata + 1

def State.vdata_next (s : State) : BitVec WIDTH :=
  if s.hdata = HMAX - 1 then
    if s.vdata = VMAX - 1 then 0 else s.vdata + 1
  else s.vdata

/-- One clock edge. -/
def step (s : State) (i : Input) : State :=
  { s.position i with
    video_char_mem := s.char_mem_write i
    hdata := s.hdata_next
    vdata := s.vdata_next }

def run (s : State) (is : List Input) : State := is.foldl step s

def out_pos_line (s : State) : BitVec 6 := s.vdata.extractLsb' 4 6
def out_pos_column (s : State) : BitVec 7 := s.hdata.extractLsb' 3 7

def data_enable (s : State) : Bool := decide (s.hdata < HSIZE) && decide (s.vdata < VSIZE)

/-- The read port of `video_char_mem`, without its cycle of latency. -/
def char_raw (s : State) : BitVec 9 :=
  s.video_char_mem ((out_pos_line s + s.startline) ++ out_pos_column s)

def char_real (s : State) : BitVec 9 :=
  if data_enable s ∧
      ((s.char_pos_line - s.startline > out_pos_line s ∧
          s.endline (out_pos_line s + s.startline) ≥ out_pos_column s) ∨
        (s.char_pos_line - s.startline = out_pos_line s ∧ s.char_pos_column > out_pos_column s))
  then char_raw s
  else 0#9

end mips32s.vga
