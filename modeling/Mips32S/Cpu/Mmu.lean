import Mips32S.Cpu.StageRegs

namespace mips32s

/-- The sixteen TLB entries, in the packed form
`{VPN2, PFN1, D1, V1, PFN0, D0, V0}`. -/
abbrev Tlb := Fin 16 → BitVec 63

namespace vir2phy

/-- The statically mapped segments kseg0 and kseg1. -/
def is_kseg0_kseg1 (virtual_addr : Word) : Bool :=
  virtual_addr.extractLsb' 29 3 == 0b100#3 || virtual_addr.extractLsb' 29 3 == 0b101#3

def physical_addr_sm (virtual_addr : Word) : Word :=
  if is_kseg0_kseg1 virtual_addr then 0b000#3 ++ virtual_addr.extractLsb' 0 29 else 0#32

/-- Entry `i` matches the virtual page pair of the address. -/
def hit (tlb : Tlb) (virtual_addr : Word) (i : Fin 16) : Bool :=
  (tlb i).extractLsb' 44 19 == virtual_addr.extractLsb' 13 19

/-- The priority encoder: the lowest matching entry, or the previous value `held`
when none matches. -/
def hit_index (tlb : Tlb) (virtual_addr : Word) (held : Fin 16) : Fin 16 :=
  ((List.finRange 16).find? (hit tlb virtual_addr)).getD held

def tlb_miss (tlb : Tlb) (virtual_addr : Word) : Bool :=
  !(List.finRange 16).any (hit tlb virtual_addr)

def PFN (entry : BitVec 63) (virtual_addr : Word) : BitVec 20 :=
  if virtual_addr.getLsbD 12 then entry.extractLsb' 24 20 else entry.extractLsb' 2 20

def D (entry : BitVec 63) (virtual_addr : Word) : Bool :=
  if virtual_addr.getLsbD 12 then entry.getLsbD 23 else entry.getLsbD 1

def V (entry : BitVec 63) (virtual_addr : Word) : Bool :=
  if virtual_addr.getLsbD 12 then entry.getLsbD 22 else entry.getLsbD 0

def physical_addr_tlb (entry : BitVec 63) (virtual_addr : Word) : Word :=
  PFN entry virtual_addr ++ virtual_addr.extractLsb' 0 12

/-- The translated address; on a TLB miss it is formed from the entry the encoder
last pointed to. -/
def physical_addr (tlb : Tlb) (virtual_addr : Word) (held : Fin 16) : Word :=
  if is_kseg0_kseg1 virtual_addr then physical_addr_sm virtual_addr
  else physical_addr_tlb (tlb (hit_index tlb virtual_addr held)) virtual_addr

end vir2phy

namespace mmu

open vir2phy

/-- The TLB and the held outputs of the three priority encoders. -/
structure State where
  tlb_entry : Tlb
  inst_hit : Fin 16
  data_hit : Fin 16
  read_hit : Fin 16

/-- The common part of the four miss signals: a mapped, non-zero address. -/
def checked (addr : Word) : Bool := !is_kseg0_kseg1 addr && addr != ZeroWord

@[simp] theorem checked_zero : checked ZeroWord = false := by decide

/-- No entry matches, or the half the address selects is not valid. -/
def missing (tlb : Tlb) (addr : Word) (held : Fin 16) : Bool :=
  tlb_miss tlb addr || !V (tlb (hit_index tlb addr held)) addr

def is_tlb_modify (s : State) (data_addr : Word) (is_write_mem : Bool) : Bool :=
  checked data_addr && is_write_mem &&
    !D (s.tlb_entry (hit_index s.tlb_entry data_addr s.data_hit)) data_addr

def is_tlbs (s : State) (data_addr : Word) (is_write_mem : Bool) : Bool :=
  checked data_addr && is_write_mem && missing s.tlb_entry data_addr s.data_hit

/-- The fetch miss; it is masked while a store occupies MEM. -/
def is_tlbl_inst (s : State) (inst_addr : Word) (is_write_mem : Bool) : Bool :=
  checked inst_addr && !is_write_mem && missing s.tlb_entry inst_addr s.inst_hit

def is_tlbl_data (s : State) (data_addr : Word) (is_write_mem : Bool) : Bool :=
  checked data_addr && !is_write_mem && missing s.tlb_entry data_addr s.data_hit

def badvaddr (s : State) (inst_addr data_addr : Word) (is_write_mem : Bool) : Word :=
  if is_tlbl_inst s inst_addr is_write_mem then inst_addr else data_addr

/-- The TLB read for `TLBR` (`switch` set) or the probe for `TLBP`. -/
def tlb_read_struct (s : State) (tlb_read_switch : Bool) (tlb_read_index : BitVec 4)
    (tlb_read_addr : Word) : TlbStruct :=
  if tlb_read_switch then ⟨true, tlb_read_index, s.tlb_entry tlb_read_index.toFin⟩
  else if tlb_miss s.tlb_entry tlb_read_addr then ⟨false, 0b1111#4, BitVec.allOnes 63⟩
  else ⟨false, BitVec.ofFin (hit_index s.tlb_entry tlb_read_addr s.read_hit), 0#63⟩

/-- One clock edge: the TLB write, and the encoders' outputs become the held ones. -/
def next (rst : Bool) (tlb_write_enable : Bool) (tlb_write_index : BitVec 4)
    (tlb_write_entry : BitVec 63) (inst_addr data_addr tlb_read_addr : Word) (s : State) :
    State where
  tlb_entry :=
    if rst then fun _ => 0#63
    else if tlb_write_enable then
      fun i => if i = tlb_write_index.toFin then tlb_write_entry else s.tlb_entry i
    else s.tlb_entry
  inst_hit := hit_index s.tlb_entry inst_addr s.inst_hit
  data_hit := hit_index s.tlb_entry data_addr s.data_hit
  read_hit := hit_index s.tlb_entry tlb_read_addr s.read_hit

end mmu

end mips32s
