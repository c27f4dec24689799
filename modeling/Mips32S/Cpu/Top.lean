import Mips32S.Cpu.Fetch
import Mips32S.Cpu.Operands
import Mips32S.Cpu.Mem
import Mips32S.Cpu.Ctrl
import Mips32S.Cpu.WishboneBus
import Mips32S.Cpu.Mmu
import Mips32S.Cpu.Cp0

namespace mips32s.CPU_TOP

/-- All registers of the processor, and the held values of its incompletely
assigned combinational outputs. -/
structure State where
  if_pc_reg : IF_PC_Reg
  if2id : IF2ID
  id_ex : ID_EX
  ex2mem : EX2MEM
  mem2wb : MEM2WB
  reg_dir : RegAddr → Word
  hilo : Word × Word
  cp0 : cp0_reg.State
  mmu : mmu.State
  dwishbone : wishbone_bus.State
  iwishbone : wishbone_bus.State
  id_reg1_held : Word
  id_reg2_held : Word
  ex_held : EX.Latch
  mem_held : mem.Latch
  new_pc_held : Word

/-- The input pins sampled in one clock cycle. -/
structure Input where
  rst : Bool
  int_input : BitVec 8
  iwishbone_data_input : Word
  iwishbone_ack_input : Bool
  dwishbone_data_input : Word
  dwishbone_ack_input : Bool

variable (s : State) (i : Input)

/-! The wires of `CPU_TOP`, from the back of the pipeline to the front. -/

def wb_cp0 : EX.Cp0Write :=
  ⟨s.mem2wb.wb_cp0_reg_we, s.mem2wb.wb_cp0_reg_write_addr, s.mem2wb.wb_cp0_reg_data⟩

def wb_hilo : EX.HiLo := ⟨s.mem2wb.wb_whilo, s.mem2wb.wb_hi, s.mem2wb.wb_lo⟩

def ram_addr_output : Word := mem.mem_addr_output i.rst s.ex2mem.mem_aluop s.ex2mem.mem_mem_addr

def ram_ce_output : Bool := mem.mem_ce_output i.rst s.ex2mem.mem_aluop

def mmu_we : Bool := mem.mem_we i.rst s.ex2mem.mem_aluop

def mmu_is_tlb_modify : Bool := mmu.is_tlb_modify s.mmu (ram_addr_output s i) (mmu_we s i)

def mmu_is_tlbl_data : Bool := mmu.is_tlbl_data s.mmu (ram_addr_output s i) (mmu_we s i)

def mmu_is_tlbs : Bool := mmu.is_tlbs s.mmu (ram_addr_output s i) (mmu_we s i)

def mmu_is_tlbl_inst : Bool := mmu.is_tlbl_inst s.mmu s.if_pc_reg.PC_output (mmu_we s i)

def mmu_data_addr : Word :=
  vir2phy.physical_addr s.mmu.tlb_entry (ram_addr_output s i) s.mmu.data_hit

def mmu_inst_addr : Word :=
  vir2phy.physical_addr s.mmu.tlb_entry s.if_pc_reg.PC_output s.mmu.inst_hit

def mmu_badvaddr : Word :=
  mmu.badvaddr s.mmu s.if_pc_reg.PC_output (ram_addr_output s i) (mmu_we s i)

def mem_cp0_status : Word := mem.cp0_status i.rst (wb_cp0 s) s.cp0.status_output

def mem_cp0_cause : Word := mem.cp0_cause i.rst (wb_cp0 s) s.cp0.cause_output s.mem_held.cp0_cause

def mem_cp0_index : Word := mem.cp0_index i.rst (wb_cp0 s) s.cp0.index_output s.mem_held.cp0_index

def mem_cp0_entrylo0 : Word :=
  mem.cp0_entrylo0 i.rst (wb_cp0 s) s.cp0.entrylo0_output s.mem_held.cp0_entrylo0

def mem_cp0_entrylo1 : Word :=
  mem.cp0_entrylo1 i.rst (wb_cp0 s) s.cp0.entrylo1_output s.mem_held.cp0_entrylo1

def mem_cp0_entryhi : Word :=
  mem.cp0_entryhi i.rst (wb_cp0 s) s.cp0.entryhi_output s.mem_held.cp0_entryhi

def mem_cp0_random : Word := if i.rst then ZeroWord else s.cp0.random_output

def latest_epc : Word := mem.cp0_epc i.rst (wb_cp0 s) s.cp0.epc_output

def mem_excepttype_output : ExceptType :=
  mem.excepttype_output i.rst s.ex2mem.mem_excepttype s.ex2mem.mem_current_inst_addr
    s.ex2mem.mem_mem_addr
    (mem_cp0_cause s i) (mem_cp0_status s i) (mmu_is_tlbl_data s i) (mmu_is_tlbs s i)
    (mmu_is_tlb_modify s i)

def flush : Bool := ctrl.flush i.rst (mem_excepttype_output s i)

def ram_we_output : Bool := mmu_we s i && mem_excepttype_output s i == .none

def ram_data_output : Word :=
  mem.mem_data_output i.rst s.ex2mem.mem_aluop s.ex2mem.mem_reg2 s.mem_held.mem_data_output

def ram_sel_output : BitVec 4 := mem.mem_sel_output i.rst s.ex2mem.mem_aluop s.ex2mem.mem_mem_addr

/-- The data-side chip enable, gated by the two miss signals but not by `is_tlb_modify`. -/
def cpu_ram_ce_output : Bool := ram_ce_output s i && !mmu_is_tlbl_data s i && !mmu_is_tlbs s i

def dbus_request : wishbone_bus.Request :=
  ⟨cpu_ram_ce_output s i, ram_data_output s i, mmu_data_addr s i, ram_we_output s i,
    ram_sel_output s i⟩

def bubblereq_from_mem : Bool :=
  wishbone_bus.stallreq i.rst (flush s i) (dbus_request s i) i.dwishbone_ack_input s.dwishbone

def ram_data_input : Word :=
  wishbone_bus.cpu_data_output i.rst (flush s i) (dbus_request s i) i.dwishbone_ack_input
    i.dwishbone_data_input s.dwishbone

def tlb_read_struct : TlbStruct :=
  mmu.tlb_read_struct s.mmu (s.ex2mem.mem_aluop != .EXE_TLBP_OP)
    ((mem_cp0_index s i).extractLsb' 0 4) (mem_cp0_entryhi s i)

/-- The outputs of `mem` towards `MEM2WB`; they also feed the forwarding paths. -/
def mem_output : MEM2WB where
  wb_waddr := if i.rst then 0#5 else s.ex2mem.mem_waddr
  wb_wreg := !i.rst && s.ex2mem.mem_wreg
  wb_wdata := mem.wdata_output i.rst s.ex2mem.mem_aluop s.ex2mem.mem_mem_addr s.ex2mem.mem_wdata
    (ram_data_input s i)
  wb_whilo := !i.rst && s.ex2mem.mem_whilo
  wb_hi := if i.rst then ZeroWord else s.ex2mem.mem_hi
  wb_lo := if i.rst then ZeroWord else s.ex2mem.mem_lo
  wb_cp0_reg_we := !i.rst && s.ex2mem.mem_cp0_reg_we
  wb_cp0_reg_write_addr := if i.rst then 0#5 else s.ex2mem.mem_cp0_reg_write_addr
  wb_cp0_reg_data := if i.rst then ZeroWord else s.ex2mem.mem_cp0_reg_data
  tlb_write_struct := tlb_read_struct s i

def mem_cp0 : EX.Cp0Write :=
  ⟨(mem_output s i).wb_cp0_reg_we, (mem_output s i).wb_cp0_reg_write_addr,
    (mem_output s i).wb_cp0_reg_data⟩

def mem_hilo : EX.HiLo :=
  ⟨(mem_output s i).wb_whilo, (mem_output s i).wb_hi, (mem_output s i).wb_lo⟩

def ex_HILO : Word × Word := EX.HILO i.rst (mem_hilo s i) (wb_hilo s) s.hilo.1 s.hilo.2

def ex_mulres : BitVec 64 :=
  EX.mulres i.rst s.id_ex.ex_aluop s.id_ex.ex_reg1 s.id_ex.ex_reg2 s.ex_held.mulres

def cp0_raddr : BitVec 5 :=
  EX.cp0_reg_read_addr_output i.rst s.id_ex.ex_aluop s.id_ex.ex_inst s.ex_held.cp0_reg_read_addr_output

def cp0_data_output : Word := cp0_reg.data_output i.rst (cp0_raddr s i) i.int_input s.cp0

def ex_moveres : Word :=
  EX.moveres i.rst s.id_ex.ex_aluop s.id_ex.ex_inst (ex_HILO s i) (mem_cp0 s i) (wb_cp0 s)
    (cp0_data_output s i) s.ex_held.moveres

def ex_hilo_output : EX.HiLo :=
  EX.hilo_output i.rst s.id_ex.ex_aluop s.id_ex.ex_reg1 (ex_HILO s i) (ex_mulres s i)

def ex_cp0_output : EX.Cp0Write :=
  EX.cp0_output i.rst s.id_ex.ex_aluop s.id_ex.ex_inst s.id_ex.ex_reg1

def ex_wdata_output : Word :=
  EX.wdata_output s.id_ex.ex_alusel
    (EX.logicout i.rst s.id_ex.ex_aluop s.id_ex.ex_reg1 s.id_ex.ex_reg2)
    (EX.shiftres i.rst s.id_ex.ex_aluop s.id_ex.ex_reg1 s.id_ex.ex_reg2) (ex_moveres s i)
    (EX.arithres i.rst s.id_ex.ex_aluop s.id_ex.ex_reg1 s.id_ex.ex_reg2) s.id_ex.ex_link_addr

/-- The outputs of `EX` towards `EX2MEM`. -/
def ex_output : EX2MEM where
  mem_waddr := s.id_ex.ex_wd
  mem_wreg := s.id_ex.ex_wreg
  mem_wdata := ex_wdata_output s i
  mem_aluop := s.id_ex.ex_aluop
  mem_mem_addr := EX.mem_addr_output s.id_ex.ex_reg1 s.id_ex.ex_inst
  mem_reg2 := s.id_ex.ex_reg2
  mem_excepttype := EX.excepttype_output s.id_ex.ex_excepttype s.id_ex.ex_aluop
    (EX.mem_addr_output s.id_ex.ex_reg1 s.id_ex.ex_inst)
  mem_current_inst_addr := s.id_ex.ex_current_inst_addr
  mem_is_in_delayslot := s.id_ex.ex_is_in_delayslot
  mem_cp0_reg_we := (ex_cp0_output s i).we
  mem_cp0_reg_write_addr := (ex_cp0_output s i).write_addr
  mem_cp0_reg_data := (ex_cp0_output s i).data
  mem_whilo := (ex_hilo_output s i).whilo
  mem_hi := (ex_hilo_output s i).hi
  mem_lo := (ex_hilo_output s i).lo

def id_decoded : ID.Decoded := if i.rst then .reset else ID.decode s.if2id.inst_output

def id_forward : ID.Forward where
  ex_wreg := s.id_ex.ex_wreg
  ex_waddr := s.id_ex.ex_wd
  ex_wdata := ex_wdata_output s i
  ex_aluop := s.id_ex.ex_aluop
  mem_wreg := (mem_output s i).wb_wreg
  mem_waddr := (mem_output s i).wb_waddr
  mem_wdata := (mem_output s i).wb_wdata

/-- A read port of the register file. -/
def reg_data (read : Bool) (addr : RegAddr) : Word :=
  Reg_Dir.rdata i.rst s.mem2wb.wb_wreg s.mem2wb.wb_waddr s.mem2wb.wb_wdata read addr s.reg_dir

def id_reg1_output : Word :=
  ID.reg_output i.rst (id_forward s i) (id_decoded s i).reg1_read (id_decoded s i).reg1_addr
    (id_decoded s i).imm
    (reg_data s i (id_decoded s i).reg1_read (id_decoded s i).reg1_addr) s.id_reg1_held

def id_reg2_output : Word :=
  ID.reg_output i.rst (id_forward s i) (id_decoded s i).reg2_read (id_decoded s i).reg2_addr
    (id_decoded s i).imm
    (reg_data s i (id_decoded s i).reg2_read (id_decoded s i).reg2_addr) s.id_reg2_held

def bubblereq_from_id : Bool :=
  ID.bubble_require_wait_for_load i.rst (id_forward s i) (id_decoded s i).reg1_read
      (id_decoded s i).reg1_addr ||
    ID.bubble_require_wait_for_load i.rst (id_forward s i) (id_decoded s i).reg2_read
      (id_decoded s i).reg2_addr

def id_branch_flag_output : Bool :=
  ID.branch_flag_output i.rst s.if2id.inst_output (id_reg1_output s i) (id_reg2_output s i)

def branch_target_addr : Word :=
  ID.branch_target_addr_output i.rst s.if2id.PC_output s.if2id.inst_output (id_reg1_output s i)
    (id_reg2_output s i)

/-- The outputs of `ID` towards `ID_EX`. -/
def id_output : ID_EX.Slot where
  ex_aluop := (id_decoded s i).aluop
  ex_alusel := (id_decoded s i).alusel
  ex_reg1 := id_reg1_output s i
  ex_reg2 := id_reg2_output s i
  ex_wd := (id_decoded s i).waddr
  ex_wreg := (id_decoded s i).wreg
  ex_link_addr := ID.link_addr_output i.rst s.if2id.PC_output s.if2id.inst_output
  ex_is_in_delayslot := !i.rst && s.id_ex.is_in_delayslot_output
  ex_inst := s.if2id.inst_output
  ex_excepttype := ID.excepttype_output (id_decoded s i) s.if2id.PC_output
    s.if2id.is_inst_tlbl_output
  ex_current_inst_addr := s.if2id.PC_output

def rom_ce : Bool := s.if_pc_reg.chip_enable_flag && !mmu_is_tlbl_inst s i

def ibus_request : wishbone_bus.Request := ⟨rom_ce s i, ZeroWord, mmu_inst_addr s, false, 0b1111#4⟩

def bubblereq_from_if : Bool :=
  wishbone_bus.stallreq i.rst (flush s i) (ibus_request s i) i.iwishbone_ack_input s.iwishbone

def inst_input : Word :=
  wishbone_bus.cpu_data_output i.rst (flush s i) (ibus_request s i) i.iwishbone_ack_input
    i.iwishbone_data_input s.iwishbone

def bubble : BitVec 6 :=
  ctrl.stall i.rst (mem_excepttype_output s i) (bubblereq_from_mem s i) (bubblereq_from_id s i)
    (bubblereq_from_if s i)

def new_pc : Word :=
  ctrl.new_pc i.rst (mem_excepttype_output s i) (bubble s i) (cp0_reg.exc_vec_addr_output s.cp0)
    (latest_epc s i) s.new_pc_held

def step : State where
  if_pc_reg := s.if_pc_reg.next i.rst (bubble s i) (id_branch_flag_output s i)
    (branch_target_addr s i) (flush s i) (new_pc s i)
  if2id := s.if2id.next i.rst (bubble s i) (flush s i) s.if_pc_reg.PC_output (inst_input s i)
    (mmu_is_tlbl_inst s i)
  id_ex := s.id_ex.next i.rst (bubble s i) (flush s i) (id_output s i)
    (id_decoded s i).next_inst_in_delayslot
  ex2mem := s.ex2mem.next i.rst (bubble s i) (flush s i) (ex_output s i)
  mem2wb := s.mem2wb.next i.rst (bubble s i) (flush s i) (mem_output s i)
  reg_dir := Reg_Dir.next i.rst s.mem2wb.wb_wreg s.mem2wb.wb_waddr s.mem2wb.wb_wdata s.reg_dir
  hilo := hilo_reg.next i.rst (wb_hilo s) s.hilo
  cp0 := cp0_reg.next i.rst (wb_cp0 s) s.mem2wb.tlb_write_struct (cp0_raddr s i) i.int_input
    (mem_excepttype_output s i) s.ex2mem.mem_current_inst_addr s.ex2mem.mem_is_in_delayslot
    s.ex2mem.mem_mem_addr
      (mem.badvaddr_output s.ex2mem.mem_excepttype s.ex2mem.mem_current_inst_addr
      (mmu_badvaddr s i)) s.cp0
  mmu := mmu.next i.rst s.ex2mem.mem_aluop.isTlbWrite
    (mem.tlb_write_index s.ex2mem.mem_aluop (mem_cp0_random s i) (mem_cp0_index s i))
    (mem.tlb_write_entry (mem_cp0_entryhi s i) (mem_cp0_entrylo1 s i) (mem_cp0_entrylo0 s i))
    s.if_pc_reg.PC_output (ram_addr_output s i) (mem_cp0_entryhi s i) s.mmu
  dwishbone := wishbone_bus.next i.rst (bubble s i) (flush s i) (dbus_request s i)
    i.dwishbone_ack_input i.dwishbone_data_input s.dwishbone
  iwishbone := wishbone_bus.next i.rst (bubble s i) (flush s i) (ibus_request s i)
    i.iwishbone_ack_input i.iwishbone_data_input s.iwishbone
  id_reg1_held := id_reg1_output s i
  id_reg2_held := id_reg2_output s i
  ex_held := ⟨ex_mulres s i, ex_moveres s i, cp0_raddr s i⟩
  mem_held := ⟨ram_data_output s i, mem_cp0_cause s i, mem_cp0_index s i, mem_cp0_entrylo0 s i,
    mem_cp0_entrylo1 s i, mem_cp0_entryhi s i⟩
  new_pc_held := new_pc s i

end mips32s.CPU_TOP
