import Mips32S.Bus.Interface
import Mips32S.Sram.Transaction

namespace mips32s.sram_top

open Isa

/-- The two SRAM chips, at the bottom of the physical address space. -/
inductive Bank where
  | base | extr

def Bank.number : Bank → BitVec 10
  | .base => 0#10
  | .extr => 1#10

/-- A load or store in MEM that raises no address error and whose physical address lies
in a bank. `held` is what the store data output shows for a load. -/
structure Instr (bank : Bank) where
  op : AluOp
  addr : Word
  paddr : Word
  reg2 : Word
  held : Word
  isMem : op.isMem = true
  aligned : EX.is_ADEL op addr = false ∧ EX.is_ADES op addr = false
  in_page : paddr.extractLsb' 0 12 = addr.extractLsb' 0 12
  in_bank : paddr.extractLsb' 22 10 = bank.number

namespace Instr

variable {bank : Bank} (i : Instr bank)

/-- The request MEM presents to the bus interface. -/
def request : wishbone_bus.Request where
  cpu_ce := mem.mem_ce_output false i.op
  cpu_data := mem.mem_data_output false i.op i.reg2 i.held
  cpu_addr := i.paddr
  cpu_we := mem.mem_we false i.op
  cpu_sel := mem.mem_sel_output false i.op i.addr

/-- The byte address within the bank. -/
def place : BitVec 22 := i.paddr.extractLsb' 0 22

/-- What the instruction does to the byte array, and the value a load returns. -/
def spec (m : Bytes) : Option Word × Bytes :=
  match access? i.op with
  | some a =>
    if a.store then (none, a.storeTo m i.place i.reg2) else (some (a.loadFrom m i.place), m)
  | none => (none, m)

end Instr

/-- The lines of a bus interface as the controller sees them. -/
def lines (s : wishbone_bus.State) : Bus where
  wb_stb_i := s.wishbone_stb_output
  wb_cyc_i := s.wishbone_cyc_output
  wb_addr_i := s.wishbone_addr_output
  wb_sel_i := s.wishbone_sel_output
  wb_we_i := s.wishbone_we_output
  wb_data_i := s.wishbone_data_output

/-- The strobe and cycle lines are active exactly in a busy interface. -/
structure Driven (s : wishbone_bus.State) : Prop where
  stb : s.wishbone_stb_output = decide (s.wishbone_state = .WB_BUSY)
  cyc : s.wishbone_cyc_output = decide (s.wishbone_state = .WB_BUSY)

section
variable {stall : BitVec 6} {flush ack : Bool} {req : wishbone_bus.Request} {data : Word}
  {s : wishbone_bus.State}

theorem Driven.wb_acc (h : Driven s) : wb_acc (lines s) = true ↔ s.wishbone_state = .WB_BUSY := by
  simp [sram_top.wb_acc, lines, h.stb, h.cyc]

theorem Driven.next (h : Driven s) :
    Driven (wishbone_bus.next false stall flush req ack data s) := by
  obtain ⟨hstb, hcyc⟩ := h
  cases hs : s.wishbone_state <;> rw [hs] at hstb hcyc <;>
    simp only [wishbone_bus.next, wishbone_bus.State.advance, hs, Bool.false_eq_true, if_false] <;>
    split_ifs <;> constructor <;> simp_all [wishbone_bus.State.release, wishbone_bus.State.reset]

theorem reset_driven : Driven (wishbone_bus.next true stall flush req ack data s) := by
  constructor <;> simp [wishbone_bus.next, wishbone_bus.State.reset, wishbone_bus.State.release]

theorem lines_hold (hs : s.wishbone_state = .WB_BUSY) (hack : ack = false)
    (hflush : flush = false) :
    lines (wishbone_bus.next false stall flush req ack data s) = lines s := by
  simp [wishbone_bus.next, wishbone_bus.State.advance, lines, hs, hack, hflush]

end

/-- The data side of the processor with an SRAM: the bus interface and the controller
with its chip. -/
structure Node where
  bus : wishbone_bus.State
  ram : Ram

/-- MEM without a load or store. -/
def noRequest : wishbone_bus.Request := ⟨false, ZeroWord, ZeroWord, false, 0b1111#4⟩

namespace Node

/-- One clock edge with the given request and stall vector. -/
def cycle (req : wishbone_bus.Request) (stall : BitVec 6) (n : Node) : Node :=
  ⟨wishbone_bus.next false stall false req n.ram.ctrl.wb_ack_o n.ram.ctrl.wb_data_o n.bus,
    n.ram.step (lines n.bus)⟩

def stallreq (req : wishbone_bus.Request) (n : Node) : Bool :=
  wishbone_bus.stallreq false false req n.ram.ctrl.wb_ack_o n.bus

variable {bank : Bank}

/-- MEM holds the instruction, and with it the stages in front, until the bus interface
no longer requests a stall. -/
def hold (i : Instr bank) : ℕ → Node → Option Node
  | 0, _ => none
  | k + 1, n => if n.stallreq i.request then (n.cycle i.request 0b011111#6).hold i k else some n

/-- The value for the destination register in the cycle in which the instruction leaves MEM. -/
def value (i : Instr bank) (n : Node) : Option Word :=
  if i.op.isStore then none
  else some (mem.wdata_output false i.op i.addr ZeroWord
    (wishbone_bus.cpu_data_output false false i.request n.ram.ctrl.wb_ack_o n.ram.ctrl.wb_data_o n.bus))

/-- The instruction leaves MEM. The other stages may go on stalling, with the given stall
vectors and no load or store in MEM, before the pipeline moves on. -/
def leave (i : Instr bank) : List { v : BitVec 6 // v ≠ 0#6 } → Node → Node
  | [], n => n.cycle i.request 0#6
  | v :: vs, n => (vs.foldl (fun n v => n.cycle noRequest v)
      (n.cycle i.request v)).cycle noRequest 0#6

end Node

/-- What happens in MEM: a load or store with the stalls after it, or a cycle without one. -/
inductive Item (bank : Bank) where
  | access (i : Instr bank) (stalls : List { v : BitVec 6 // v ≠ 0#6 })
  | idle (stall : BitVec 6)

namespace Item

variable {bank : Bank}

/-- The value loaded, if any, and the node afterwards. -/
def exec : Item bank → Node → Option (Option Word × Node)
  | .access i stalls, n => (n.hold i 6).map fun n' => (n'.value i, n'.leave i stalls)
  | .idle stall, n => some (none, n.cycle noRequest stall)

def execAll : List (Item bank) → Node → Option (List (Option Word) × Node)
  | [], n => some ([], n)
  | x :: xs, n => do
    let (v, n') ← x.exec n
    let (vs, n'') ← execAll xs n'
    return (v :: vs, n'')

/-- The same on the byte array. -/
def spec : Item bank → Bytes → Option Word × Bytes
  | .access i _, m => i.spec m
  | .idle _, m => (none, m)

def specAll : List (Item bank) → Bytes → List (Option Word) × Bytes
  | [], m => ([], m)
  | x :: xs, m => ((x.spec m).1 :: (specAll xs (x.spec m).2).1, (specAll xs (x.spec m).2).2)

end Item

/-- The node after a reset edge. -/
def Node.reset (n : Node) : Node where
  bus := wishbone_bus.next true 0#6 false noRequest n.ram.ctrl.wb_ack_o n.ram.ctrl.wb_data_o n.bus
  ram := ⟨n.ram.ctrl.next true (lines n.bus) (baseram_data (lines n.bus) n.ram.ctrl n.ram.chip),
    n.ram.chip⟩

end mips32s.sram_top
