import Mips32S.Cpu.Decode
import Mips32S.Isa.Tlb

namespace mips32s.Isa

def Page.ofEntryLo (w : Word) : Page := ⟨w.extractLsb' 6 20, w.getLsbD 2, w.getLsbD 1⟩

/-- The registers of the TLB instructions: Index with its probe-failure bit, the page
pair number of EntryHi, and the pages of EntryLo0 and EntryLo1. -/
structure TlbRegs where
  index : BitVec 4
  p : Bool
  vpn2 : BitVec 19
  lo0 : Page
  lo1 : Page
  deriving DecidableEq

/-- The TLB with its registers. -/
structure TlbUnit extends TlbRegs where
  tlb : Fin 16 → TlbEntry

/-- What the instruction stream does to the TLB and its registers: the moves to the
four registers, the four TLB instructions, with the value of Random for the second,
and the update of EntryHi by an exception for an address. -/
inductive TlbOp where
  | index (w : Word)
  | entryHi (w : Word)
  | entryLo0 (w : Word)
  | entryLo1 (w : Word)
  | tlbwi
  | tlbwr (random : BitVec 4)
  | tlbr
  | tlbp
  | fault (vaddr : Word)

/-- The operation of an instruction, given the value it moves and the value of Random.
A move to the register number under which the result of `TLBR` travels acts as one. -/
def TlbOp.ofInst (inst reg1 : Word) (random : BitVec 4) : Option TlbOp :=
  match (ID.decode inst).aluop with
  | .EXE_MTC0_OP =>
    if inst.extractLsb' 11 5 = CP0_REG_INDEX then some (.index reg1)
    else if inst.extractLsb' 11 5 = CP0_REG_ENTRYLO0 then some (.entryLo0 reg1)
    else if inst.extractLsb' 11 5 = CP0_REG_ENTRYLO1 then some (.entryLo1 reg1)
    else if inst.extractLsb' 11 5 = CP0_REG_ENTRYHI then some (.entryHi reg1)
    else if inst.extractLsb' 11 5 = CP0_TLBR then some .tlbr
    else none
  | .EXE_TLBWI_OP => some .tlbwi
  | .EXE_TLBWR_OP => some (.tlbwr random)
  | .EXE_TLBR_OP => some .tlbr
  | .EXE_TLBP_OP => some .tlbp
  | _ => none

/-- The TLB instructions, which work on the registers. -/
def TlbOp.usesRegs : TlbOp → Bool
  | .tlbwi | .tlbwr _ | .tlbr | .tlbp => true
  | _ => false

namespace TlbRegs

def entry (r : TlbRegs) : TlbEntry := ⟨r.vpn2, r.lo1, r.lo0⟩

def load (r : TlbRegs) (x : TlbEntry) : TlbRegs :=
  { r with vpn2 := x.vpn2, lo0 := x.even, lo1 := x.odd }

/-- The result of a probe; a failed one leaves all bits of Index set. -/
def probed (r : TlbRegs) : Option (Fin 16) → TlbRegs
  | some j => { r with index := BitVec.ofFin j, p := false }
  | none => { r with index := 0b1111#4, p := true }

/-- The effect of an operation on the registers, given the TLB. -/
def exec (tlb : Fin 16 → TlbEntry) (r : TlbRegs) : TlbOp → TlbRegs
  | .index w => { r with index := w.extractLsb' 0 4 }
  | .entryHi w => { r with vpn2 := w.extractLsb' 13 19 }
  | .entryLo0 w => { r with lo0 := .ofEntryLo w }
  | .entryLo1 w => { r with lo1 := .ofEntryLo w }
  | .tlbwi | .tlbwr _ => r
  | .tlbr => r.load (tlb r.index.toFin)
  | .tlbp => r.probed (probe tlb (r.vpn2 ++ 0#13))
  | .fault vaddr => { r with vpn2 := vaddr.extractLsb' 13 19 }

def write (tlb : Fin 16 → TlbEntry) (r : TlbRegs) : TlbOp → Fin 16 → TlbEntry
  | .tlbwi => Function.update tlb r.index.toFin r.entry
  | .tlbwr random => Function.update tlb random.toFin r.entry
  | _ => tlb

end TlbRegs

namespace TlbUnit

def reset : TlbUnit where
  index := 0#4
  p := false
  vpn2 := 0#19
  lo0 := ⟨0#20, false, false⟩
  lo1 := ⟨0#20, false, false⟩
  tlb := fun _ => ⟨0#19, ⟨0#20, false, false⟩, ⟨0#20, false, false⟩⟩

def exec (u : TlbUnit) (op : TlbOp) : TlbUnit :=
  ⟨u.toTlbRegs.exec u.tlb op, u.toTlbRegs.write u.tlb op⟩

end TlbUnit

end mips32s.Isa
