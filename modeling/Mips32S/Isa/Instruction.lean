import Mips32S.Isa.Access
import Mips32S.Isa.Encoding

namespace mips32s.Isa

/-- What an instruction puts into its destination register. -/
inductive Result where
  | word (v : Word)
  | loaded (access : Access) (addr : Word)

inductive Trap where
  | syscall | eret
  deriving DecidableEq

/-- Everything an instruction does, given the values of the registers. -/
structure Action where
  gpr : Option (RegAddr × Result)
  store : Option (Access × Word × Word)
  hilo : Option (Word × Word)
  cp0 : Option (BitVec 5 × BitVec 3 × Word)
  tlb : Option TlbInstr
  jump : Option Word
  trap : Option Trap

def Action.nothing : Action := ⟨none, none, none, none, none, none, none⟩

def Shift.result (op : Shift) (x : Word) (amount : ℕ) : Word :=
  match op with
  | SLL => x <<< amount
  | SRL => x >>> amount
  | SRA => x.sshiftRight amount

def RegOp.result (op : RegOp) (x y : Word) : Word :=
  match op with
  | ADDU => x + y
  | SUBU => x - y
  | AND => x &&& y
  | OR => x ||| y
  | XOR => x ^^^ y
  | NOR => ~~~(x ||| y)
  | SLT => if x.toInt < y.toInt then 1#32 else 0#32
  | SLTU => if x.toNat < y.toNat then 1#32 else 0#32

/-- The immediates of the arithmetic operations are sign-extended, those of the logic operations
zero-extended. -/
def ImmOp.result (op : ImmOp) (x : Word) (i : BitVec 16) : Word :=
  match op with
  | ADDIU => x + i.signExtend 32
  | SLTI => if x.toInt < (i.signExtend 32).toInt then 1#32 else 0#32
  | SLTIU => if x.toNat < (i.signExtend 32).toNat then 1#32 else 0#32
  | ANDI => x &&& i.setWidth 32
  | ORI => x ||| i.setWidth 32
  | XORI => x ^^^ i.setWidth 32

def MemOp.access : MemOp → Access
  | LB => ⟨false, 1, true⟩
  | LBU => ⟨false, 1, false⟩
  | LHU => ⟨false, 2, false⟩
  | LW => ⟨false, 4, false⟩
  | SB => ⟨true, 1, false⟩
  | SW => ⟨true, 4, false⟩

def halves (p : BitVec 64) : Word × Word := (p.extractLsb' 32 32, p.extractLsb' 0 32)

def branchTo (taken : Bool) (pc : Word) (offset : BitVec 16) : Option Word :=
  if taken then some (pc + 4#32 + (offset.signExtend 32 <<< 2)) else none

/-- The target of a jump within the region of its delay slot. -/
def jumpTo (pc : Word) (index : BitVec 26) : Word := (pc + 4#32).extractLsb' 28 4 ++ index ++ 0#2

variable (r : RegAddr → Word) (pc : Word) (hl : Word × Word) (c : BitVec 5 → BitVec 3 → Word)

/-- The meaning of the moves from and to HI and LO. -/
def HiloOp.action (op : HiloOp) (a : BitVec 5) : Action :=
  match op with
  | MFHI => { Action.nothing with gpr := some (a, .word hl.1) }
  | MFLO => { Action.nothing with gpr := some (a, .word hl.2) }
  | MTHI => { Action.nothing with hilo := some (r a, hl.2) }
  | MTLO => { Action.nothing with hilo := some (hl.1, r a) }

/-- The meaning of an instruction at address `pc`, from the general registers `r`, the pair HI/LO
and the CP0 registers `c` by number and select. -/
def Instr.action : Instr → Action
  | shift op rt rd sa => { Action.nothing with gpr := some (rd, .word (op.result (r rt) sa.toNat)) }
  | shiftVar op rs rt rd =>
    { Action.nothing with gpr := some (rd, .word (op.result (r rt) ((r rs).toNat % 32))) }
  | reg op rs rt rd => { Action.nothing with gpr := some (rd, .word (op.result (r rs) (r rt))) }
  | imm op rs rt i => { Action.nothing with gpr := some (rt, .word (op.result (r rs) i)) }
  | LUI rt i => { Action.nothing with gpr := some (rt, .word (i ++ 0#16)) }
  | mult signed rs rt =>
    { Action.nothing with
      hilo := some (halves (if signed then BitVec.ofInt 64 ((r rs).toInt * (r rt).toInt)
        else BitVec.ofNat 64 ((r rs).toNat * (r rt).toNat))) }
  | hilo op a => op.action r hl a
  | mem op base rt offset =>
    let addr := r base + offset.signExtend 32
    if op.access.store then { Action.nothing with store := some (op.access, addr, r rt) }
    else { Action.nothing with gpr := some (rt, .loaded op.access addr) }
  | BEQ rs rt offset => { Action.nothing with jump := branchTo (r rs = r rt) pc offset }
  | BNE rs rt offset => { Action.nothing with jump := branchTo (r rs ≠ r rt) pc offset }
  | BLEZ rs offset => { Action.nothing with jump := branchTo ((r rs).toInt ≤ 0) pc offset }
  | BGTZ rs offset => { Action.nothing with jump := branchTo (0 < (r rs).toInt) pc offset }
  | BLTZ rs offset => { Action.nothing with jump := branchTo ((r rs).toInt < 0) pc offset }
  | BGEZ rs offset => { Action.nothing with jump := branchTo (0 ≤ (r rs).toInt) pc offset }
  | J index => { Action.nothing with jump := some (jumpTo pc index) }
  | JAL index =>
    { Action.nothing with gpr := some (31#5, .word (pc + 8#32)), jump := some (jumpTo pc index) }
  | JR rs => { Action.nothing with jump := some (r rs) }
  | JALR rs rd =>
    { Action.nothing with gpr := some (rd, .word (pc + 8#32)), jump := some (r rs) }
  | SYSCALL _ => { Action.nothing with trap := some .syscall }
  | MFC0 rt rd sel => { Action.nothing with gpr := some (rt, .word (c rd sel)) }
  | MTC0 rt rd sel => { Action.nothing with cp0 := some (rd, sel, r rt) }
  | ERET => { Action.nothing with trap := some .eret }
  | tlb op => { Action.nothing with tlb := some op }
  | CACHE _ _ _ => Action.nothing

end mips32s.Isa
