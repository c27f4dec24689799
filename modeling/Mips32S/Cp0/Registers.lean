import Mips32S.Cpu.Cp0

open BitVec

namespace mips32s

open bits

namespace Isa

/-- The CP0 registers that instructions can write and read. -/
inductive Cp0Reg where
  | Index | EntryLo0 | EntryLo1 | BadVAddr | Count | EntryHi | Compare | Status | Cause | EPC | EBase
  deriving DecidableEq, Repr

namespace Cp0Reg

/-- The number by which instructions name the register. -/
def num : Cp0Reg → BitVec 5
  | Index => CP0_REG_INDEX
  | EntryLo0 => CP0_REG_ENTRYLO0
  | EntryLo1 => CP0_REG_ENTRYLO1
  | BadVAddr => CP0_REG_BADVADDR
  | Count => CP0_REG_COUNT
  | EntryHi => CP0_REG_ENTRYHI
  | Compare => CP0_REG_COMPARE
  | Status => CP0_REG_STATUS
  | Cause => CP0_REG_CAUSE
  | EPC => CP0_REG_EPC
  | EBase => CP0_REG_EBASE

/-- The bits that a write changes. -/
def writable : Cp0Reg → Word
  | Index => 0x0000000F#32
  | EntryLo0 | EntryLo1 => 0x03FFFFC7#32
  | EntryHi => 0xFFFFE0FF#32
  | Status => 0x1000FF13#32
  | Cause => 0x00800300#32
  | EBase => 0x3FFFF000#32
  | BadVAddr | Count | Compare | EPC => 0xFFFFFFFF#32

/-- The content of the register after a write. -/
def written (r : Cp0Reg) (old data : Word) : Word := merge r.writable old data

/-- The register in the state of the processor. -/
def content (r : Cp0Reg) (s : cp0_reg.State) : Word :=
  match r with
  | Index => s.index_output
  | EntryLo0 => s.entrylo0_output
  | EntryLo1 => s.entrylo1_output
  | BadVAddr => s.badvaddr_output
  | Count => s.count_output
  | EntryHi => s.entryhi_output
  | Compare => s.compare_output
  | Status => s.status_output
  | Cause => s.cause_output
  | EPC => s.epc_output
  | EBase => s.ebase_output

/-- The state with another content of the register. -/
def set (r : Cp0Reg) (x : Word) (s : cp0_reg.State) : cp0_reg.State :=
  match r with
  | Index => { s with index_output := x }
  | EntryLo0 => { s with entrylo0_output := x }
  | EntryLo1 => { s with entrylo1_output := x }
  | BadVAddr => { s with badvaddr_output := x }
  | Count => { s with count_output := x }
  | EntryHi => { s with entryhi_output := x }
  | Compare => { s with compare_output := x }
  | Status => { s with status_output := x }
  | Cause => { s with cause_output := x }
  | EPC => { s with epc_output := x }
  | EBase => { s with ebase_output := x }

theorem content_set (r r' : Cp0Reg) (x : Word) (s : cp0_reg.State) :
    r.content (r'.set x s) = if r = r' then x else r.content s := by
  cases r <;> cases r' <;> rfl

theorem content_timer (r : Cp0Reg) (b : Bool) (s : cp0_reg.State) :
    r.content { s with timer_int_output := b } = r.content s := by
  cases r <;> rfl

end Cp0Reg

end Isa

namespace cp0_reg

open Isa

section
variable (x d : Word)

theorem write_index : setSlice x 0 (d.extractLsb' 0 4) = Cp0Reg.Index.written x d := by
  rw [setSlice_extractLsb']
  rfl

theorem write_entrylo (r : Cp0Reg) (hr : r = .EntryLo0 ∨ r = .EntryLo1) :
    set_entrylo x d = r.written x d := by
  rw [set_entrylo, setSlice_extractLsb', setSlice_extractLsb', merge_merge]
  obtain rfl | rfl := hr <;> rfl

theorem write_entryhi :
    setSlice (setSlice x 13 (d.extractLsb' 13 19)) 0 (d.extractLsb' 0 8) =
      Cp0Reg.EntryHi.written x d := by
  rw [setSlice_extractLsb', setSlice_extractLsb', merge_merge]
  rfl

theorem write_status :
    setSlice (setSlice (setSlice (setSlice x 28 (d.extractLsb' 28 1)) 8 (d.extractLsb' 8 8))
      4 (d.extractLsb' 4 1)) 0 (d.extractLsb' 0 2) = Cp0Reg.Status.written x d := by
  simp only [setSlice_extractLsb', merge_merge]
  rfl

theorem write_cause :
    setSlice (setSlice x 8 (d.extractLsb' 8 2)) 23 (d.extractLsb' 23 1) =
      Cp0Reg.Cause.written x d := by
  simp only [setSlice_extractLsb', merge_merge]
  rfl

theorem write_ebase : setSlice x 12 (d.extractLsb' 12 18) = Cp0Reg.EBase.written x d := by
  rw [setSlice_extractLsb']
  rfl

theorem write_all (r : Cp0Reg) (hr : r.writable = 0xFFFFFFFF#32) : r.written x d = d := by
  have hmask : (0xFFFFFFFF#32 : Word) = allOnes 32 := rfl
  rw [Cp0Reg.written, hr, merge, hmask, not_allOnes, and_zero, zero_or, and_allOnes]

end

variable {wb : EX.Cp0Write} {tlb : TlbStruct} {s : State}

theorem write_eq_set {r : Cp0Reg} (hwe : wb.we = true) (hr : wb.write_addr = r.num) :
    s.write wb tlb = { r.set (r.written (r.content s) wb.data) s with
      timer_int_output := r != .Compare && s.timer_int_output } := by
  obtain ⟨we, addr, d⟩ := wb
  subst hwe hr
  cases r with
  | Index => rw [← write_index]; rfl
  | EntryLo0 => rw [← write_entrylo _ _ _ (.inl rfl)]; rfl
  | EntryLo1 => rw [← write_entrylo _ _ _ (.inr rfl)]; rfl
  | EntryHi => rw [← write_entryhi]; rfl
  | Status => rw [← write_status]; rfl
  | Cause => rw [← write_cause]; rfl
  | EBase => rw [← write_ebase]; rfl
  | BadVAddr | Count | Compare | EPC => rw [write_all _ _ _ rfl]; rfl

theorem write_eq_self (hr : ∀ r : Cp0Reg, wb.write_addr ≠ r.num) (htlbr : wb.write_addr ≠ CP0_TLBR)
    (hswitch : tlb.switch = true) : s.write wb tlb = s := by
  let P (s' : State) : Prop := s' = s
  have hnum (r : Cp0Reg) {s1 s2 : State} (h : P s2) : P (if wb.write_addr = r.num then s1 else s2) :=
    iteInduction (fun haddr => absurd haddr (hr r)) fun _ => h
  change P (s.write wb tlb)
  unfold State.write
  refine iteInduction (fun _ => rfl) fun _ => ?_
  refine hnum .Count (hnum .Compare (hnum .Status (hnum .EPC (hnum .Cause (hnum .EBase
    (hnum .Index (hnum .EntryLo0 (hnum .EntryLo1 (hnum .BadVAddr (hnum .EntryHi ?_))))))))))
  refine iteInduction (fun haddr => absurd haddr htlbr) fun _ => ?_
  refine iteInduction (fun _ => ?_) fun _ => rfl
  exact iteInduction (fun hprobe => absurd (hswitch.symm.trans hprobe) (by decide)) fun _ => rfl

end cp0_reg

end mips32s
