import Mips32S.Cpu.Mem

open BitVec

namespace mips32s.Isa

/-- A data access of the instruction set: its direction, its width in bytes and
whether a loaded value is sign-extended. -/
structure Access where
  store : Bool
  bytes : ℕ
  signed : Bool
  deriving DecidableEq

/-- The accesses behind the operation codes. -/
def access? : AluOp → Option Access
  | .EXE_LB_OP => some ⟨false, 1, true⟩
  | .EXE_LBU_OP => some ⟨false, 1, false⟩
  | .EXE_LHU_OP => some ⟨false, 2, false⟩
  | .EXE_LW_OP => some ⟨false, 4, false⟩
  | .EXE_SB_OP => some ⟨true, 1, false⟩
  | .EXE_SW_OP => some ⟨true, 4, false⟩
  | _ => none

def offset (addr : Word) : ℕ := (addr.extractLsb' 0 2).toNat

def byte (w : Word) (j : ℕ) : BitVec 8 := w.extractLsb' (8 * j) 8

namespace Access

def Aligned (a : Access) (addr : Word) : Prop := offset addr % a.bytes = 0

instance (a : Access) (addr : Word) : Decidable (a.Aligned addr) :=
  inferInstanceAs (Decidable (_ = _))

/-- The byte lanes of the data bus the access uses. -/
def lanes (a : Access) (addr : Word) : BitVec 4 :=
  (allOnes a.bytes).setWidth 4 <<< offset addr

def loadValue (a : Access) (addr data : Word) : Word :=
  let v := data.extractLsb' (8 * offset addr) (8 * a.bytes)
  if a.signed then v.signExtend 32 else v.setWidth 32

end Access

theorem access?_isSome (op : AluOp) : (access? op).isSome = op.isMem := by
  cases op <;> rfl

theorem access?_store {op : AluOp} {a : Access} (h : access? op = some a) :
    a.store = op.isStore := by
  cases op <;> simp [access?] at h <;> subst h <;> rfl

theorem two_bits (o : BitVec 2) : o = 0b00#2 ∨ o = 0b01#2 ∨ o = 0b10#2 ∨ o = 0b11#2 := by
  have hlt := o.isLt
  bv_omega

theorem offset_lt (addr : Word) : offset addr < 4 := (addr.extractLsb' 0 2).isLt

theorem byte_append (b3 b2 b1 b0 : BitVec 8) :
    byte (b3 ++ b2 ++ b1 ++ b0) 0 = b0 ∧ byte (b3 ++ b2 ++ b1 ++ b0) 1 = b1 ∧
      byte (b3 ++ b2 ++ b1 ++ b0) 2 = b2 ∧ byte (b3 ++ b2 ++ b1 ++ b0) 3 = b3 := by
  unfold byte
  refine ⟨?_, ?_, ?_, ?_⟩ <;>
    simp (disch := decide) only [extractLsb'_append_eq_of_le,
      extractLsb'_append_eq_of_add_le] <;> simp

theorem byte_replicate (b : BitVec 8) {o : ℕ} (ho : o < 4) : byte (b ++ b ++ b ++ b) o = b := by
  obtain ⟨h0, h1, h2, h3⟩ := byte_append b b b b
  obtain rfl | rfl | rfl | rfl : o = 0 ∨ o = 1 ∨ o = 2 ∨ o = 3 := by omega
  · exact h0
  · exact h1
  · exact h2
  · exact h3

variable {op : AluOp} {a : Access} {addr : Word}

section
variable (h : access? op = some a)
include h

theorem mem_sel_output_eq (haligned : a.Aligned addr) :
    mem.mem_sel_output false op addr = a.lanes addr := by
  unfold Access.Aligned offset at haligned
  unfold Access.lanes offset
  cases op <;> simp [access?] at h <;> subst h <;> simp only [mem.mem_sel_output, mem.byte_sel] <;>
    obtain ho | ho | ho | ho := two_bits (addr.extractLsb' 0 2) <;> rw [ho] at haligned ⊢ <;>
    first | rfl | exact absurd haligned (by decide)

theorem wdata_output_eq (hload : a.store = false) (haligned : a.Aligned addr) (wdata data : Word) :
    mem.wdata_output false op addr wdata data = a.loadValue addr data := by
  unfold Access.Aligned offset at haligned
  unfold Access.loadValue offset
  cases op <;> simp [access?] at h <;> subst h <;> first | exact absurd hload (by decide) | skip
  all_goals
    simp only [mem.wdata_output, mem.byte_lane]
    obtain ho | ho | ho | ho := two_bits (addr.extractLsb' 0 2) <;> rw [ho] at haligned ⊢ <;>
      first | rfl | exact absurd haligned (by decide) | skip
  simp

theorem mem_data_output_byte (hstore : a.store = true) (haligned : a.Aligned addr) (y held : Word)
    {j : ℕ} (hj : j < a.bytes) :
    byte (mem.mem_data_output false op y held) (offset addr + j) = byte y j := by
  have hlt := offset_lt addr
  unfold Access.Aligned at haligned
  cases op <;> simp [access?] at h <;> subst h <;> first | exact absurd hstore (by decide) | skip
  · obtain rfl : j = 0 := by simpa using hj
    exact byte_replicate _ hlt
  · obtain hzero : offset addr = 0 := by simp at haligned; omega
    simp [hzero, mem.mem_data_output]

end

theorem aligned_of_no_address_error (hacc : access? op = some a)
    (hl : EX.is_ADEL op addr = false) (hs : EX.is_ADES op addr = false) : a.Aligned addr := by
  unfold Access.Aligned offset
  cases op <;> simp only [access?, Option.some.injEq, reduceCtorEq] at hacc <;> subst hacc
  case EXE_LB_OP | EXE_LBU_OP | EXE_SB_OP => exact Nat.mod_one _
  case EXE_LW_OP | EXE_SW_OP =>
    obtain ho : addr.extractLsb' 0 2 =
      0#2 := by simpa [EX.is_ADEL, EX.is_ADES] using And.intro hl hs
    rw [ho]
    rfl
  case EXE_LHU_OP =>
    have hlsb : (addr.extractLsb' 0 2).getLsbD 0 = false := by simpa [EX.is_ADEL] using hl
    obtain ho | ho | ho | ho := two_bits (addr.extractLsb' 0 2) <;> rw [ho] at hlsb ⊢ <;>
      first | rfl | exact absurd hlsb (by decide)

theorem offset_add_bytes_le (h : access? op = some a) (haligned : a.Aligned addr) :
    offset addr + a.bytes ≤ 4 := by
  have hlt := offset_lt addr
  unfold Access.Aligned at haligned
  cases op <;> simp [access?] at h <;> subst h <;> simp only at haligned ⊢ <;> omega

theorem getLsbD_lanes {l : ℕ} (hl : l < 4) :
    (a.lanes addr).getLsbD l = decide (offset addr ≤ l ∧ l < offset addr + a.bytes) := by
  rw [Access.lanes, getLsbD_shiftLeft, getLsbD_setWidth, getLsbD_allOnes, Bool.eq_iff_iff]
  simp
  omega

end mips32s.Isa
