import Mathlib.Data.BitVec

open BitVec Function

namespace decaf

inductive Opcode where
  | li
  | lui
  | addiu

inductive Operand where
  | reg (r : ℕ)
  | imm (value : BitVec 32)

/-- An instruction as it is printed. -/
structure MipsAsm where
  opc : Opcode
  ops : List Operand

/-- `FORMAT2` has places for two operands; `String.format` leaves out the others. -/
def MipsAsm.FORMAT2 (opc : Opcode) (ops : List Operand) : MipsAsm := ⟨opc, ops.take 2⟩

/-- The case `LOAD_IMM4` of `genAsmForBB`. -/
def genLoadImm4 (op0 : ℕ) (value : BitVec 32) : List MipsAsm :=
  let high := value.sshiftRight 16
  let low := value &&& 0xFFFF#32
  if high = 0#32 then [.FORMAT2 .li [.reg op0, .imm low]]
  else .FORMAT2 .lui [.reg op0, .imm high] ::
    if low ≠ 0#32 then [.FORMAT2 .addiu [.reg op0, .reg op0, .imm low]] else []

/-- What an instruction does to the registers; `none` if its operands are not those of its
operation. -/
def MipsAsm.exec (regs : ℕ → BitVec 32) : MipsAsm → Option (ℕ → BitVec 32)
  | ⟨.li, [.reg rt, .imm v]⟩ => some (update regs rt (v.setWidth 16 |>.setWidth 32))
  | ⟨.lui, [.reg rt, .imm v]⟩ => some (update regs rt (v <<< 16))
  | ⟨.addiu, [.reg rt, .reg rs, .imm v]⟩ =>
    some (update regs rt (regs rs + (v.setWidth 16).signExtend 32))
  | _ => none

section
variable {v : BitVec 32}

theorem toNat_low : (v &&& 0xFFFF#32).toNat = v.toNat % 65536 := by
  rw [toNat_and]
  exact Nat.and_two_pow_sub_one_eq_mod _ 16

theorem toInt_high : (v.sshiftRight 16).toInt = v.toInt / 65536 := by
  rw [toInt_sshiftRight, Int.shiftRight_eq_div_pow]
  rfl

theorem eq_low (hhigh : v.sshiftRight 16 = 0#32) :
    ((v &&& 0xFFFF#32).setWidth 16).setWidth 32 = v := by
  have hint := toInt_high (v := v)
  rw [hhigh, toInt_zero, toInt_eq_toNat_cond v] at hint
  apply eq_of_toNat_eq
  simp only [toNat_setWidth, toNat_low]
  omega

theorem eq_high (hlow : v &&& 0xFFFF#32 = 0#32) : v.sshiftRight 16 <<< 16 = v := by
  have hnat := toNat_low (v := v)
  have hint := toInt_high (v := v)
  rw [hlow, toNat_ofNat] at hnat
  rw [toInt_eq_toNat_cond v, toInt_eq_toNat_cond (v.sshiftRight 16)] at hint
  apply eq_of_toNat_eq
  rw [toNat_shiftLeft, Nat.shiftLeft_eq]
  omega

end

/-- The constant is loaded exactly if one of its halves is zero: with both of them the last
instruction has lost its immediate. -/
theorem loadImm4_exact (op0 : ℕ) (value : BitVec 32) (regs : ℕ → BitVec 32) :
    ((genLoadImm4 op0 value).foldlM MipsAsm.exec regs).map (· op0) = some value ↔
      value.sshiftRight 16 = 0#32 ∨ value &&& 0xFFFF#32 = 0#32 := by
  unfold genLoadImm4
  by_cases hhigh : value.sshiftRight 16 = 0#32
  · simp only [if_pos hhigh]
    exact iff_of_true (congrArg some ((update_self ..).trans (eq_low hhigh))) (.inl hhigh)
  by_cases hlow : value &&& 0xFFFF#32 = 0#32
  · refine iff_of_true ?_ (.inr hlow)
    simp only [if_neg hhigh, hlow, ne_eq, not_true_eq_false, if_false]
    exact congrArg some ((update_self ..).trans (eq_high hlow))
  · refine iff_of_false ?_ (not_or.mpr ⟨hhigh, hlow⟩)
    simp only [if_neg hhigh, ne_eq, hlow, not_false_eq_true, if_true]
    intro hload
    cases hload

/-- The immediate of the last instruction is missing. -/
theorem loadImm4_incomplete :
    ((genLoadImm4 8 0x18000#32).foldlM MipsAsm.exec fun _ => 0#32).map (· 8) ≠ some 0x18000#32 := by
  decide

end decaf
