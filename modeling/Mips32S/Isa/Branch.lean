import Mips32S.Cpu.Operands
import Mips32S.Isa.Decoder

namespace mips32s.Isa

/-- The branches and jumps of the instruction set, by what they test. -/
inductive Branch where
  | beq | bne | bgtz | blez | bgez | bltz | jump | jumpReg
  deriving DecidableEq

/-- The branch or jump that opcode `op` and the other fields of the word encode. -/
def branchOf (op : BitVec 6) (w : Word) : Option Branch :=
  match op with
  | 0b000000#6 =>
    if w.extractLsb' 6 5 = 0#5 ∧
      (w.extractLsb' 0 6 = 0b001000#6 ∨ w.extractLsb' 0 6 = 0b001001#6) then some .jumpReg
    else none
  | 0b000001#6 =>
    if w.extractLsb' 16 5 = 0b00001#5 then some .bgez
    else if w.extractLsb' 16 5 = 0b00000#5 then some .bltz
    else none
  | 0b000010#6 | 0b000011#6 => some .jump
  | 0b000100#6 => some .beq
  | 0b000101#6 => some .bne
  | 0b000110#6 => some .blez
  | 0b000111#6 => some .bgtz
  | _ => none

def branch? (w : Word) : Option Branch := branchOf (w.extractLsb' 26 6) w

/-- Whether a branch with operands `x` and `y` is taken; comparisons with zero are signed. -/
def Branch.taken (x y : Word) : Branch → Bool
  | .beq => x = y
  | .bne => x ≠ y
  | .bgtz => 0 < x.toInt
  | .blez => x.toInt ≤ 0
  | .bgez => 0 ≤ x.toInt
  | .bltz => x.toInt < 0
  | .jump | .jumpReg => true

/-- The target of a branch at address `pc` with word `w` and first operand `x`. -/
def Branch.target (pc w x : Word) : Branch → Word
  | .jump => (pc + 4#32).extractLsb' 28 4 ++ w.extractLsb' 0 26 ++ 0#2
  | .jumpReg => x
  | _ => pc + 4#32 + ((w.extractLsb' 0 16).signExtend 32 <<< 2)

def Instr.branch : Instr → Option Branch
  | BEQ _ _ _ => some .beq
  | BNE _ _ _ => some .bne
  | BLEZ _ _ => some .blez
  | BGTZ _ _ => some .bgtz
  | BLTZ _ _ => some .bltz
  | BGEZ _ _ => some .bgez
  | J _ | JAL _ => some .jump
  | JR _ | JALR _ _ => some .jumpReg
  | _ => none

/-- Where control goes after the instruction behind a branch: to the target if the
word is a taken branch, and otherwise to `next`. -/
def redirect (pc w x y next : Word) : Word :=
  match branch? w with
  | some b => if b.taken x y then b.target pc w x else next
  | none => next

end mips32s.Isa

namespace mips32s.ID

open Isa

section
variable {inst : Word} {i : Instr} {c f : BitVec 6}

theorem branch?_of_opcode (hop : opcode inst = c) : branch? inst = branchOf c inst := by
  rw [branch?, show inst.extractLsb' 26 6 = c from hop]

theorem branchOf_eq_none (hc : 7#6 < c) : branchOf c inst = none := by
  unfold branchOf
  split <;> first | rfl | exact absurd hc (by decide)

theorem lt_opcode (hspecial : opcode inst ≠ EXE_SPECIAL_INST)
    (hregimm : opcode inst ≠ EXE_REGIMM_INST) (hj : opcode inst ≠ EXE_J)
    (hjal : opcode inst ≠ EXE_JAL) (hbeq : opcode inst ≠ EXE_BEQ)
    (hbne : opcode inst ≠ EXE_BNE) (hblez : opcode inst ≠ EXE_BLEZ)
    (hbgtz : opcode inst ≠ EXE_BGTZ) :
    7#6 < opcode inst := by
  bv_omega

theorem branch?_special (h : IsSpecial inst f) :
    branch? inst = if f = EXE_JR ∨ f = EXE_JALR then some .jumpReg else none := by
  obtain ⟨hop, hsh, rfl⟩ := h
  rw [branch?_of_opcode hop, branchOf, ← shamt.eq_1, ← funct.eq_1]
  simp only [hsh, true_and]

theorem branch?_eq (h : Takes inst i) : branch? inst = i.branch := by
  cases i with
  | shift op =>
    obtain ⟨hop, -, hfn⟩ := h
    rw [branch?_of_opcode hop, branchOf, ← funct.eq_1, hfn, if_neg]
    · rfl
    · cases op <;> exact fun h => absurd h.2 (by decide)
  | shiftVar op | reg op | hilo op =>
    rw [branch?_special h]
    cases op <;> rfl
  | mult signed =>
    rw [branch?_special h]
    cases signed <;> rfl
  | JR | JALR | SYSCALL =>
    rw [branch?_special h]
    rfl
  | imm op | mem op =>
    rw [branch?_of_opcode h]
    cases op <;> rfl
  | LUI | BEQ | BNE | BLEZ | BGTZ | J | JAL | CACHE =>
    rw [branch?_of_opcode h]
    rfl
  | BLTZ | BGEZ =>
    rw [branch?_of_opcode h.1, branchOf, ← rt.eq_1, h.2]
    rfl
  | MFC0 =>
    rw [branch?_of_opcode (isMfc0_iff.mp h).1]
    rfl
  | MTC0 =>
    rw [branch?_of_opcode (isMtc0_iff.mp h).1]
    rfl
  | ERET =>
    cases h
    rfl
  | tlb op =>
    cases h
    cases op <;> rfl

theorem takes_of_branch {b : Branch} (hb : branch? inst = some b) : ∃ i, Takes inst i := by
  unfold branch? branchOf at hb
  split at hb
  · rename_i hop
    split at hb
    · rename_i hjump
      rcases hjump with ⟨hsh, hfn | hfn⟩
      · exact ⟨.JR 0, hop, hsh, hfn⟩
      · exact ⟨.JALR 0 0, hop, hsh, hfn⟩
    · cases hb
  · rename_i hop
    split at hb
    · exact ⟨.BGEZ 0 0, hop, ‹_›⟩
    split at hb
    · exact ⟨.BLTZ 0 0, hop, ‹_›⟩
    · cases hb
  · exact ⟨.J 0, ‹_›⟩
  · exact ⟨.JAL 0, ‹_›⟩
  · exact ⟨.BEQ 0 0 0, ‹_›⟩
  · exact ⟨.BNE 0 0 0, ‹_›⟩
  · exact ⟨.BLEZ 0 0, ‹_›⟩
  · exact ⟨.BGTZ 0 0, ‹_›⟩
  · cases hb

theorem next_inst_in_delayslot_decode (inst : Word) :
    (decode inst).next_inst_in_delayslot = (branch? inst).isSome := by
  rcases decode_cases inst with hinit | ⟨i, h⟩
  · cases hb : branch? inst with
    | none =>
      rw [hinit]
      rfl
    | some b =>
      obtain ⟨i, h⟩ := takes_of_branch hb
      have hvalid := decoded_instvalid inst i
      rw [← decode_eq h, hinit] at hvalid
      cases hvalid
  · rw [decode_eq h, branch?_eq h]
    cases i with
    | mem op | hilo op => cases op <;> rfl
    | _ => rfl

end

theorem getLsbD_31 (x : Word) : x.getLsbD 31 = decide (x.toInt < 0) := by
  rw [← BitVec.msb_eq_toInt, BitVec.msb_eq_getLsbD_last]

theorem beq_zero_toInt (x : Word) : (x == ZeroWord) = decide (x.toInt = 0) := by
  rw [beq_eq_decide, decide_eq_decide, ← BitVec.toInt_inj]
  rfl

theorem pos_toInt (x : Word) : (x.getLsbD 31 == false && x != ZeroWord) = decide (0 < x.toInt) := by
  rw [getLsbD_31, bne, beq_zero_toInt, Bool.eq_iff_iff]
  simp
  omega

theorem nonpos_toInt (x : Word) :
    (x.getLsbD 31 == true || x == ZeroWord) = decide (x.toInt ≤ 0) := by
  rw [getLsbD_31, beq_zero_toInt, Bool.eq_iff_iff]
  simp
  omega

theorem nonneg_toInt (x : Word) : (x.getLsbD 31 == false) = decide (0 ≤ x.toInt) := by
  rw [getLsbD_31, Bool.eq_iff_iff]
  simp

/-- The redirection signal of the decoder is set exactly for taken branches. -/
theorem branch_flag_output_eq (inst x y : Word) :
    branch_flag_output false inst x y = (branch? inst).any (Branch.taken x y) := by
  rw [branch_flag_output, if_neg Bool.false_ne_true]
  split_ifs with hspecial hbeq hbgtz hblez hbne hregimm hge hlt
  · rw [branch?_of_opcode hspecial]
    simp only [branchOf, ← shamt.eq_1, ← funct.eq_1]
    split_ifs with hjump
    · simpa [hjump.1, Branch.taken] using hjump.2.symm
    · by_cases hsh : shamt inst = 0#5
      · have hfunct : funct inst ≠ EXE_JR ∧ funct inst ≠ EXE_JALR :=
          not_or.mp fun h => hjump ⟨hsh, h⟩
        simp [hfunct]
      · simp [hsh]
  · rw [branch?_of_opcode hbeq]
    exact beq_eq_decide x y
  · rw [branch?_of_opcode hbgtz]
    exact pos_toInt x
  · rw [branch?_of_opcode hblez]
    exact nonpos_toInt x
  · rw [branch?_of_opcode hbne]
    simp [branchOf, Branch.taken, bne, beq_eq_decide]
  · rw [branch?_of_opcode hregimm]
    simp only [branchOf, ← rt.eq_1, hge, if_true, Option.any_some]
    exact nonneg_toInt x
  · rw [branch?_of_opcode hregimm]
    simp only [branchOf, ← rt.eq_1, hlt]
    simpa [Branch.taken] using getLsbD_31 x
  · rw [branch?_of_opcode hregimm]
    simp only [branchOf, ← rt.eq_1, hge, hlt, if_false, Option.any_none]
  · by_cases hj : opcode inst = EXE_J
    · rw [branch?_of_opcode hj, hj]
      rfl
    by_cases hjal : opcode inst = EXE_JAL
    · rw [branch?_of_opcode hjal, hjal]
      rfl
    · rw [branch?_of_opcode rfl,
        branchOf_eq_none (lt_opcode hspecial hregimm hj hjal hbeq hbne hblez hbgtz)]
      simp [hj, hjal]

theorem signExtend_append_zero (imm : BitVec 16) :
    (imm ++ 0#2).signExtend 32 = (imm.signExtend 32 <<< 2 : Word) := by
  apply BitVec.eq_of_getLsbD_eq
  intro k hk
  simp only [BitVec.getLsbD_signExtend, BitVec.getLsbD_shiftLeft, BitVec.getLsbD_append,
    BitVec.msb_append]
  by_cases h2 : k < 2
  · simp [hk, h2, show k < 18 by omega]
  · by_cases h18 : k < 18
    · simp [hk, h2, h18, show k - 2 < 16 by omega, show k - 2 < 32 by omega]
    · simp [hk, h2, h18, show ¬ k - 2 < 16 by omega, show k - 2 < 32 by omega]

theorem branchOf_ne_jump {c : BitVec 6} {w : Word} {b : Branch} (h0 : c ≠ EXE_SPECIAL_INST)
    (h2 : c ≠ EXE_J) (h3 : c ≠ EXE_JAL) (hb : branchOf c w = some b) :
    b ≠ .jump ∧ b ≠ .jumpReg := by
  unfold branchOf at hb
  split at hb <;> first
    | contradiction
    | (cases hb; exact ⟨nofun, nofun⟩)
    | (split_ifs at hb <;> cases hb <;> exact ⟨nofun, nofun⟩)

/-- The redirection address of the decoder is the target of the branch. -/
theorem branch_target_addr_output_eq {inst x y : Word} (pc : Word) {b : Branch}
    (hb : branch? inst = some b) (htaken : b.taken x y = true) :
    branch_target_addr_output false pc inst x y = b.target pc inst x := by
  have hflag : branch_flag_output false inst x y = true := by
    simp [branch_flag_output_eq, hb, htaken]
  rw [branch_target_addr_output, if_pos hflag]
  split_ifs with hspecial hjump
  · rw [branch?_of_opcode hspecial] at hb
    simp only [branchOf] at hb
    split_ifs at hb
    cases hb
    rfl
  · obtain hop | hop := hjump <;>
    · rw [branch?_of_opcode hop] at hb
      cases hb
      rfl
  · rw [not_or] at hjump
    obtain ⟨hj, hjr⟩ := branchOf_ne_jump hspecial hjump.1 hjump.2 hb
    rw [branch_addr, imm16, signExtend_append_zero]
    cases b <;> first | rfl | contradiction

/-- The program counter the fetch stage continues with is the one the instruction
set asks for. -/
theorem branch_redirect (pc inst x y next : Word) :
    (if branch_flag_output false inst x y then branch_target_addr_output false pc inst x y else next) =
      redirect pc inst x y next := by
  rw [redirect, branch_flag_output_eq]
  cases hb : branch? inst with
  | none => rfl
  | some b =>
    simp only [Option.any_some]
    split_ifs with htaken
    · exact branch_target_addr_output_eq pc hb htaken
    · rfl

end mips32s.ID
