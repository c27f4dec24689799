import Mips32S.Cpu.Execution
import Mips32S.Isa.Branch

open BitVec (neg_eq_not_add ofInt ofNat toInt_eq_toNat_cond toNat_mul toNat_ofNat toNat_setWidth
  toNat_sub)

namespace mips32s.Isa

/-- The result of the logic, shift, arithmetic and compare operations. The first operand of a
shift is its amount. -/
def result? : AluOp → Option (Word → Word → Word)
  | .EXE_AND_OP => some fun x y => x &&& y
  | .EXE_OR_OP => some fun x y => x ||| y
  | .EXE_XOR_OP => some fun x y => x ^^^ y
  | .EXE_NOR_OP => some fun x y => ~~~(x ||| y)
  | .EXE_SLL_OP => some fun x y => y <<< (x.toNat % 32)
  | .EXE_SRL_OP => some fun x y => y >>> (x.toNat % 32)
  | .EXE_SRA_OP => some fun x y => y.sshiftRight (x.toNat % 32)
  | .EXE_ADDU_OP | .EXE_ADDIU_OP => some fun x y => x + y
  | .EXE_SUBU_OP => some fun x y => x - y
  | .EXE_SLT_OP => some fun x y => if x.toInt < y.toInt then 1#32 else 0#32
  | .EXE_SLTU_OP => some fun x y => if x.toNat < y.toNat then 1#32 else 0#32
  | _ => none

def product? : AluOp → Option (Word → Word → BitVec 64)
  | .EXE_MULT_OP => some fun x y => ofInt 64 (x.toInt * y.toInt)
  | .EXE_MULTU_OP => some fun x y => ofNat 64 (x.toNat * y.toNat)
  | _ => none

end mips32s.Isa

namespace mips32s.ID

/-- The result that the execute stage selects for an arithmetic or logic operation. -/
def sel? : AluOp → Option AluSel
  | .EXE_AND_OP | .EXE_OR_OP | .EXE_XOR_OP | .EXE_NOR_OP => some .EXE_RES_LOGIC
  | .EXE_SLL_OP | .EXE_SRL_OP | .EXE_SRA_OP => some .EXE_RES_SHIFT
  | .EXE_ADDU_OP | .EXE_ADDIU_OP | .EXE_SUBU_OP | .EXE_SLT_OP | .EXE_SLTU_OP =>
    some .EXE_RES_ARITHMETIC
  | _ => none

def Decoded.Selects (d : Decoded) : Prop := ∀ sel, sel? d.aluop = some sel → d.alusel = sel

theorem selects_decode (inst : Word) : (decode inst).Selects := by
  rcases decode_cases inst with hinit | ⟨i, h⟩
  · rw [hinit]
    exact nofun
  rw [decode_eq h]
  intro sel hsel
  cases i with
  | shift op | shiftVar op | reg op | imm op => cases op <;> exact Option.some_inj.mp hsel
  | LUI => exact Option.some_inj.mp hsel
  | mem op | hilo op | tlb op => cases op <;> cases hsel
  | mult signed => cases signed <;> cases hsel
  | _ => cases hsel

end mips32s.ID

namespace mips32s.EX

open Isa

section
variable {x y : Word}

/-- The sign bits in front of a logical right shift make it arithmetic. -/
theorem sra_eq (n : BitVec 5) :
    ((if y.getLsbD 31 then BitVec.allOnes 32 else 0#32) <<< (32#6 - n.setWidth 6)) ||| (y >>> n) =
      y.sshiftRight n.toNat := by
  have hn := n.isLt
  have hamount : (32#6 - n.setWidth 6).toNat = 32 - n.toNat := by
    rw [toNat_sub, toNat_setWidth]
    have hmod : n.toNat % 2 ^ 6 = n.toNat := Nat.mod_eq_of_lt (by omega)
    rw [hmod]
    simp only [toNat_ofNat]
    omega
  have hmsb : y.msb = y.getLsbD 31 := BitVec.msb_eq_getLsbD_last y
  refine BitVec.eq_of_getLsbD_eq fun k hk => ?_
  rw [BitVec.getLsbD_or, BitVec.shiftLeft_eq', hamount, BitVec.ushiftRight_eq',
    BitVec.getLsbD_shiftLeft, BitVec.getLsbD_ushiftRight, BitVec.getLsbD_sshiftRight, hmsb]
  by_cases hlow : n.toNat + k < 32
  · have hbelow : k < 32 - n.toNat := by omega
    simp [hk, hlow, hbelow]
  · have habove : ¬k < 32 - n.toNat := by omega
    have hout : y.getLsbD (n.toNat + k) = false := BitVec.getLsbD_of_ge y _ (by omega)
    have hin : k - (32 - n.toNat) < 32 := by omega
    have hfull : ¬32 ≤ k := by omega
    rw [if_neg hlow, hout]
    cases y.getLsbD 31 with
    | true => simp only [if_true, BitVec.getLsbD_allOnes, hk, habove, hin, hfull]; rfl
    | false => simp

theorem toNat_amount (x : Word) : (x.extractLsb' 0 5).toNat = x.toNat % 32 := by
  simp [BitVec.extractLsb'_toNat]

end

section
variable {x y : Word}

/-- The sign of the difference decides a comparison of operands of one sign. -/
theorem lt_eq : reg1_lt_reg2 .EXE_SLT_OP x y = decide (x.toInt < y.toInt) := by
  have hsum : result_sum .EXE_SLT_OP x y = x - y := by
    rw [result_sum, reg2_input_mux, if_pos (.inr rfl), ← neg_eq_not_add, BitVec.sub_eq_add_neg]
  have hx := x.isLt
  have hy := y.isLt
  rw [reg1_lt_reg2, if_pos rfl, hsum, Bool.eq_iff_iff]
  simp only [ID.getLsbD_31, toInt_eq_toNat_cond, toNat_sub,
    Bool.or_eq_true, Bool.and_eq_true, Bool.not_eq_true', decide_eq_true_eq, decide_eq_false_iff_not]
  split_ifs <;> omega

end

section
variable {x y : Word}

theorem toNat_mult_op (x : Word) : (mult_op x).toNat = x.toInt.natAbs := by
  have hx := x.isLt
  unfold mult_op
  rw [ID.getLsbD_31, ← neg_eq_not_add]
  split_ifs with hneg
  · have hneg' := of_decide_eq_true hneg
    rw [BitVec.toNat_neg]
    rw [toInt_eq_toNat_cond] at hneg' ⊢
    split_ifs at * <;> omega
  · have hpos := of_decide_eq_false (Bool.not_eq_true _ ▸ hneg)
    rw [toInt_eq_toNat_cond] at hpos ⊢
    split_ifs at * <;> omega

theorem mult_abs (x y : Word) : (mult_op x).setWidth 64 * (mult_op y).setWidth 64 =
    ofInt 64 (x.toInt * y.toInt).natAbs := by
  have hx := (mult_op x).isLt
  have hy := (mult_op y).isLt
  refine BitVec.eq_of_toNat_eq ?_
  rw [BitVec.ofInt_natCast, toNat_mul, toNat_setWidth, toNat_setWidth,
    toNat_ofNat, Int.natAbs_mul, ← toNat_mult_op, ← toNat_mult_op,
    Nat.mod_eq_of_lt (by omega : (mult_op x).toNat < 2 ^ 64),
    Nat.mod_eq_of_lt (by omega : (mult_op y).toNat < 2 ^ 64)]

/-- The product of two factors is negative when exactly one of them is, unless the other is 0. -/
theorem natAbs_mul_of_sign {a b : ℤ} :
    ((if decide (a < 0) ^^ decide (b < 0) then -((a * b).natAbs : ℤ) else (a * b).natAbs) : ℤ) =
      a * b := by
  by_cases ha : a < 0 <;> by_cases hb : b < 0
  · have hab := Int.mul_pos_of_neg_of_neg ha hb
    simp only [ha, hb, decide_true, Bool.xor_self, Bool.false_eq_true, if_false]
    omega
  · have hab := Int.mul_nonpos_of_nonpos_of_nonneg (Int.le_of_lt ha) (Int.not_lt.mp hb)
    simp only [ha, hb, decide_true, decide_false, Bool.xor_false, if_true]
    omega
  · have hab := Int.mul_nonpos_of_nonneg_of_nonpos (Int.not_lt.mp ha) (Int.le_of_lt hb)
    simp only [ha, hb, decide_true, decide_false, Bool.false_xor, if_true]
    omega
  · have hab := Int.mul_nonneg (Int.not_lt.mp ha) (Int.not_lt.mp hb)
    simp only [ha, hb, decide_false, Bool.xor_self, Bool.false_eq_true, if_false]
    omega

theorem mulres_mult (held : BitVec 64) :
    mulres false .EXE_MULT_OP x y held = ofInt 64 (x.toInt * y.toInt) := by
  have hsign := natAbs_mul_of_sign (a := x.toInt) (b := y.toInt)
  simp only [mulres, Bool.false_eq_true, if_false, if_true, mult_abs, ID.getLsbD_31,
    ← neg_eq_not_add, ← BitVec.ofInt_neg]
  rw [← apply_ite (ofInt 64), hsign]

theorem mulres_multu (held : BitVec 64) :
    mulres false .EXE_MULTU_OP x y held = ofNat 64 (x.toNat * y.toNat) := by
  simp only [mulres, Bool.false_eq_true, if_false, if_true, reduceCtorEq]
  refine BitVec.eq_of_toNat_eq ?_
  have hx := x.isLt
  have hy := y.isLt
  rw [toNat_mul, toNat_setWidth, toNat_setWidth, toNat_ofNat,
    Nat.mod_eq_of_lt (by omega : x.toNat < 2 ^ 64), Nat.mod_eq_of_lt (by omega : y.toNat < 2 ^ 64)]

end

variable {op : AluOp} {f : Word → Word → Word}

theorem wdata_output_eq (hf : result? op = some f) {sel : AluSel} (hsel : ID.sel? op = some sel)
    (x y move link : Word) :
    wdata_output sel (logicout false op x y) (shiftres false op x y) move (arithres false op x y)
      link = f x y := by
  cases op with
  | EXE_SLL_OP | EXE_SRL_OP =>
    cases hf
    cases hsel
    simp [wdata_output, shiftres]
  | EXE_SRA_OP =>
    cases hf
    cases hsel
    simp only [wdata_output, shiftres, Bool.false_eq_true, if_false, sra_eq, toNat_amount]
  | EXE_SUBU_OP =>
    cases hf
    cases hsel
    simp [wdata_output, arithres, result_sum, reg2_input_mux, ← neg_eq_not_add,
      BitVec.sub_eq_add_neg]
  | EXE_SLT_OP =>
    cases hf
    cases hsel
    simp only [wdata_output, arithres, Bool.false_eq_true, if_false, lt_eq]
    by_cases h : x.toInt < y.toInt <;> simp [h]
  | EXE_SLTU_OP =>
    cases hf
    cases hsel
    by_cases h : x.toNat < y.toNat <;> simp [wdata_output, arithres, reg1_lt_reg2, BitVec.ult, h]
  | EXE_AND_OP | EXE_OR_OP | EXE_XOR_OP | EXE_NOR_OP | EXE_ADDU_OP | EXE_ADDIU_OP =>
    cases hf
    cases hsel
    rfl
  | _ => cases hf

theorem hilo_output_eq {g : Word → Word → BitVec 64} (hg : product? op = some g)
    (x y : Word) (cur : Word × Word) (held : BitVec 64) :
    hilo_output false op x cur (mulres false op x y held) =
      ⟨true, (g x y).extractLsb' 32 32, (g x y).extractLsb' 0 32⟩ := by
  cases op with
  | EXE_MULT_OP =>
    cases hg
    rw [mulres_mult]
    rfl
  | EXE_MULTU_OP =>
    cases hg
    rw [mulres_multu]
    rfl
  | _ => cases hg

end mips32s.EX

namespace mips32s.CPU_TOP

theorem sel?_of_result? {op : AluOp} {f : Word → Word → Word} (hf : Isa.result? op = some f) :
    ∃ sel, ID.sel? op = some sel := by
  cases op <;> first | exact ⟨_, rfl⟩ | cases hf

/-- The arithmetic of the execute stage. When it holds the operation and the selector of a decoded
instruction, with any operands, its result is the reference result of a logic, shift, add,
subtract or compare operation, and the HI/LO pair it hands on is the 64-bit product of a
multiplication. -/
theorem ex_output_alu (s : State) (i : Input) (inst : Word) (hrst : i.rst = false)
    (hop : s.id_ex.ex_aluop = (ID.decode inst).aluop)
    (hsel : s.id_ex.ex_alusel = (ID.decode inst).alusel) :
    (∀ f, Isa.result? (ID.decode inst).aluop = some f →
      (ex_output s i).mem_wdata = f s.id_ex.ex_reg1 s.id_ex.ex_reg2) ∧
    ∀ g, Isa.product? (ID.decode inst).aluop = some g →
      (ex_output s i).mem_whilo = true ∧
        (ex_output s i).mem_hi = (g s.id_ex.ex_reg1 s.id_ex.ex_reg2).extractLsb' 32 32 ∧
        (ex_output s i).mem_lo = (g s.id_ex.ex_reg1 s.id_ex.ex_reg2).extractLsb' 0 32 := by
  refine ⟨fun f hf => ?_, fun g hg => ?_⟩
  · obtain ⟨sel, hunit⟩ := sel?_of_result? hf
    have hdecoded := ID.selects_decode inst sel hunit
    simp only [ex_output, ex_wdata_output, hrst, hop, hsel, hdecoded]
    exact EX.wdata_output_eq hf hunit _ _ _ _
  · have hpair := EX.hilo_output_eq hg s.id_ex.ex_reg1 s.id_ex.ex_reg2 (ex_HILO s i)
      s.ex_held.mulres
    simp only [ex_output, ex_hilo_output, ex_mulres, hrst, hop, hpair, and_self]

/-- `lui $1, 0x8000; mult $1, $1`: the most negative word squared. -/
def squaredMin : Execution := .straight 0#8 [0x3C018000#32, 0x00210018#32]

theorem ex_output_alu_mult :
    (squaredMin.state 7).id_ex.ex_aluop = .EXE_MULT_OP ∧
      (squaredMin.state 7).id_ex.ex_reg1 = 0x80000000#32 ∧
      (ex_output (squaredMin.state 7) (squaredMin.input 7)).mem_hi = 0x40000000#32 := by
  have hreg1 : (squaredMin.state 7).id_ex.ex_reg1 = 0x80000000#32 := by decide +kernel
  have hreg2 : (squaredMin.state 7).id_ex.ex_reg2 = 0x80000000#32 := by decide +kernel
  have halu := (ex_output_alu (squaredMin.state 7) (squaredMin.input 7) 0x00210018#32
    (Execution.input_rst _ 7) (by decide +kernel) (by decide +kernel)).2 _ rfl
  exact ⟨by decide +kernel, hreg1, halu.2.1⟩

end mips32s.CPU_TOP
