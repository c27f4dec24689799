import Mips32S.Isa.Encoding
import Mips32S.Lib.Slice

namespace mips32s.ID

open Isa bits

def shiftOp : Shift → AluOp
  | .SLL => .EXE_SLL_OP
  | .SRL => .EXE_SRL_OP
  | .SRA => .EXE_SRA_OP

/-- The operation code and the selector of a register operation. -/
def regCode : RegOp → AluOp × AluSel
  | .ADDU => (.EXE_ADDU_OP, .EXE_RES_ARITHMETIC)
  | .SUBU => (.EXE_SUBU_OP, .EXE_RES_ARITHMETIC)
  | .AND => (.EXE_AND_OP, .EXE_RES_LOGIC)
  | .OR => (.EXE_OR_OP, .EXE_RES_LOGIC)
  | .XOR => (.EXE_XOR_OP, .EXE_RES_LOGIC)
  | .NOR => (.EXE_NOR_OP, .EXE_RES_LOGIC)
  | .SLT => (.EXE_SLT_OP, .EXE_RES_ARITHMETIC)
  | .SLTU => (.EXE_SLTU_OP, .EXE_RES_ARITHMETIC)

/-- The operation code, the selector and the extended immediate of an immediate operation. -/
def immCode (i : BitVec 16) : ImmOp → AluOp × AluSel × Word
  | .ADDIU => (.EXE_ADDIU_OP, .EXE_RES_ARITHMETIC, i.signExtend 32)
  | .SLTI => (.EXE_SLT_OP, .EXE_RES_ARITHMETIC, i.signExtend 32)
  | .SLTIU => (.EXE_SLTU_OP, .EXE_RES_ARITHMETIC, i.signExtend 32)
  | .ANDI => (.EXE_AND_OP, .EXE_RES_LOGIC, i.setWidth 32)
  | .ORI => (.EXE_OR_OP, .EXE_RES_LOGIC, i.setWidth 32)
  | .XORI => (.EXE_XOR_OP, .EXE_RES_LOGIC, i.setWidth 32)

/-- The decoder's outcome for the moves from and to HI and LO. -/
def hiloOp (op : HiloOp) (d : Decoded) : Decoded :=
  match op with
  | .MFHI => { plainOp .EXE_MFHI_OP d with wreg := true, alusel := .EXE_RES_MOVE }
  | .MFLO => { plainOp .EXE_MFLO_OP d with wreg := true, alusel := .EXE_RES_MOVE }
  | .MTHI => { plainOp .EXE_MTHI_OP d with alusel := .EXE_RES_MOVE, reg1_read := true }
  | .MTLO => { plainOp .EXE_MTLO_OP d with alusel := .EXE_RES_MOVE, reg1_read := true }

def hiloFunct : HiloOp → BitVec 6
  | .MFHI => EXE_MFHI
  | .MFLO => EXE_MFLO
  | .MTHI => EXE_MTHI
  | .MTLO => EXE_MTLO

/-- The decoder's outcome for the loads and stores. -/
def memOp (w : Word) (op : MemOp) (d : Decoded) : Decoded :=
  match op with
  | .LB => loadOp w .EXE_LB_OP d
  | .LBU => loadOp w .EXE_LBU_OP d
  | .LHU => loadOp w .EXE_LHU_OP d
  | .LW => loadOp w .EXE_LW_OP d
  | .SB => storeOp .EXE_SB_OP d
  | .SW => storeOp .EXE_SW_OP d

def tlbCode : TlbInstr → AluOp
  | .TLBR => .EXE_TLBR_OP
  | .TLBWI => .EXE_TLBWI_OP
  | .TLBWR => .EXE_TLBWR_OP
  | .TLBP => .EXE_TLBP_OP

/-- What the decoder makes of a word that it takes for the instruction. -/
def decoded (w : Word) : Instr → Decoded
  | .shift op _ _ _ => shiftImm w (shiftOp op) (.init w)
  | .shiftVar op _ _ _ => regOp (shiftOp op) .EXE_RES_SHIFT (.init w)
  | .reg op _ _ _ => regOp (regCode op).1 (regCode op).2 (.init w)
  | .imm op _ _ _ => immOp w (immCode (imm16 w) op).1 (immCode (imm16 w) op).2.1
      (immCode (imm16 w) op).2.2 (.init w)
  | .LUI _ _ => immOp w .EXE_OR_OP .EXE_RES_LOGIC (imm16 w ++ 0#16) (.init w)
  | .mult signed _ _ =>
    { plainOp (if signed then .EXE_MULT_OP else .EXE_MULTU_OP) (.init w) with
      reg1_read := true, reg2_read := true }
  | .hilo op _ => hiloOp op (.init w)
  | .mem op _ _ _ => memOp w op (.init w)
  | .BEQ _ _ _ => branchOp .EXE_BEQ_OP true true (.init w)
  | .BNE _ _ _ => branchOp .EXE_BNE_OP true true (.init w)
  | .BLEZ _ _ => branchOp .EXE_BLEZ_OP true false (.init w)
  | .BGTZ _ _ => branchOp .EXE_BGTZ_OP true false (.init w)
  | .BLTZ _ _ => branchOp .EXE_BLTZ_OP true false (.init w)
  | .BGEZ _ _ => branchOp .EXE_BGEZ_OP true false (.init w)
  | .J _ => branchOp .EXE_J_OP false false (.init w)
  | .JAL _ => { branchOp .EXE_JAL_OP false false (.init w) with wreg := true, waddr := 0b11111#5 }
  | .JR _ => branchOp .EXE_JR_OP true false (.init w)
  | .JALR _ _ => { branchOp .EXE_JALR_OP true false (.init w) with wreg := true, waddr := rd w }
  | .SYSCALL _ => { plainOp .EXE_SYSCALL_OP (.init w) with excepttype_is_syscall := true }
  | .MFC0 _ _ _ => mfc0Op w (.init w)
  | .MTC0 _ _ _ => mtc0Op w (.init w)
  | .ERET => eretOp (.init w)
  | .tlb op => plainOp (tlbCode op) (.init w)
  | .CACHE _ _ _ => plainOp .EXE_NOP_OP (.init w)

/-- The fields of the operations with opcode 0 and a zero shift amount. -/
def IsSpecial (w : Word) (f : BitVec 6) : Prop :=
  opcode w = EXE_SPECIAL_INST ∧ shamt w = 0#5 ∧ funct w = f

/-- The decoder takes the word for the instruction; it does not look at all the fields. -/
def Takes (w : Word) : Instr → Prop
  | .shift op _ _ _ => opcode w = EXE_SPECIAL_INST ∧ rs w = 0#5 ∧ funct w = op.funct
  | .shiftVar op _ _ _ => IsSpecial w op.functVar
  | .reg op _ _ _ => IsSpecial w op.funct
  | .imm op _ _ _ => opcode w = op.opcode
  | .LUI _ _ => opcode w = EXE_LUI
  | .mult signed _ _ => IsSpecial w (if signed then EXE_MULT else EXE_MULTU)
  | .hilo op _ => IsSpecial w (hiloFunct op)
  | .mem op _ _ _ => opcode w = op.opcode
  | .BEQ _ _ _ => opcode w = EXE_BEQ
  | .BNE _ _ _ => opcode w = EXE_BNE
  | .BLEZ _ _ => opcode w = EXE_BLEZ
  | .BGTZ _ _ => opcode w = EXE_BGTZ
  | .BLTZ _ _ => opcode w = EXE_REGIMM_INST ∧ rt w = EXE_BLTZ
  | .BGEZ _ _ => opcode w = EXE_REGIMM_INST ∧ rt w = EXE_BGEZ
  | .J _ => opcode w = EXE_J
  | .JAL _ => opcode w = EXE_JAL
  | .JR _ => IsSpecial w EXE_JR
  | .JALR _ _ => IsSpecial w EXE_JALR
  | .SYSCALL _ => IsSpecial w EXE_SYSCALL
  | .MFC0 _ _ _ => isMfc0 w = true
  | .MTC0 _ _ _ => isMtc0 w = true
  | .ERET => w = EXE_ERET
  | .tlb op => w = (Instr.tlb op).encode
  | .CACHE _ _ _ => opcode w = EXE_CACHE

variable {w : Word} {i : Instr}

theorem upper_eq (w : Word) : w.extractLsb' 21 11 = opcode w ++ rs w := by
  refine BitVec.eq_of_getLsbD_eq fun k hk => ?_
  simp only [opcode, rs, BitVec.getLsbD_extractLsb', BitVec.getLsbD_append]
  grind

theorem lower_eq (w : Word) : w.extractLsb' 0 11 = shamt w ++ funct w := by
  refine BitVec.eq_of_getLsbD_eq fun k hk => ?_
  simp only [shamt, funct, BitVec.getLsbD_extractLsb', BitVec.getLsbD_append]
  grind

theorem isMfc0_iff : isMfc0 w = true ↔
    opcode w = 0b010000#6 ∧ rs w = 0b00000#5 ∧ shamt w = 0#5 ∧ funct w = 0#6 := by
  have hup : (0b01000000000#11 : BitVec 11) = 0b010000#6 ++ 0b00000#5 := rfl
  have hlow : (0#11 : BitVec 11) = 0#5 ++ 0#6 := rfl
  rw [isMfc0, upper_eq, lower_eq, Bool.and_eq_true, beq_iff_eq, beq_iff_eq, hup, hlow, append_inj,
    append_inj, and_assoc]

theorem isMtc0_iff : isMtc0 w = true ↔
    opcode w = 0b010000#6 ∧ rs w = 0b00100#5 ∧ shamt w = 0#5 ∧
      (funct w = 0#6 ∨ funct w = 1#6 ∨ funct w = 2#6 ∨ funct w = 3#6) := by
  have hup : (0b01000000100#11 : BitVec 11) = 0b010000#6 ++ 0b00100#5 := rfl
  have hlow0 : (0#11 : BitVec 11) = 0#5 ++ 0#6 := rfl
  have hlow1 : (1#11 : BitVec 11) = 0#5 ++ 1#6 := rfl
  have hlow2 : (2#11 : BitVec 11) = 0#5 ++ 2#6 := rfl
  have hlow3 : (3#11 : BitVec 11) = 0#5 ++ 3#6 := rfl
  simp only [isMtc0, upper_eq, lower_eq, Bool.and_eq_true, Bool.or_eq_true, beq_iff_eq, hup, hlow0,
    hlow1, hlow2, hlow3]
  rw [append_inj, append_inj, append_inj, append_inj, append_inj, and_assoc, or_assoc, or_assoc,
    ← and_or_left, ← and_or_left, ← and_or_left]

theorem decode_of_opcode (h : opcode w ≠ 0b010000#6) : decode w = byOpcode w (.init w) := by
  have hmf : isMfc0 w = false := Bool.eq_false_iff.mpr fun hi => h (isMfc0_iff.mp hi).1
  have hmt : isMtc0 w = false := Bool.eq_false_iff.mpr fun hi => h (isMtc0_iff.mp hi).1
  have hword {v : Word} (hv : opcode v = 0b010000#6) : w ≠ v := fun hw => h (hw ▸ hv)
  simp only [decode, coprocessor, hmf, hmt, Bool.false_eq_true, if_false,
    hword (show opcode EXE_ERET = _ from rfl), hword (show opcode EXE_TLBWI = _ from rfl),
    hword (show opcode EXE_TLBWR = _ from rfl), hword (show opcode EXE_TLBR = _ from rfl),
    hword (show opcode EXE_TLBP = _ from rfl)]

theorem decode_of_cop0 (hop : opcode w = 0b010000#6) (hrs : rs w ≠ 0b10000#5) :
    decode w = if isMtc0 w then mtc0Op w (if isMfc0 w then mfc0Op w (.init w) else .init w)
      else if isMfc0 w then mfc0Op w (.init w) else .init w := by
  have hcase : byOpcode w (.init w) = .init w := by
    rw [byOpcode, hop]
    rfl
  have hword {v : Word} (hv : rs v = 0b10000#5) : w ≠ v := fun hw => hrs (hw ▸ hv)
  simp only [decode, coprocessor, hcase, if_false,
    hword (show rs EXE_ERET = _ from rfl), hword (show rs EXE_TLBWI = _ from rfl),
    hword (show rs EXE_TLBWR = _ from rfl), hword (show rs EXE_TLBR = _ from rfl),
    hword (show rs EXE_TLBP = _ from rfl)]

theorem decode_mfc0 (h : isMfc0 w = true) : decode w = mfc0Op w (.init w) := by
  obtain ⟨hop, hrs, -, -⟩ := isMfc0_iff.mp h
  have hmt : isMtc0 w = false := Bool.eq_false_iff.mpr fun hmt =>
    absurd (hrs.symm.trans (isMtc0_iff.mp hmt).2.1) (by decide)
  rw [decode_of_cop0 hop (by rw [hrs]; decide), hmt, h]
  rfl

theorem decode_mtc0 (h : isMtc0 w = true) : decode w = mtc0Op w (.init w) := by
  obtain ⟨hop, hrs, -, -⟩ := isMtc0_iff.mp h
  have hmf : isMfc0 w = false := Bool.eq_false_iff.mpr fun hmf =>
    absurd (hrs.symm.trans (isMfc0_iff.mp hmf).2.1) (by decide)
  rw [decode_of_cop0 hop (by rw [hrs]; decide), hmf, h]
  rfl

theorem decode_special {f : BitVec 6} (h : IsSpecial w f)
    (hf : f ≠ EXE_SLL ∧ f ≠ EXE_SRL ∧ f ≠ EXE_SRA) : decode w = specialFunct w (.init w) := by
  obtain ⟨hop, hsh, rfl⟩ := h
  rw [decode_of_opcode (by rw [hop]; decide), byOpcode, hop, if_pos rfl]
  simp only [special, hsh, hf, if_true, if_false, ite_self]

theorem specialFunct_shift {d : Decoded} (op : Shift) (hfn : funct w = op.funct) :
    specialFunct w d = d := by
  unfold specialFunct
  rw [hfn]
  cases op <;> rfl

/-- The outcome for a word is that of the instruction the decoder takes it for. -/
theorem decode_eq (h : Takes w i) : decode w = decoded w i := by
  cases i with
  | shift op =>
    obtain ⟨hop, hrs, hfn⟩ := h
    rw [decode_of_opcode (by rw [hop]; decide), byOpcode, hop, if_pos rfl]
    simp only [special, specialFunct_shift op hfn, ite_self, hrs, if_true]
    rw [hfn]
    cases op <;> rfl
  | shiftVar op | reg op | hilo op =>
    have hsp : IsSpecial w _ := h
    rw [decode_special hsp (by cases op <;> decide), specialFunct, hsp.2.2]
    cases op <;> rfl
  | mult signed =>
    have hsp : IsSpecial w _ := h
    rw [decode_special hsp (by cases signed <;> decide), specialFunct, hsp.2.2]
    cases signed <;> rfl
  | JR | JALR | SYSCALL =>
    have hsp : IsSpecial w _ := h
    rw [decode_special hsp (by decide), specialFunct, hsp.2.2]
    rfl
  | imm op | mem op =>
    have hop : opcode w = _ := h
    rw [decode_of_opcode (by rw [hop]; cases op <;> decide), byOpcode, hop]
    cases op <;> rfl
  | LUI | BEQ | BNE | BLEZ | BGTZ | J | JAL | CACHE =>
    have hop : opcode w = _ := h
    rw [decode_of_opcode (by rw [hop]; decide), byOpcode, hop]
    rfl
  | BLTZ | BGEZ =>
    obtain ⟨hop, hrt⟩ := h
    rw [decode_of_opcode (by rw [hop]; decide), byOpcode, hop, hrt]
    rfl
  | MFC0 => exact decode_mfc0 h
  | MTC0 => exact decode_mtc0 h
  | ERET =>
    cases h
    rfl
  | tlb op =>
    cases h
    cases op <;> rfl

theorem decoded_instvalid (w : Word) (i : Instr) : (decoded w i).instvalid = false := by
  cases i with
  | mem op => cases op <;> rfl
  | hilo op => cases op <;> rfl
  | _ => rfl

theorem decode_cases (w : Word) : decode w = .init w ∨ ∃ i, Takes w i := by
  let P (d : Decoded) : Prop := d = .init w ∨ ∃ i, Takes w i
  have hinit : P (.init w) := .inl rfl
  have hite {c : Prop} [Decidable c] {d d' : Decoded} (i : Instr) (hc : c → Takes w i) (hd : P d) :
      P (if c then d' else d) := iteInduction (fun h => .inr ⟨i, hc h⟩) fun _ => hd
  have hfunct {d : Decoded} (hop : opcode w = EXE_SPECIAL_INST) (hsh : shamt w = 0#5) (hd : P d) :
      P (specialFunct w d) := by
    have hsp {f : BitVec 6} (h : funct w = f) : IsSpecial w f := ⟨hop, hsh, h⟩
    exact hite (.reg .ADDU 0 0 0) hsp <| hite (.reg .AND 0 0 0) hsp <| hite (.JALR 0 0) hsp <|
      hite (.JR 0) hsp <| hite (.reg .NOR 0 0 0) hsp <| hite (.reg .OR 0 0 0) hsp <|
      hite (.shiftVar .SLL 0 0 0) hsp <| hite (.shiftVar .SRL 0 0 0) hsp <|
      hite (.shiftVar .SRA 0 0 0) hsp <| hite (.reg .SLT 0 0 0) hsp <|
      hite (.reg .SLTU 0 0 0) hsp <| hite (.reg .SUBU 0 0 0) hsp <| hite (.reg .XOR 0 0 0) hsp <|
      hite (.hilo .MFHI 0) hsp <| hite (.hilo .MFLO 0) hsp <| hite (.hilo .MTHI 0) hsp <|
      hite (.hilo .MTLO 0) hsp <| hite (.mult true 0 0) hsp <| hite (.mult false 0 0) hsp <|
      hite (.SYSCALL 0) hsp hd
  have hspecial (hop : opcode w = EXE_SPECIAL_INST) : P (special w (.init w)) := by
    have hshift : P (if rs w = 0#5 then
        if funct w = EXE_SLL then shiftImm w .EXE_SLL_OP (.init w)
        else if funct w = EXE_SRL then shiftImm w .EXE_SRL_OP (.init w)
        else if funct w = EXE_SRA then shiftImm w .EXE_SRA_OP (.init w)
        else .init w
      else .init w) :=
      iteInduction (fun hrs => hite (.shift .SLL 0 0 0) (⟨hop, hrs, ·⟩) <|
        hite (.shift .SRL 0 0 0) (⟨hop, hrs, ·⟩) <| hite (.shift .SRA 0 0 0) (⟨hop, hrs, ·⟩) hinit)
        fun _ => hinit
    exact iteInduction (fun hsh => hfunct hop hsh hshift) fun _ => hshift
  have hcase : P (byOpcode w (.init w)) :=
    iteInduction hspecial fun _ =>
    hite (.imm .ADDIU 0 0 0) id <| hite (.imm .ANDI 0 0 0) id <| hite (.BEQ 0 0 0) id <|
    hite (.BGTZ 0 0) id <| hite (.BLEZ 0 0) id <| hite (.BNE 0 0 0) id <|
    iteInduction (fun hop => hite (.BGEZ 0 0) (⟨hop, ·⟩) <| hite (.BLTZ 0 0) (⟨hop, ·⟩) hinit)
      fun _ =>
    hite (.J 0) id <| hite (.JAL 0) id <| hite (.mem .LB 0 0 0) id <| hite (.mem .LBU 0 0 0) id <|
    hite (.LUI 0 0) id <| hite (.mem .LHU 0 0 0) id <| hite (.mem .LW 0 0 0) id <|
    hite (.imm .ORI 0 0 0) id <| hite (.mem .SB 0 0 0) id <| hite (.mem .SW 0 0 0) id <|
    hite (.imm .SLTI 0 0 0) id <| hite (.imm .SLTIU 0 0 0) id <| hite (.imm .XORI 0 0 0) id <|
    hite (.CACHE 0 0 0) id hinit
  exact hite (.tlb .TLBP) id <| hite (.tlb .TLBR) id <| hite (.tlb .TLBWR) id <|
    hite (.tlb .TLBWI) id <| hite .ERET id <| hite (.MTC0 0 0 0) id <| hite (.MFC0 0 0 0) id hcase

theorem decode_of_invalid (h : (decode w).instvalid = true) : decode w = .init w := by
  refine (decode_cases w).resolve_right fun ⟨i, ht⟩ => ?_
  rw [decode_eq ht, decoded_instvalid] at h
  cases h

end mips32s.ID
