import Mips32S.Exceptions.Effects
import Mips32S.Isa.Decoding

namespace mips32s.Isa

open ID BitVec

/-- A field that the encoding requires to be zero is not, and the decoder does not look at it. -/
def Loose (w : Word) : Prop :=
  (opcode w = EXE_SPECIAL_INST ∧ shamt w = 0#5 ∧
    ((funct w = EXE_MFHI ∨ funct w = EXE_MFLO) ∧ ¬ (rs w = 0#5 ∧ rt w = 0#5) ∨
      (funct w = EXE_MTHI ∨ funct w = EXE_MTLO) ∧ ¬ (rt w = 0#5 ∧ rd w = 0#5) ∨
      (funct w = EXE_MULT ∨ funct w = EXE_MULTU) ∧ rd w ≠ 0#5 ∨
      funct w = EXE_JR ∧ ¬ (rt w = 0#5 ∧ rd w = 0#5) ∨ funct w = EXE_JALR ∧ rt w ≠ 0#5)) ∨
  (opcode w = EXE_BLEZ ∨ opcode w = EXE_BGTZ) ∧ rt w ≠ 0#5 ∨
  opcode w = EXE_LUI ∧ rs w ≠ 0#5

/-- A legal word that the decoder does not accept: a `SYSCALL` with one of the five low bits of its
code set, an `MFC0` with a select other than 0 or an `MTC0` with a select above 3. -/
def Rejected (w : Word) : Prop :=
  opcode w = EXE_SPECIAL_INST ∧ funct w = EXE_SYSCALL ∧ shamt w ≠ 0#5 ∨
  opcode w = 0b010000#6 ∧ shamt w = 0#5 ∧ (funct w).toNat < 8 ∧
    (rs w = 0b00000#5 ∧ funct w ≠ 0#6 ∨ rs w = 0b00100#5 ∧ 3 < (funct w).toNat)

/-- A move from or to CP0 that the decoder accepts, but that reaches another register than the one
it names: its select is not that of the register under its number, or the number is that of the
result of `TLBR`. -/
def Misnamed (w : Word) : Prop :=
  opcode w = 0b010000#6 ∧ shamt w = 0#5 ∧
    (rs w = 0b00000#5 ∧ funct w = 0#6 ∧ rd w = CP0_REG_EBASE ∨
      rs w = 0b00100#5 ∧ (funct w).toNat ≤ 3 ∧
        (funct w ≠ 0#3 ++ cp0Select (rd w) ∨ rd w = CP0_TLBR))

instance (w : Word) : Decidable (Misnamed w) := inferInstanceAs (Decidable (_ ∧ _))

instance (w : Word) : Decidable (Loose w) := inferInstanceAs (Decidable (_ ∨ _ ∨ _))

instance (w : Word) : Decidable (Rejected w) := inferInstanceAs (Decidable (_ ∨ _))

variable {w : Word} {op : BitVec 6} {a b d s : BitVec 5} {f : BitVec 6}
variable (hop : opcode w = op)
include hop

theorem rType_eq_of (hrs : rs w = a) (hrt : rt w = b) (hrd : rd w = d) (hsh : shamt w = s)
    (hfn : funct w = f) : rType op a b d s f = w := by
  subst hop hrs hrt hrd hsh hfn
  exact rType_fields w

theorem iType_eq_of (hrs : rs w = a) (hrt : rt w = b) : iType op a b (imm16 w) = w := by
  subst hop hrs hrt
  refine eq_of_getLsbD_eq fun k hk => ?_
  simp only [opcode, rs, rt, imm16, iType, getLsbD_extractLsb', getLsbD_append]
  grind

theorem jType_eq_of : jType op (w.extractLsb' 0 26) = w := by
  subst hop
  refine eq_of_getLsbD_eq fun k hk => ?_
  simp only [opcode, jType, getLsbD_extractLsb', getLsbD_append]
  grind

theorem syscall_eq_of (hfn : funct w = f) : jType op (w.extractLsb' 6 20 ++ f) = w := by
  subst hop hfn
  refine eq_of_getLsbD_eq fun k hk => ?_
  simp only [opcode, funct, jType, getLsbD_extractLsb', getLsbD_append]
  grind

end mips32s.Isa

namespace mips32s.ID

open Isa

section
variable {w : Word} {i : Instr}

/-- A word that the decoder takes for an instruction is legal, or has a field that is not zero
though it must. -/
theorem legal_of_takes (h : Takes w i) : Legal w ∨ Loose w := by
  cases i with
  | shift op => exact .inl ⟨.shift op _ _ _, rType_eq_of h.1 h.2.1 rfl rfl rfl h.2.2⟩
  | shiftVar op => exact .inl ⟨.shiftVar op _ _ _, rType_eq_of h.1 rfl rfl rfl h.2.1 h.2.2⟩
  | reg op => exact .inl ⟨.reg op _ _ _, rType_eq_of h.1 rfl rfl rfl h.2.1 h.2.2⟩
  | imm op => exact .inl ⟨.imm op _ _ _, iType_eq_of h rfl rfl⟩
  | LUI =>
    by_cases hrs : rs w = 0#5
    · exact .inl ⟨.LUI _ _, iType_eq_of h hrs rfl⟩
    · exact .inr (.inr (.inr ⟨h, hrs⟩))
  | mult signed =>
    obtain ⟨hop, hsh, hfn⟩ := h
    by_cases hrd : rd w = 0#5
    · exact .inl ⟨.mult signed _ _, rType_eq_of hop rfl rfl hrd hsh hfn⟩
    · refine .inr (.inl ⟨hop, hsh, .inr (.inr (.inl ⟨?_, hrd⟩))⟩)
      cases signed
      · exact .inr hfn
      · exact .inl hfn
  | hilo op =>
    obtain ⟨hop, hsh, hfn⟩ := h
    have hfrom (op' : BitVec 5 → Instr) (hcode : ∀ rd, (op' rd).encode = rType 0 0 0 rd 0 (funct w))
        (hfn' : funct w = EXE_MFHI ∨ funct w = EXE_MFLO) : Legal w ∨ Loose w := by
      by_cases hz : rs w = 0#5 ∧ rt w = 0#5
      · exact .inl ⟨op' (rd w), (hcode _).trans (rType_eq_of hop hz.1 hz.2 rfl hsh rfl)⟩
      · exact .inr (.inl ⟨hop, hsh, .inl ⟨hfn', hz⟩⟩)
    have hto (op' : BitVec 5 → Instr) (hcode : ∀ rs, (op' rs).encode = rType 0 rs 0 0 0 (funct w))
        (hfn' : funct w = EXE_MTHI ∨ funct w = EXE_MTLO) : Legal w ∨ Loose w := by
      by_cases hz : rt w = 0#5 ∧ rd w = 0#5
      · exact .inl ⟨op' (rs w), (hcode _).trans (rType_eq_of hop rfl hz.1 hz.2 hsh rfl)⟩
      · exact .inr (.inl ⟨hop, hsh, .inr (.inl ⟨hfn', hz⟩)⟩)
    cases op with
    | MFHI => exact hfrom (.hilo .MFHI) (fun _ => by rw [hfn]; rfl) (.inl hfn)
    | MFLO => exact hfrom (.hilo .MFLO) (fun _ => by rw [hfn]; rfl) (.inr hfn)
    | MTHI => exact hto (.hilo .MTHI) (fun _ => by rw [hfn]; rfl) (.inl hfn)
    | MTLO => exact hto (.hilo .MTLO) (fun _ => by rw [hfn]; rfl) (.inr hfn)
  | mem op => exact .inl ⟨.mem op _ _ _, iType_eq_of h rfl rfl⟩
  | BEQ => exact .inl ⟨.BEQ _ _ _, iType_eq_of h rfl rfl⟩
  | BNE => exact .inl ⟨.BNE _ _ _, iType_eq_of h rfl rfl⟩
  | BLEZ =>
    by_cases hrt : rt w = 0#5
    · exact .inl ⟨.BLEZ _ _, iType_eq_of h rfl hrt⟩
    · exact .inr (.inr (.inl ⟨.inl h, hrt⟩))
  | BGTZ =>
    by_cases hrt : rt w = 0#5
    · exact .inl ⟨.BGTZ _ _, iType_eq_of h rfl hrt⟩
    · exact .inr (.inr (.inl ⟨.inr h, hrt⟩))
  | BLTZ => exact .inl ⟨.BLTZ _ _, iType_eq_of h.1 rfl h.2⟩
  | BGEZ => exact .inl ⟨.BGEZ _ _, iType_eq_of h.1 rfl h.2⟩
  | J => exact .inl ⟨.J _, jType_eq_of h⟩
  | JAL => exact .inl ⟨.JAL _, jType_eq_of h⟩
  | JR =>
    obtain ⟨hop, hsh, hfn⟩ := h
    by_cases hz : rt w = 0#5 ∧ rd w = 0#5
    · exact .inl ⟨.JR _, rType_eq_of hop rfl hz.1 hz.2 hsh hfn⟩
    · exact .inr (.inl ⟨hop, hsh, .inr (.inr (.inr (.inl ⟨hfn, hz⟩)))⟩)
  | JALR =>
    obtain ⟨hop, hsh, hfn⟩ := h
    by_cases hrt : rt w = 0#5
    · exact .inl ⟨.JALR _ _, rType_eq_of hop rfl hrt rfl hsh hfn⟩
    · exact .inr (.inl ⟨hop, hsh, .inr (.inr (.inr (.inr ⟨hfn, hrt⟩)))⟩)
  | SYSCALL => exact .inl ⟨.SYSCALL _, syscall_eq_of h.1 h.2.2⟩
  | MFC0 =>
    obtain ⟨hop, hrs, hsh, hfn⟩ := isMfc0_iff.mp h
    exact .inl ⟨.MFC0 _ _ 0#3, rType_eq_of hop hrs rfl rfl hsh hfn⟩
  | MTC0 =>
    obtain ⟨hop, hrs, hsh, hfn | hfn | hfn | hfn⟩ := isMtc0_iff.mp h
    · exact .inl ⟨.MTC0 _ _ 0#3, rType_eq_of hop hrs rfl rfl hsh hfn⟩
    · exact .inl ⟨.MTC0 _ _ 1#3, rType_eq_of hop hrs rfl rfl hsh hfn⟩
    · exact .inl ⟨.MTC0 _ _ 2#3, rType_eq_of hop hrs rfl rfl hsh hfn⟩
    · exact .inl ⟨.MTC0 _ _ 3#3, rType_eq_of hop hrs rfl rfl hsh hfn⟩
  | ERET => exact .inl ⟨.ERET, h.symm⟩
  | tlb op => exact .inl ⟨.tlb op, h.symm⟩
  | CACHE => exact .inl ⟨.CACHE _ _ _, iType_eq_of h rfl rfl⟩

theorem legal_of_valid (h : (decode w).instvalid = false) : Legal w ∨ Loose w := by
  rcases decode_cases w with hinit | ⟨i, ht⟩
  · rw [hinit] at h
    cases h
  · exact legal_of_takes ht

theorem valid_of_takes (h : Takes w i) : (decode w).instvalid = false := by
  rw [decode_eq h, decoded_instvalid]

theorem valid_of_loose (h : Loose w) : (decode w).instvalid = false := by
  obtain ⟨hop, hsh, ⟨hfn | hfn, -⟩ | ⟨hfn | hfn, -⟩ | ⟨hfn | hfn, -⟩ | ⟨hfn, -⟩ | ⟨hfn, -⟩⟩ |
    ⟨hop | hop, -⟩ | ⟨hop, -⟩ := h
  · exact valid_of_takes (i := .hilo .MFHI 0) ⟨hop, hsh, hfn⟩
  · exact valid_of_takes (i := .hilo .MFLO 0) ⟨hop, hsh, hfn⟩
  · exact valid_of_takes (i := .hilo .MTHI 0) ⟨hop, hsh, hfn⟩
  · exact valid_of_takes (i := .hilo .MTLO 0) ⟨hop, hsh, hfn⟩
  · exact valid_of_takes (i := .mult true 0 0) ⟨hop, hsh, hfn⟩
  · exact valid_of_takes (i := .mult false 0 0) ⟨hop, hsh, hfn⟩
  · exact valid_of_takes (i := .JR 0) ⟨hop, hsh, hfn⟩
  · exact valid_of_takes (i := .JALR 0 0) ⟨hop, hsh, hfn⟩
  · exact valid_of_takes (i := .BLEZ 0 0) hop
  · exact valid_of_takes (i := .BGTZ 0 0) hop
  · exact valid_of_takes (i := .LUI 0 0) hop

theorem not_legal_of_loose (h : Loose w) : ¬ Legal w := by
  rintro ⟨i, rfl⟩
  simp only [Loose, EXE_SPECIAL_INST, EXE_MFHI, EXE_MFLO, EXE_MTHI, EXE_MTLO, EXE_MULT, EXE_MULTU,
    EXE_JR, EXE_JALR, EXE_BLEZ, EXE_BGTZ, EXE_LUI] at h
  cases i with
  | shift op => cases op <;> simp [Instr.encode, Shift.funct] at h
  | shiftVar op => cases op <;> simp [Instr.encode, Shift.functVar] at h
  | reg op => cases op <;> simp [Instr.encode, RegOp.funct] at h
  | imm op => cases op <;> simp [Instr.encode, ImmOp.opcode] at h
  | mem op => cases op <;> simp [Instr.encode, MemOp.opcode] at h
  | hilo op => cases op <;> simp [Instr.encode] at h
  | mult signed => cases signed <;> simp [Instr.encode] at h
  | tlb op => cases op <;> simp [Instr.encode] at h
  | _ => simp [Instr.encode] at h

end

/-! The coprocessor moves, by their select. -/

section
variable (rt rd : BitVec 5) {sel : BitVec 3}

theorem isMfc0_encode : isMfc0 (Instr.MFC0 rt rd 0#3).encode = true :=
  isMfc0_iff.mpr ⟨opcode_rType .., rs_rType .., shamt_rType .., funct_rType ..⟩

theorem rejected_mfc0 (h : sel ≠ 0#3) : Rejected (Instr.MFC0 rt rd sel).encode := by
  refine .inr ⟨opcode_rType .., shamt_rType .., ?_, .inl ⟨rs_rType .., ?_⟩⟩
  all_goals
    rw [Instr.encode, funct_rType]
    revert sel
    decide

theorem isMtc0_encode (h : sel.toNat ≤ 3) : isMtc0 (Instr.MTC0 rt rd sel).encode = true := by
  refine isMtc0_iff.mpr ⟨opcode_rType .., rs_rType .., shamt_rType .., ?_⟩
  rw [Instr.encode, funct_rType]
  revert sel
  decide

theorem rejected_mtc0 (h : 3 < sel.toNat) : Rejected (Instr.MTC0 rt rd sel).encode := by
  refine .inr ⟨opcode_rType .., shamt_rType .., ?_, .inr ⟨rs_rType .., ?_⟩⟩
  all_goals
    rw [Instr.encode, funct_rType]
    revert sel
    decide

end

/-- The decoder takes an encoded instruction for what it is, unless it rejects it. -/
theorem takes_encode (i : Instr) (h : ¬ Rejected i.encode) : Takes i.encode i := by
  cases i with
  | shift => exact ⟨opcode_rType .., rs_rType .., funct_rType ..⟩
  | shiftVar | reg | mult | JR | JALR =>
    exact ⟨opcode_rType .., shamt_rType .., funct_rType ..⟩
  | hilo op => cases op <;> exact ⟨opcode_rType .., shamt_rType .., funct_rType ..⟩
  | imm | LUI | mem | BEQ | BNE | BLEZ | BGTZ | CACHE => exact opcode_iType ..
  | BLTZ | BGEZ => exact ⟨opcode_iType .., rt_iType ..⟩
  | J | JAL => exact opcode_jType ..
  | SYSCALL code =>
    have hop : opcode (Instr.SYSCALL code).encode = EXE_SPECIAL_INST := opcode_jType ..
    have hfn : funct (Instr.SYSCALL code).encode = EXE_SYSCALL := funct_jType ..
    exact ⟨hop, by_contra fun hsh => h (.inl ⟨hop, hfn, hsh⟩), hfn⟩
  | MFC0 rt rd sel =>
    obtain rfl : sel = 0#3 := by_contra fun hsel => h (rejected_mfc0 rt rd hsel)
    exact isMfc0_encode rt rd
  | MTC0 rt rd => exact isMtc0_encode rt rd (not_lt.mp fun hsel => h (rejected_mtc0 rt rd hsel))
  | ERET | tlb => rfl

theorem select_eq {f : BitVec 6} (h : f.toNat < 8) : f = 0#3 ++ f.extractLsb' 0 3 := by
  revert f
  decide

theorem names_encode (i : Instr) (h : Takes i.encode i) (hnot : ¬ Misnamed i.encode) : Names i := by
  cases i with
  | MFC0 t n sel =>
    obtain ⟨hop, hrs, hsh, hfn⟩ := isMfc0_iff.mp h
    have hn : n ≠ CP0_REG_EBASE := fun hn =>
      hnot ⟨hop, hsh, .inl ⟨hrs, hfn, (rd_rType ..).trans hn⟩⟩
    rw [Instr.encode, funct_rType] at hfn
    rw [Names, cp0Select, if_neg hn]
    exact (bits.append_inj.mp (hfn.trans (show 0#6 = 0#3 ++ 0#3 from rfl))).2
  | MTC0 t n sel =>
    obtain ⟨hop, hrs, hsh, hfn⟩ := isMtc0_iff.mp h
    have hle : (funct (Instr.MTC0 t n sel).encode).toNat ≤ 3 := by
      rcases hfn with hfn | hfn | hfn | hfn <;> rw [hfn] <;> decide
    have hreach (hwrong : funct (Instr.MTC0 t n sel).encode ≠ 0#3 ++ cp0Select n ∨ n = CP0_TLBR) :
        False := hnot ⟨hop, hsh, .inr ⟨hrs, hle, by rwa [Instr.encode, rd_rType]⟩⟩
    refine ⟨?_, fun hn => hreach (.inr hn)⟩
    have hsel := not_not.mp fun hne => hreach (.inl hne)
    rw [Instr.encode, funct_rType] at hsel
    exact (bits.append_inj.mp hsel).2
  | _ => trivial

/-- Such a move does something else than the instruction set asks for. -/
theorem not_meaning_of_misnamed {w : Word} (h : Misnamed w) :
    ∃ (i : Instr) (r : RegAddr → Word) (c : BitVec 5 → BitVec 3 → Word), i.encode = w ∧
      r 0#5 = ZeroWord ∧ action w r 0#32 (0#32, 0#32) c ≠ i.action r 0#32 (0#32, 0#32) c := by
  obtain ⟨hop, hsh, ⟨hrs, hfn, hrd⟩ | ⟨hrs, hle, hwrong⟩⟩ := h
  · obtain ⟨t, rfl⟩ : ∃ t, (Instr.MFC0 t CP0_REG_EBASE 0#3).encode = w :=
      ⟨rt w, rType_eq_of hop hrs rfl hrd hsh hfn⟩
    refine ⟨_, fun _ => 0#32, fun _ sel => sel.setWidth 32, rfl, rfl, ?_⟩
    rw [action_mfc0 _ _ _ _ (isMfc0_encode ..)]
    simp [Instr.action, cp0Select]
  · have hsel := select_eq (show (funct w).toNat < 8 by omega)
    obtain ⟨t, n, sel, rfl, hle, hwrong⟩ : ∃ t n sel, (Instr.MTC0 t n sel).encode = w ∧
        sel.toNat ≤ 3 ∧ (sel ≠ cp0Select n ∨ n = CP0_TLBR) := by
      refine ⟨rt w, rd w, _, rType_eq_of hop hrs rfl rfl hsh hsel, ?_, ?_⟩
      · simpa using (Nat.mod_le _ 8).trans hle
      · exact hwrong.imp_left fun hne heq => hne (hsel.trans (heq ▸ rfl))
    refine ⟨_, fun _ => 0#32, fun _ _ => 0#32, rfl, rfl, ?_⟩
    rw [action_mtc0 _ _ _ _ (isMtc0_encode _ _ hle)]
    by_cases hn : n = CP0_TLBR
    · simp [Instr.action, Action.nothing, hn]
    · have hne := hwrong.resolve_right hn
      simp [Instr.action, Action.nothing, hn, hne.symm]

theorem legal_of_rejected {w : Word} (h : Rejected w) : Legal w ∧ (decode w).instvalid = true := by
  obtain ⟨hop, hfn, hsh⟩ | ⟨hop, hsh, hlt, hkind⟩ := h
  · refine ⟨⟨.SYSCALL _, syscall_eq_of hop hfn⟩, ?_⟩
    rw [decode_of_opcode (by rw [hop]; decide), byOpcode, if_pos hop, special, if_neg hsh, hfn]
    split_ifs
    all_goals first | rfl | contradiction
  · have hsel := select_eq hlt
    have hrs : rs w ≠ 0b10000#5 := by
      obtain ⟨hrs, -⟩ | ⟨hrs, -⟩ := hkind <;> rw [hrs] <;> decide
    have hmf : isMfc0 w = false := by
      refine Bool.eq_false_iff.mpr fun hmf => ?_
      obtain ⟨-, hrs, -, hfn⟩ := isMfc0_iff.mp hmf
      obtain ⟨-, hne⟩ | ⟨hrs', -⟩ := hkind
      · exact hne hfn
      · exact absurd (hrs.symm.trans hrs') (by decide)
    have hmt : isMtc0 w = false := by
      refine Bool.eq_false_iff.mpr fun hmt => ?_
      obtain ⟨-, hrs, -, hfn⟩ := isMtc0_iff.mp hmt
      obtain ⟨hrs', -⟩ | ⟨-, hgt⟩ := hkind
      · exact absurd (hrs.symm.trans hrs') (by decide)
      · obtain hfn | hfn | hfn | hfn := hfn <;> rw [hfn] at hgt <;> exact absurd hgt (by decide)
    refine ⟨?_, ?_⟩
    · obtain ⟨hrs, -⟩ | ⟨hrs, -⟩ := hkind
      · exact ⟨.MFC0 _ _ _, rType_eq_of hop hrs rfl rfl hsh hsel⟩
      · exact ⟨.MTC0 _ _ _, rType_eq_of hop hrs rfl rfl hsh hsel⟩
    · rw [decode_of_cop0 hop hrs, hmf, hmt]
      rfl

theorem action_of_invalid {w : Word} (h : (decode w).instvalid = true) (r : RegAddr → Word)
    (pc : Word) (hl : Word × Word) (c : BitVec 5 → BitVec 3 → Word) :
    action w r pc hl c = .nothing := by
  have hdec := decode_of_invalid h
  rw [action_quiet r pc hl c hdec ⟨rfl, rfl, nofun, rfl⟩, jump_eq_none w pc (by rw [hdec]; rfl)]
  rfl

end mips32s.ID

namespace mips32s.CPU_TOP.Execution

open ID Isa
variable {e : Execution} {n t : ℕ}

theorem not_performs_of_invalid (h : (decode (e.inst t)).instvalid = true) (k : ℕ) (eff : Effect) :
    ¬ e.Performs t k eff := by
  intro hperf
  have hdem := hperf.demands
  unfold Demands op at hdem
  rw [decode_of_invalid h] at hdem
  cases eff with
  | gpr => exact absurd hdem.1 Bool.false_ne_true
  | _ => exact absurd hdem Bool.false_ne_true

theorem excepttype_of_invalid (h : (decode (e.inst t)).instvalid = true)
    (hslot : (e.slots n).mem = some t) (hpc : e.pc t ≠ ZeroWord) :
    e.excepttype n =
      if interrupted (e.state n) (e.input n) then .interrupt else .inst_invalid := by
  have hrst := e.input_rst n
  have hin := inMem hslot
  have hdec := decode_of_invalid h
  have htlbl : (e.fetched t).is_inst_tlbl_output = false := by
    by_contra hmiss
    rw [inst_eq_zero_of_tlbl (by simpa using hmiss)] at h
    exact absurd h (by decide)
  have haddr : (e.state n).ex2mem.mem_current_inst_addr ≠ ZeroWord := by
    rwa [hin.current_inst_addr]
  have hop : (e.state n).ex2mem.mem_aluop = .EXE_NOP_OP := by rw [hin.aluop, hdec]; rfl
  obtain ⟨hl, hs, hm⟩ := no_data_fault hrst (by rw [hop]; rfl)
  have hflags := hin.excepttype
  rw [decodeFlags, hdec] at hflags
  rw [Execution.excepttype, mem_excepttype_output_eq hrst]
  simp [fault, mem.excepttype_output, hrst, haddr, hflags, EX.excepttype_output,
    ID.excepttype_output, htlbl, hl, hs, hm, Decoded.init]

end mips32s.CPU_TOP.Execution

namespace mips32s.ID

open Isa CPU_TOP

/-- The decoder does with a word what the instruction set asks for. It accepts exactly the legal
words; what it makes the pipeline do for one is the meaning of the instruction; and a word it does
not accept asks for nothing, performs no side effect in any run and raises the
reserved-instruction exception, which only an interrupt can precede. -/
structure Exact (w : Word) : Prop where
  valid_iff : (decode w).instvalid = false ↔ Legal w
  decoded : ∀ i : Instr, i.encode = w → ∀ r pc hl c, r 0#5 = ZeroWord →
    action w r pc hl c = i.action r pc hl c
  reserved : (decode w).instvalid = true →
    (∀ r pc hl c, action w r pc hl c = .nothing) ∧
    ∀ (e : Execution) (t : ℕ), e.inst t = w → (∀ k eff, ¬ e.Performs t k eff) ∧
      ∀ n, (e.slots n).mem = some t → e.pc t ≠ ZeroWord → e.excepttype n =
        if interrupted (e.state n) (e.input n) then .interrupt else .inst_invalid

theorem not_exact_of_misnamed {w : Word} (h : Misnamed w) : ¬ Exact w := fun hexact => by
  obtain ⟨i, r, c, hcode, hzero, hne⟩ := not_meaning_of_misnamed h
  exact hne (hexact.decoded i hcode r _ _ c hzero)

/-- The exactness of the decoder: it holds of every word, except the legal words that are rejected,
the words that are accepted though a field that must be zero is not, and the moves that reach
another CP0 register than the one they name. -/
theorem decoder_exact (w : Word) : Exact w ↔ ¬ Rejected w ∧ ¬ Loose w ∧ ¬ Misnamed w := by
  refine ⟨fun h => ⟨fun hrej => ?_, fun hloose => ?_, fun hmis => ?_⟩,
    fun ⟨hrej, hloose, hmis⟩ => ⟨⟨?_, ?_⟩, ?_, ?_⟩⟩
  · obtain ⟨hlegal, hinv⟩ := legal_of_rejected hrej
    exact absurd (hinv.symm.trans (h.valid_iff.mpr hlegal)) (by decide)
  · exact not_legal_of_loose hloose (h.valid_iff.mp (valid_of_loose hloose))
  · exact not_exact_of_misnamed hmis h
  · exact fun hvalid => (legal_of_valid hvalid).resolve_right hloose
  · rintro ⟨i, rfl⟩
    exact valid_of_takes (takes_encode i hrej)
  · rintro i rfl r pc hl c
    have htakes := takes_encode i hrej
    exact action_encode r pc hl c i htakes (names_encode i htakes hmis)
  · refine fun hinv => ⟨action_of_invalid hinv, fun e t ht => ?_⟩
    subst ht
    exact ⟨Execution.not_performs_of_invalid hinv,
      fun n hslot hpc => Execution.excepttype_of_invalid hinv hslot hpc⟩

/-- `syscall 1` is rejected, `mult $1, $2` with a destination field is accepted, `mtc0 $1, $12, 1`
is executed as `mtc0 $1, $12, 0`, and `mtc0 $1, $20` as `tlbr`. -/
theorem decoder_not_exact :
    (∃ i : Instr, i.encode = 0x0000004C#32) ∧ (decode 0x0000004C#32).instvalid = true ∧
      ¬ Exact 0x0000004C#32 ∧
      (decode 0x00221818#32).instvalid = false ∧ ¬ Legal 0x00221818#32 ∧ ¬ Exact 0x00221818#32 ∧
      (∀ r pc hl c, (action 0x40816001#32 r pc hl c).cp0 = some (12#5, 0#3, r 1#5)) ∧
      ¬ Exact 0x40816001#32 ∧
      (∀ r pc hl c, (action 0x4081A000#32 r pc hl c).tlb = some .TLBR) ∧ ¬ Exact 0x4081A000#32 := by
  have hloose : Loose 0x00221818#32 := by decide
  refine ⟨⟨.SYSCALL 1#20, rfl⟩, by decide, ?_, by decide, not_legal_of_loose hloose, ?_,
    fun _ _ _ _ => rfl, not_exact_of_misnamed (by decide), fun _ _ _ _ => rfl,
    not_exact_of_misnamed (by decide)⟩
  · exact fun h => absurd (h.valid_iff.mpr ⟨.SYSCALL 1#20, rfl⟩) (by decide)
  · exact fun h => not_legal_of_loose hloose (h.valid_iff.mp (by decide))

end mips32s.ID
