import Mips32S.Cp0.Frame

namespace mips32s

open bits

namespace Isa.Cp0Reg

/-- What a read of the register shows of its content; the bits 15..8 of Cause are the interrupt
lines. -/
def shown (r : Cp0Reg) (int_input : BitVec 8) (x : Word) : Word :=
  match r with
  | Index => x.extractLsb' 31 1 ++ 0#27 ++ x.extractLsb' 0 4
  | EntryLo0 | EntryLo1 => 0#2 ++ x.extractLsb' 6 24 ++ 0#3 ++ x.extractLsb' 0 3
  | EntryHi => x.extractLsb' 13 19 ++ 0#5 ++ x.extractLsb' 0 8
  | Cause =>
    x.extractLsb' 31 1 ++ 0#7 ++ x.extractLsb' 23 1 ++ 0#7 ++ int_input ++ 0#1 ++
      x.extractLsb' 2 5 ++ 0#2
  | EBase => 0b10#2 ++ x.extractLsb' 12 18 ++ 0#12
  | BadVAddr | Count | Compare | Status | EPC => x

/-- Two values of the register agree, apart from the interrupt-driven bits of Cause. -/
def Same (r : Cp0Reg) (x y : Word) : Prop :=
  if r = .Cause then
    x.extractLsb' 16 16 = y.extractLsb' 16 16 ∧ x.extractLsb' 0 8 = y.extractLsb' 0 8
  else x = y

instance (r : Cp0Reg) (x y : Word) : Decidable (r.Same x y) :=
  inferInstanceAs (Decidable (if r = .Cause then _ ∧ _ else x = y))

variable {r : Cp0Reg} {x y z : Word}

theorem Same.of_eq (h : x = y) : r.Same x y := by
  subst h
  unfold Same
  split_ifs
  · exact ⟨rfl, rfl⟩
  · rfl

theorem Same.trans (h : r.Same x y) (h' : r.Same y z) : r.Same x z := by
  unfold Same at *
  split_ifs at *
  · exact ⟨h.1.trans h'.1, h.2.trans h'.2⟩
  · exact h.trans h'

theorem Same.written (h : r.Same x y) (d : Word) : r.Same (r.written x d) (r.written y d) := by
  unfold Same at *
  unfold Cp0Reg.written
  split_ifs at *
  · rw [extractLsb'_merge _ _ _ _ _ (by decide), extractLsb'_merge _ _ _ _ _ (by decide),
      extractLsb'_merge _ _ _ _ _ (by decide), extractLsb'_merge _ _ _ _ _ (by decide), h.1, h.2]
    exact ⟨rfl, rfl⟩
  · rw [h]

theorem Same.shown (h : r.Same x y) (int_input : BitVec 8) :
    r.shown int_input x = r.shown int_input y := by
  unfold Same at h
  split_ifs at h with hr
  · subst hr
    have hhigh (lo len : ℕ) (hfit : lo + len ≤ 16) :
        x.extractLsb' (16 + lo) len = y.extractLsb' (16 + lo) len := by
      rw [← extractLsb'_extractLsb' x 16 16 lo len hfit, h.1,
        extractLsb'_extractLsb' y 16 16 lo len hfit]
    have hlow : x.extractLsb' 2 5 = y.extractLsb' 2 5 := by
      rw [← extractLsb'_extractLsb' x 0 8 2 5 (by decide), h.2,
        extractLsb'_extractLsb' y 0 8 2 5 (by decide)]
    simp only [Cp0Reg.shown, hhigh 15 1 (by decide), hhigh 7 1 (by decide), hlow]
  · rw [h]

end Isa.Cp0Reg

namespace cp0_reg

open Isa

theorem data_output_eq (r : Cp0Reg) (int_input : BitVec 8) (s : State) :
    data_output false r.num int_input s = r.shown int_input (r.content s) := by
  cases r <;> rfl

theorem same_tick {r : Cp0Reg} (hr : r ≠ .Count) (int_input : BitVec 8) (s : State) :
    r.Same (r.content (s.tick int_input)) (r.content s) := by
  cases r with
  | Count => exact absurd rfl hr
  | Cause =>
    refine ⟨?_, ?_⟩ <;> exact extractLsb'_setSlice_disjoint _ _ _ _ _ (by decide) (by decide)
  | _ => exact .of_eq rfl

theorem content_write_of_ne {r : Cp0Reg} {wb : EX.Cp0Write} {tlb : TlbStruct} {s : State}
    (hwe : wb.we = true) (hr : wb.write_addr ≠ r.num) (htlbr : wb.write_addr ≠ CP0_TLBR)
    (hswitch : tlb.switch = true) : r.content (s.write wb tlb) = r.content s := by
  by_cases hnamed : ∃ r' : Cp0Reg, wb.write_addr = r'.num
  · obtain ⟨r', hr'⟩ := hnamed
    have hne : r ≠ r' := fun h => hr (h ▸ hr')
    rw [write_eq_set hwe hr', Cp0Reg.content_timer, Cp0Reg.content_set, if_neg hne]
  · rw [write_eq_self (not_exists.mp hnamed) htlbr hswitch]

end cp0_reg

namespace CPU_TOP.Execution

open pipeline Isa ID
variable {e : Execution} {r : Cp0Reg} {t u w k n j : ℕ}

/-- The instruction writes neither the register nor, as `TLBR` and `TLBP` do, others behind the
program's back. -/
def Harmless (r : Cp0Reg) (inst : Word) : Prop :=
  (decode inst).aluop ≠ .EXE_TLBR_OP ∧ (decode inst).aluop ≠ .EXE_TLBP_OP ∧
    ((decode inst).aluop = .EXE_MTC0_OP → rd inst ≠ r.num ∧ rd inst ≠ CP0_TLBR)

instance (r : Cp0Reg) (inst : Word) : Decidable (Harmless r inst) :=
  inferInstanceAs (Decidable (_ ∧ _ ∧ (_ → _)))

/-- Instruction `t`, an `MTC0` that writes the register in cycle `k`, is followed by instruction `u`,
an `MFC0` of the same register that leaves EX in cycle `n`. Between them there is no exception and
no instruction that writes the register otherwise. -/
structure ReadAfterWrite (e : Execution) (r : Cp0Reg) (t u k n : ℕ) : Prop where
  mtc0 : isMtc0 (e.inst t) = true ∧ rd (e.inst t) = r.num
  mfc0 : isMfc0 (e.inst u) = true ∧ rd (e.inst u) = r.num
  younger : t < u
  wb : (e.slots k).wb = some t
  executed : e.ExecutedAt u n
  no_exception : ∀ j, k ≤ j → j < n → e.ctl j ≠ .flush
  no_write : ∀ w, t < w → w < u → e.Delivered w → Harmless r (e.inst w)

/-- The value the `MTC0` writes. -/
def cp0Data (e : Execution) (k : ℕ) : Word := (wb_cp0 (e.state k)).data

/-- What a read of the register has to return in cycle `n` after the write of cycle `k`: the content
before the write with its writable bits replaced. -/
def readback (e : Execution) (r : Cp0Reg) (k n : ℕ) : Word :=
  r.shown (e.input n).int_input (r.written (r.content (e.state k).cp0) (e.cp0Data k))

/-! The CP0 writes in flight. -/

theorem mem_cp0_of_mem (h : (e.slots n).mem = some t) :
    ∃ x, mem_cp0 (e.state n) (e.input n) =
      EX.cp0_output false (decode (e.inst t)).aluop (e.inst t) x := by
  obtain ⟨k, -, hmem, hex⟩ := holdsMem h
  refine ⟨(e.state k).id_ex.ex_reg1, ?_⟩
  simp only [mem_cp0, mem_output, e.input_rst n, hmem, ex_output, ex_cp0_output, e.input_rst k,
    (inEx_of_holds hex).aluop, (inEx_of_holds hex).inst, Bool.not_false, Bool.true_and,
    Bool.false_eq_true, if_false]

theorem Harmless.unnamed {inst : Word} (h : Harmless r inst) (x : Word) :
    ((EX.cp0_output false (decode inst).aluop inst x).we &&
      (EX.cp0_output false (decode inst).aluop inst x).write_addr == r.num) = false := by
  obtain ⟨htlbr, htlbp, hmtc0⟩ := h
  generalize (decode inst).aluop = op at *
  cases op with
  | EXE_TLBR_OP => exact absurd rfl htlbr
  | EXE_TLBP_OP => exact absurd rfl htlbp
  | EXE_MTC0_OP =>
    rw [Bool.and_eq_false_iff, beq_eq_false_iff_ne]
    exact .inr (hmtc0 rfl).1
  | _ => rfl

theorem content_cp0Older (h : ∀ w, (e.slots n).wb = some w → Harmless r (e.inst w)) :
    r.content (e.cp0Older n) = r.content (e.cp0Before n) := by
  have hwe (hwe : (wb_cp0 (e.state n)).we = false) :
      r.content (e.cp0Older n) = r.content (e.cp0Before n) := by
    rw [cp0Older, cp0_reg.State.write, if_pos hwe]
    rfl
  cases hslot : (e.slots n).wb with
  | none => exact hwe (mem2wb_idle hslot).cp0_reg_we
  | some w =>
    obtain ⟨htlbr, htlbp, hmtc0⟩ := h w hslot
    by_cases hop : (decode (e.inst w)).aluop = .EXE_MTC0_OP
    · obtain ⟨m, -, hwrite, hswitch⟩ := wb_cp0_of_mtc0 hslot hop
      rw [cp0Older, hwrite]
      exact cp0_reg.content_write_of_ne rfl (hmtc0 hop).1 (hmtc0 hop).2 hswitch
    · refine hwe ((inWb hslot).cp0_reg_we.trans ?_)
      generalize (decode (e.inst w)).aluop = op at *
      cases op <;> first | rfl | contradiction

namespace ReadAfterWrite

variable (h : e.ReadAfterWrite r t u k n)
include h

theorem occupies : (e.slots n).Occupies u := .inr (.inl h.executed.2)

theorem harmless_wb (hk : k < j) (hj : j ≤ n) (hw : (e.slots j).wb = some w) :
    Harmless r (e.inst w) := by
  refine h.no_write w (lt_of_wb h.wb hk (.of_wb hw)) ?_ (delivered_of_occupies (.of_wb hw))
  obtain hlt | rfl := hj.lt_or_eq
  · exact lt_of_wb hw hlt h.occupies
  · exact (slots_ordered j).wb_ex w hw u h.executed.2

theorem harmless_mem (hk : k ≤ n) (hw : (e.slots n).mem = some w) : Harmless r (e.inst w) := by
  have hord : (e.slots n).Ordered n := slots_ordered n
  refine h.no_write w ?_ (hord.mem_ex w hw u h.executed.2) (delivered_of_occupies (.of_mem hw))
  obtain hlt | rfl := hk.lt_or_eq
  · exact lt_of_wb h.wb hlt (.of_mem hw)
  · exact hord.wb_mem t h.wb w hw

theorem mem_unnamed (hk : k ≤ n) : ((mem_cp0 (e.state n) (e.input n)).we &&
    (mem_cp0 (e.state n) (e.input n)).write_addr == r.num) = false := by
  cases hslot : (e.slots n).mem with
  | none => simp [mem_cp0, mem_output, (ex2mem_idle hslot).cp0_reg_we]
  | some w =>
    obtain ⟨x, hx⟩ := mem_cp0_of_mem hslot
    rw [hx]
    exact (h.harmless_mem hk hslot).unnamed x

/-- The register keeps the written content until it is read. -/
theorem content (hr : r ≠ .Count) (hk : k < j) (hj : j ≤ n) :
    r.Same (r.content (e.state j).cp0) (r.written (r.content (e.state k).cp0) (e.cp0Data k)) := by
  have hstep (i : ℕ) (hi : k ≤ i) (hn : i < n) :
      r.content (e.state (i + 1)).cp0 = r.content (e.cp0Older i) := by
    have hnone : e.excepttype i = .none := by
      by_contra hexc
      exact h.no_exception i hi hn ((ctl_eq_flush i).mpr hexc)
    rw [cp0_succ, hnone]
    cases r <;> rfl
  induction j, hk using Nat.le_induction with
  | base =>
    obtain ⟨m, -, hwrite, -⟩ := wb_cp0_of_mtc0 h.wb (aluop_of_isMtc0 h.mtc0.1)
    have hwe : (wb_cp0 (e.state k)).we = true := by rw [hwrite]
    have haddr : (wb_cp0 (e.state k)).write_addr = r.num := by
      rw [hwrite]
      exact h.mtc0.2
    have hcontent : r.content (e.cp0Older k) =
        r.written (r.content (e.cp0Before k)) (e.cp0Data k) := by
      rw [cp0Older, cp0_reg.write_eq_set hwe haddr, Cp0Reg.content_timer, Cp0Reg.content_set,
        if_pos rfl]
      rfl
    rw [hstep k le_rfl (by omega), hcontent]
    exact (cp0_reg.same_tick hr _ _).written _
  | succ i hk ih =>
    have hkept : r.content (e.cp0Older i) = r.content (e.cp0Before i) :=
      content_cp0Older fun w hw => h.harmless_wb hk (by omega) hw
    rw [hstep i (by omega) (by omega), hkept]
    exact (cp0_reg.same_tick hr _ _).trans (ih (by omega))

theorem value : (ex_output (e.state n) (e.input n)).mem_wdata =
    if (mem_cp0 (e.state n) (e.input n)).we &&
        (mem_cp0 (e.state n) (e.input n)).write_addr == r.num then
      (mem_cp0 (e.state n) (e.input n)).data
    else if (wb_cp0 (e.state n)).we && (wb_cp0 (e.state n)).write_addr == r.num then
      (wb_cp0 (e.state n)).data
    else r.shown (e.input n).int_input (r.content (e.state n).cp0) := by
  have hex := holdsEx h.executed.2
  have hin := inEx_of_holds hex
  obtain ⟨m, -, hid, hif⟩ := hex
  have hdec : id_decoded (e.state m) (e.input m) = decode (e.inst u) := by
    rw [id_decoded, e.input_rst m, hif, if_neg Bool.false_ne_true]
    rfl
  have hop : (e.state n).id_ex.ex_aluop = .EXE_MFC0_OP := by
    rw [hin.aluop, decode_mfc0 h.mfc0.1]
    rfl
  have hsel : (e.state n).id_ex.ex_alusel = .EXE_RES_MOVE := by
    refine (congrArg ID_EX.Slot.ex_alusel hid).trans ?_
    rw [id_output, hdec, decode_mfc0 h.mfc0.1]
    rfl
  have hrd : (e.state n).id_ex.ex_inst.extractLsb' 11 5 = r.num := by
    rw [hin.inst]
    exact h.mfc0.2
  have hread : cp0_data_output (e.state n) (e.input n) =
      r.shown (e.input n).int_input (r.content (e.state n).cp0) := by
    rw [cp0_data_output, cp0_raddr, EX.cp0_reg_read_addr_output, if_pos ⟨e.input_rst n, hop⟩, hrd,
      e.input_rst n, cp0_reg.data_output_eq]
  simp only [ex_output, ex_wdata_output, hsel, EX.wdata_output, ex_moveres, EX.moveres, hop, hrd,
    hread, e.input_rst n, Bool.false_eq_true, if_false]

theorem value_of_lt (hr : r ≠ .Count) (hk : k < n) :
    (ex_output (e.state n) (e.input n)).mem_wdata = e.readback r k n := by
  have hwb : ((wb_cp0 (e.state n)).we && (wb_cp0 (e.state n)).write_addr == r.num) = false := by
    cases hslot : (e.slots n).wb with
    | none => simp [wb_cp0, (mem2wb_idle hslot).cp0_reg_we]
    | some w =>
      obtain ⟨m, j, -, -, hx, -⟩ := wb_cp0_of_wb hslot
      rw [hx]
      exact (h.harmless_wb hk le_rfl hslot).unnamed _
  rw [h.value, h.mem_unnamed hk.le, hwb, if_neg Bool.false_ne_true, if_neg Bool.false_ne_true]
  exact (h.content hr hk le_rfl).shown _

theorem value_of_ge (hk : n ≤ k) : (ex_output (e.state n) (e.input n)).mem_wdata = e.cp0Data k := by
  have hwrite (i : ℕ) (hi : (e.slots i).wb = some t) :
      (wb_cp0 (e.state i)).we = true ∧ (wb_cp0 (e.state i)).write_addr = r.num := by
    obtain ⟨m, -, hx, -⟩ := wb_cp0_of_mtc0 hi (aluop_of_isMtc0 h.mtc0.1)
    rw [hx]
    exact ⟨rfl, h.mtc0.2⟩
  obtain rfl | hlt := hk.eq_or_lt
  · rw [h.value, h.mem_unnamed le_rfl, (hwrite n h.wb).1, (hwrite n h.wb).2]
    simp [cp0Data]
  · -- the `MTC0` has not retired before cycle `n`, so it is in MEM and moves on with the `MFC0`
    have hpassed : t ∈ Passed e.ctl (fun n => (e.state n).if_pc_reg.chip_enable_flag) n := by
      rw [passed_eq h.executed.2]
      exact ⟨h.younger, delivered_of_occupies (.of_wb h.wb), fun j _ hsq => hsq.wb_ne k h.wb⟩
    obtain ⟨j, hj, hwb⟩ | hmem := hpassed
    · exact absurd (wb_unique hwb h.wb) (by omega)
    have hslot : (e.slots n).mem = some t := hmem
    have hnext : (e.slots (n + 1)).wb = some t ∧
        (e.state (n + 1)).mem2wb = mem_output (e.state n) (e.input n) := by
      obtain hctl | hctl := h.executed.1 <;> simp [slots_succ, mem2wb_succ, hctl, hslot]
    obtain rfl : n + 1 = k := wb_unique hnext.1 h.wb
    have hsame : mem_cp0 (e.state n) (e.input n) = wb_cp0 (e.state (n + 1)) := by
      rw [wb_cp0, hnext.2]
      rfl
    rw [h.value, hsame, (hwrite _ h.wb).1, (hwrite _ h.wb).2]
    simp [cp0Data]

end ReadAfterWrite

/-- CP0 read after write. For every register but Count and every distance between an `MTC0` and an
`MFC0` of it without an exception or another write in between, the read returns the content after
the masked write, apart from the interrupt lines in Cause, exactly when the `MTC0` has left the
pipeline or the whole value it writes agrees with what the register then shows. -/
theorem cp0_read_after_write (e : Execution) (r : Cp0Reg) (t u k n : ℕ) (hr : r ≠ .Count)
    (h : e.ReadAfterWrite r t u k n) :
    r.Same (ex_output (e.state n) (e.input n)).mem_wdata (e.readback r k n) ↔
      k < n ∨ r.Same (e.cp0Data k) (e.readback r k n) := by
  obtain hk | hk := Nat.lt_or_ge k n
  · simp only [hk, true_or, iff_true]
    exact .of_eq (h.value_of_lt hr hk)
  · rw [h.value_of_ge hk]
    simp [hk.not_gt]

/-- `lui $1, 0xFFFF; mtc0 $1, $15; nop; mfc0 $2, $15`. -/
def farRead : Execution := straight 0#8 [0x3C01FFFF#32, 0x40817800#32, 0x00000000#32, 0x40027800#32]

/-- The read after the `MTC0` has left the pipeline shows what EBase holds. -/
theorem cp0_read_after_write_nop :
    farRead.readback .EBase 9 11 = 0xBFFF0000#32 ∧
      (ex_output (farRead.state 11) (farRead.input 11)).mem_wdata = 0xBFFF0000#32 := by
  have hwrite : ∀ w < 8, 4 < w → farRead.Delivered w → Harmless .EBase (farRead.inst w) := by
    decide +kernel
  have hctl : ∀ j < 11, 9 ≤ j → farRead.ctl j ≠ .flush := by decide +kernel
  have hback : farRead.readback .EBase 9 11 = 0xBFFF0000#32 := by decide +kernel
  have h : farRead.ReadAfterWrite .EBase 4 8 9 11 :=
    { mtc0 := by decide +kernel
      mfc0 := by decide +kernel
      younger := by decide
      wb := by decide +kernel
      executed := ⟨by decide +kernel, by decide +kernel⟩
      no_exception := fun j hk hn => hctl j hn hk
      no_write := fun w ht hu => hwrite w hu ht }
  have hsame := (cp0_read_after_write farRead .EBase 4 8 9 11 (by decide) h).mpr (.inl (by decide))
  exact ⟨hback, hback ▸ hsame⟩

/-- `lui $1, 0xFFFF; mtc0 $1, $15; mfc0 $2, $15`. -/
def nearRead : Execution := straight 0#8 [0x3C01FFFF#32, 0x40817800#32, 0x40027800#32]

/-- The read right after the `MTC0` returns the whole word written, not what EBase then holds. -/
theorem nearRead_unmasked :
    nearRead.ReadAfterWrite .EBase 4 6 9 9 ∧ nearRead.readback .EBase 9 9 = 0xBFFF0000#32 ∧
      (ex_output (nearRead.state 9) (nearRead.input 9)).mem_wdata = 0xFFFF0000#32 := by
  have hwrite : ∀ w < 6, 4 < w → nearRead.Delivered w → Harmless .EBase (nearRead.inst w) := by
    decide +kernel
  refine ⟨?_, by decide +kernel, by decide +kernel⟩
  exact
    { mtc0 := by decide +kernel
      mfc0 := by decide +kernel
      younger := by decide
      wb := by decide +kernel
      executed := ⟨by decide +kernel, by decide +kernel⟩
      no_exception := fun j hk hn => absurd hk (by omega)
      no_write := fun w ht hu => hwrite w hu ht }

end CPU_TOP.Execution

end mips32s
