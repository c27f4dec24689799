import Mips32S.Isa.Alu
import Mips32S.Pipeline.Stages

namespace mips32s.CPU_TOP

open pipeline

/-- HI and LO after an instruction with the operands `x` and `y`, from those before it. -/
def writtenHilo (op : AluOp) (x y : Word) (hilo : Word × Word) : Word × Word :=
  match op with
  | .EXE_MTHI_OP => (x, hilo.2)
  | .EXE_MTLO_OP => (hilo.1, x)
  | op =>
    match Isa.product? op with
    | some g => ((g x y).extractLsb' 32 32, (g x y).extractLsb' 0 32)
    | none => hilo

/-- HI and LO after the instruction in WB. -/
def settledHilo (s : State) : Word × Word := hilo_reg.next false (wb_hilo s) s.hilo

section
variable {s : State} {i : Input}

theorem hilo_output_eq_written (hrst : i.rst = false) (hop : s.id_ex.ex_aluop.writesHilo = true) :
    (ex_hilo_output s i).whilo = true ∧
      ((ex_hilo_output s i).hi, (ex_hilo_output s i).lo) =
        writtenHilo s.id_ex.ex_aluop s.id_ex.ex_reg1 s.id_ex.ex_reg2 (ex_HILO s i) := by
  unfold ex_hilo_output ex_mulres
  rw [hrst]
  generalize s.id_ex.ex_aluop = op at hop ⊢
  cases op with
  | EXE_MTHI_OP | EXE_MTLO_OP => exact ⟨rfl, rfl⟩
  | EXE_MULT_OP | EXE_MULTU_OP =>
    rw [EX.hilo_output_eq rfl]
    exact ⟨rfl, rfl⟩
  | _ => cases hop

theorem ex_HILO_eq (hrst : i.rst = false) :
    ex_HILO s i = if s.ex2mem.mem_whilo then (s.ex2mem.mem_hi, s.ex2mem.mem_lo)
      else settledHilo s := by
  simp only [ex_HILO, EX.HILO, mem_hilo, mem_output, settledHilo, hilo_reg.next, hrst,
    Bool.false_eq_true, if_false, Bool.not_false, Bool.true_and]

end

namespace Execution

variable {e : Execution} {n t : ℕ}

theorem hilo_succ (n : ℕ) : (e.state (n + 1)).hilo = settledHilo (e.state n) := by
  simp only [state_succ, step, e.input_rst n, settledHilo]

theorem settledHilo_succ_of_passes (h : (e.ctl n).Passes) :
    settledHilo (e.state (n + 1)) = ex_HILO (e.state n) (e.input n) := by
  have hwb : (e.state (n + 1)).mem2wb = mem_output (e.state n) (e.input n) := by
    obtain hctl | hctl := h <;> rw [mem2wb_succ, hctl]
  rw [settledHilo, hilo_succ, wb_hilo, hwb, ex_HILO_eq (e.input_rst n)]
  simp only [hilo_reg.next, mem_output, e.input_rst n, Bool.false_eq_true, if_false, Bool.not_false,
    Bool.true_and]

theorem settledHilo_succ_of_bubble (h : (e.state (n + 1)).mem2wb = .bubble) :
    settledHilo (e.state (n + 1)) = settledHilo (e.state n) := by
  rw [← hilo_succ n, settledHilo, wb_hilo, h]
  rfl

/-- Instruction `u` writes HI and LO. -/
def HiloWriter (e : Execution) (u : ℕ) : Prop := (ID.decode (e.inst u)).aluop.writesHilo = true

/-- Instruction `u` is squashed in cycle `k`. -/
def Squashed (e : Execution) (u k : ℕ) : Prop :=
  SquashedAt e.ctl (fun n => (e.state n).if_pc_reg.chip_enable_flag) u k

/-- The HI/LO writers that have reached WB. -/
def retiredWriters (e : Execution) (n : ℕ) : Set ℕ :=
  {u | u ∈ Retired e.ctl (fun n => (e.state n).if_pc_reg.chip_enable_flag) n ∧ e.HiloWriter u}

/-- The HI/LO writers that are past EX and not squashed. -/
def passedWriters (e : Execution) (n : ℕ) : Set ℕ :=
  {u | u ∈ Passed e.ctl (fun n => (e.state n).if_pc_reg.chip_enable_flag) n ∧ e.HiloWriter u}

/-- The pair HI/LO established by a set of HI/LO writers that execute in program order, each with
the operands it has when it leaves EX. -/
inductive Established (e : Execution) : Set ℕ → Word × Word → Prop
  | reset : Established e ∅ (ZeroWord, ZeroWord)
  | write {older : Set ℕ} {hilo : Word × Word} {u m : ℕ} (h : Established e older hilo)
      (hyoungest : ∀ v ∈ older, v < u) (hex : e.ExecutedAt u m) :
      Established e (insert u older) (writtenHilo (ID.decode (e.inst u)).aluop
        (e.state m).id_ex.ex_reg1 (e.state m).id_ex.ex_reg2 hilo)

/-- The writers that have retired have established the pair after WB, and those that have passed EX
the pair that EX uses. -/
structure HiloInv (e : Execution) (n : ℕ) : Prop where
  retired : e.Established (e.retiredWriters n) (settledHilo (e.state n))
  passed : e.Established (e.passedWriters n) (ex_HILO (e.state n) (e.input n))

theorem hiloInv_zero : e.HiloInv 0 := by
  have hretired : e.retiredWriters 0 = ∅ := by
    ext u
    simp [retiredWriters, Retired, pipeline.slots, Slots.empty]
  have hpassed : e.passedWriters 0 = ∅ := by
    ext u
    simp [passedWriters, Passed, Retired, pipeline.slots, Slots.empty]
  have hwb : (e.state 0).mem2wb = .bubble := congrArg Regs.wb regs_zero
  have hmem : (e.state 0).ex2mem = .bubble := congrArg Regs.mem regs_zero
  have hhilo : (e.state 0).hilo = (ZeroWord, ZeroWord) := by
    simp only [state, step, hilo_reg.next, e.reset1_rst, if_true]
  have hsettled : settledHilo (e.state 0) = (ZeroWord, ZeroWord) := by
    rw [settledHilo, wb_hilo, hwb, hhilo]
    rfl
  have hused : ex_HILO (e.state 0) (e.input 0) = (ZeroWord, ZeroWord) := by
    rw [ex_HILO_eq (e.input_rst 0), hmem, hsettled]
    rfl
  exact ⟨by rw [hretired, hsettled]; exact .reset, by rw [hpassed, hused]; exact .reset⟩

theorem Established.passes (h : e.Established (e.passedWriters n) (ex_HILO (e.state n) (e.input n)))
    (hpass : (e.ctl n).Passes) :
    e.Established (e.passedWriters (n + 1)) (ex_HILO (e.state (n + 1)) (e.input (n + 1))) := by
  have hmem : (e.state (n + 1)).ex2mem = ex_output (e.state n) (e.input n) := by
    obtain hctl | hctl := hpass <;> rw [ex2mem_succ, hctl]
  have hused : ex_HILO (e.state (n + 1)) (e.input (n + 1)) =
      if (ex_hilo_output (e.state n) (e.input n)).whilo then
        ((ex_hilo_output (e.state n) (e.input n)).hi, (ex_hilo_output (e.state n) (e.input n)).lo)
      else ex_HILO (e.state n) (e.input n) := by
    rw [ex_HILO_eq (e.input_rst _), hmem, settledHilo_succ_of_passes hpass]
    rfl
  have hset : e.passedWriters (n + 1) =
      {u | u ∈ e.passedWriters n ∨ (e.slots n).ex = some u ∧ e.HiloWriter u} := by
    ext u
    simp only [passedWriters, (passed_of_passes hpass).2, Set.mem_ofPred_eq, slots]
    tauto
  cases hslot : (e.slots n).ex with
  | none =>
    have hidle : (ex_hilo_output (e.state n) (e.input n)).whilo = false :=
      (ex_output_idle (id_ex_idle hslot)).whilo
    rw [hused, hidle, hset]
    simpa [hslot] using h
  | some t =>
    have hop := (inEx hslot).aluop
    by_cases hwriter : e.HiloWriter t
    · have hwhilo : (e.state n).id_ex.ex_aluop.writesHilo = true := by rwa [hop]
      obtain ⟨hflag, hpair⟩ := hilo_output_eq_written (e.input_rst n) hwhilo
      have hinsert : e.passedWriters (n + 1) = insert t (e.passedWriters n) := by
        rw [hset]
        ext u
        grind
      rw [hused, hflag, if_pos rfl, hpair, hop, hinsert]
      refine h.write (fun v hv => ?_) ⟨hpass, hslot⟩
      have hv' := hv.1
      rw [passed_eq hslot] at hv'
      exact hv'.1
    · have hflag : (ex_hilo_output (e.state n) (e.input n)).whilo = false := by
        rw [ex_hilo_output, e.input_rst n, hilo_output_whilo, hop]
        exact Bool.not_eq_true _ ▸ hwriter
      have hsame : e.passedWriters (n + 1) = e.passedWriters n := by
        rw [hset]
        ext u
        grind
      rwa [hused, hflag, hsame]

theorem HiloInv.succ (h : e.HiloInv n) : e.HiloInv (n + 1) := by
  cases hctl : e.ctl n with
  | go | holdDecode =>
    have hpass : (e.ctl n).Passes := by simp [Ctl.Passes, hctl]
    have hretired : e.retiredWriters (n + 1) = e.passedWriters n := by
      simp only [retiredWriters, passedWriters, (passed_of_passes hpass).1]
    refine ⟨?_, h.passed.passes hpass⟩
    rw [hretired, settledHilo_succ_of_passes hpass]
    exact h.passed
  | holdMem =>
    have hwb : (e.state (n + 1)).mem2wb = .bubble := by rw [mem2wb_succ, hctl]
    have hmem : (e.state (n + 1)).ex2mem = (e.state n).ex2mem := by rw [ex2mem_succ, hctl]
    constructor
    · rw [retiredWriters, (passed_of_holdMem hctl).1, settledHilo_succ_of_bubble hwb]
      exact h.retired
    · rw [passedWriters, (passed_of_holdMem hctl).2, ex_HILO_eq (e.input_rst _), hmem,
        settledHilo_succ_of_bubble hwb,
        ← ex_HILO_eq (e.input_rst n)]
      exact h.passed
  | flush =>
    have hwb : (e.state (n + 1)).mem2wb = .bubble := by rw [mem2wb_succ, hctl]
    have hmem : (e.state (n + 1)).ex2mem = .bubble := by rw [ex2mem_succ, hctl]
    constructor
    · rw [retiredWriters, (passed_of_flush hctl).1, settledHilo_succ_of_bubble hwb]
      exact h.retired
    · rw [passedWriters, (passed_of_flush hctl).2, ex_HILO_eq (e.input_rst _), hmem,
        settledHilo_succ_of_bubble hwb]
      exact h.retired

theorem hiloInv (n : ℕ) : e.HiloInv n := by
  induction n with
  | zero => exact hiloInv_zero
  | succ n ih => exact ih.succ

/-- The visibility of HI and LO. In every run and for any stalls, the pair used by an instruction in
EX is the one established, in program order, by all older multiplications and moves to HI or LO that
have not been squashed, wherever they are; the youngest of them writes last, and a move keeps
the other half that the writer before it has established. -/
theorem hilo_visible (e : Execution) (n t : ℕ) (hex : (e.slots n).ex = some t) :
    e.Established
      {u | u < t ∧ e.Delivered u ∧ (∀ k < n, ¬ e.Squashed u k) ∧ e.HiloWriter u}
      (ex_HILO (e.state n) (e.input n)) := by
  have hset : e.passedWriters n =
      {u | u < t ∧ e.Delivered u ∧ (∀ k < n, ¬ e.Squashed u k) ∧ e.HiloWriter u} := by
    rw [passedWriters, passed_eq hex]
    ext u
    simp only [Set.mem_ofPred_eq, and_assoc]
    rfl
  rw [← hset]
  exact (e.hiloInv n).passed

/-- `ori $1, $0, 5; mthi $1; mtlo $1; mfhi $2`. -/
def movedHilo : Execution :=
  straight 0#8 [0x34010005#32, 0x00200011#32, 0x00200013#32, 0x00001010#32]

/-- The last instruction uses the halves that the two moves before it have written. -/
theorem hilo_visible_mfhi :
    (movedHilo.slots 11).ex = some 8 ∧ movedHilo.HiloWriter 4 ∧ movedHilo.HiloWriter 6 ∧
      movedHilo.Established
        {u | u < 8 ∧ movedHilo.Delivered u ∧ (∀ k < 11, ¬ movedHilo.Squashed u k) ∧
          movedHilo.HiloWriter u} (5#32, 5#32) := by
  have hslot : (movedHilo.slots 11).ex = some 8 := by decide +kernel
  have hhilo : ex_HILO (movedHilo.state 11) (movedHilo.input 11) = (5#32, 5#32) := by
    decide +kernel
  exact ⟨hslot, by unfold HiloWriter; decide +kernel, by unfold HiloWriter; decide +kernel,
    hhilo ▸ hilo_visible movedHilo 11 8 hslot⟩

end Execution

end mips32s.CPU_TOP
