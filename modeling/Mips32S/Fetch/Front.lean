import Mips32S.Bus.FetchBus
import Mips32S.Isa.Branch

namespace mips32s.CPU_TOP.Execution

open pipeline Isa
variable {e : Execution} {n t b : ℕ}

theorem PC_output_go (hce : (e.state n).if_pc_reg.chip_enable_flag = true) (hgo : e.ctl n = .go) :
    (e.state (n + 1)).if_pc_reg.PC_output =
      redirect (e.state n).if2id.PC_output (e.state n).if2id.inst_output
        (id_reg1_output (e.state n) (e.input n)) (id_reg2_output (e.state n) (e.input n))
        ((e.state n).if_pc_reg.PC_output + 4#32) := by
  have hrst := e.input_rst n
  rw [state_succ, PC_output_step hrst hce, show CPU_TOP.ctl (e.state n) (e.input n) = .go from hgo]
  simp only [id_branch_flag_output, branch_target_addr, hrst]
  exact ID.branch_redirect _ _ _ _ _

theorem delayslot_go (hgo : e.ctl n = .go) :
    (e.state (n + 1)).id_ex.is_in_delayslot_output =
      (branch? (e.state n).if2id.inst_output).isSome := by
  have hrst := e.input_rst n
  rw [state_succ, is_in_delayslot_output_step hrst,
    show CPU_TOP.ctl (e.state n) (e.input n) = .go from hgo]
  simp only [id_decoded, hrst]
  exact ID.next_inst_in_delayslot_decode _

section
variable (hctl : e.ctl n ≠ .go ∧ e.ctl n ≠ .flush)
include hctl

theorem delayslot_hold :
    (e.state (n + 1)).id_ex.is_in_delayslot_output = (e.state n).id_ex.is_in_delayslot_output := by
  rw [state_succ, is_in_delayslot_output_step (e.input_rst n)]
  obtain hc | hc := Ctl.hold_cases hctl
  · rw [show CPU_TOP.ctl (e.state n) (e.input n) = _ from hc]
  · rw [show CPU_TOP.ctl (e.state n) (e.input n) = _ from hc]

omit hctl in
theorem PC_output_disabled (hce : (e.state n).if_pc_reg.chip_enable_flag = false) :
    (e.state (n + 1)).if_pc_reg.PC_output = ResetVector := by
  simp [state_succ, step, IF_PC_Reg.next, hce]

theorem slots_id_hold : (e.slots (n + 1)).id = (e.slots n).id := by
  obtain hc | hc := Ctl.hold_cases hctl <;> simp [slots_succ, hc]

theorem if2id_hold : (e.state (n + 1)).if2id = (e.state n).if2id := by
  rw [if2id_succ]
  obtain hc | hc := Ctl.hold_cases hctl <;> rw [hc]

end

theorem chip_enable_of_slot (h : (e.slots n).id = some t) :
    (e.state n).if_pc_reg.chip_enable_flag = true := by
  cases n with
  | zero => exact absurd h (by simp [slots, pipeline.slots, Slots.empty])
  | succ n => exact chip_enable_succ n

/-- The instruction in front of instruction `t`: the one in ID when `t` is delivered.
There is none after reset and after a flush. -/
def prev (e : Execution) (t : ℕ) : Option ℕ := (e.slots t).id

/-- Instruction `t` is in the delay slot of a branch or jump. -/
def inDelaySlot (e : Execution) (t : ℕ) : Bool :=
  (e.prev t).any fun b => (branch? (e.inst b)).isSome

theorem id_cases (h : (e.slots (n + 1)).id = some t) :
    (n = t ∧ e.ctl n = .go) ∨ ((e.slots n).id = some t ∧ e.ctl n ≠ .go ∧ e.ctl n ≠ .flush) := by
  rw [slots_succ] at h
  cases hctl : e.ctl n with
  | go =>
    rw [hctl] at h
    cases hce : (e.state n).if_pc_reg.chip_enable_flag <;> simp [hce] at h
    exact .inl ⟨h, rfl⟩
  | holdDecode => exact .inr ⟨by simpa [hctl] using h, by simp, by simp⟩
  | holdMem => exact .inr ⟨by simpa [hctl] using h, by simp, by simp⟩
  | flush => simp [hctl, Slots.empty] at h

theorem delayslot_of_id (h : (e.slots n).id = some t) :
    (e.state n).id_ex.is_in_delayslot_output = e.inDelaySlot t := by
  induction n with
  | zero => exact absurd h (by simp [slots, pipeline.slots, Slots.empty])
  | succ n ih =>
    obtain ⟨rfl, hgo⟩ | ⟨hid, hctl⟩ := id_cases h
    · rw [delayslot_go hgo, inDelaySlot, prev]
      cases hid : (e.slots n).id with
      | none =>
        rw [(if2id_idle hid).inst]
        rfl
      | some b =>
        rw [if2id_eq hid]
        rfl
    · rw [delayslot_hold hctl, ih hid]

theorem PC_output_of_id (h : (e.slots n).id = some t) :
    (e.state n).if_pc_reg.PC_output = (e.state (t + 1)).if_pc_reg.PC_output := by
  induction n with
  | zero => exact absurd h (by simp [slots, pipeline.slots, Slots.empty])
  | succ n ih =>
    obtain ⟨rfl, -⟩ | ⟨hid, hctl⟩ := id_cases h
    · rfl
    · rw [PC_output_hold (chip_enable_of_slot hid) hctl, ih hid]

theorem pc_eq_of_prev (h : e.prev t = some b) (hdelay : e.inDelaySlot b = false) :
    e.pc t = e.pc b + 4#32 := by
  have hdel : e.Delivered b := delivered_of_occupies (.of_id h)
  have hpc : e.pc t = (e.state (b + 1)).if_pc_reg.PC_output := PC_output_of_id h
  rw [hpc, PC_output_go hdel.2 hdel.1]
  have hbranch : branch? (e.state b).if2id.inst_output = none := by
    rw [inDelaySlot, prev] at hdelay
    cases hid : (e.slots b).id with
    | none =>
      rw [(if2id_idle hid).inst]
      decide
    | some a =>
      rw [if2id_eq hid]
      simpa [hid, inst] using hdelay
  rw [redirect, hbranch]
  rfl

end mips32s.CPU_TOP.Execution
