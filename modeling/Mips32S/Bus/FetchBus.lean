import Mips32S.Bus.Interface
import Mips32S.Pipeline.Stages

namespace mips32s.CPU_TOP

open pipeline

/-- The instruction side starts a bus transaction in this cycle. -/
def IStarts (s : State) (i : Input) : Prop :=
  wishbone_bus.Starts (flush s i) (ibus_request s i) s.iwishbone

section
variable {s : State} {i : Input}

theorem iwishbone_step (hrst : i.rst = false) :
    (step s i).iwishbone = wishbone_bus.next false (bubble s i) (flush s i) (ibus_request s i)
      i.iwishbone_ack_input i.iwishbone_data_input s.iwishbone := by
  simp only [step, hrst]

theorem bubblereq_from_if_eq (hrst : i.rst = false) :
    bubblereq_from_if s i =
      wishbone_bus.stallreq false (flush s i)
        (ibus_request s i) i.iwishbone_ack_input s.iwishbone := by
  simp only [bubblereq_from_if, hrst]

theorem IStarts.chip_enable (h : IStarts s i) : s.if_pc_reg.chip_enable_flag = true := by
  have hce : rom_ce s i = true := h.2.1
  simp only [rom_ce, Bool.and_eq_true] at hce
  exact hce.1

theorem IStarts.ctl (hrst : i.rst = false) (h : IStarts s i) :
    CPU_TOP.ctl s i ≠ .go ∧ CPU_TOP.ctl s i ≠ .flush := by
  constructor
  · intro hgo
    have hreq := ((ctl_eq_go_iff hrst).mp hgo).2.2.2
    rw [bubblereq_from_if_eq hrst, wishbone_bus.Starts.stallreq h] at hreq
    exact absurd hreq (by decide)
  · rw [Ne, ctl_eq_flush_iff hrst, not_not]
    exact (flush_eq_false_iff hrst).mp h.2.2

end

namespace Execution

variable {e : Execution} {n a t : ℕ}

def IStarts (e : Execution) (n : ℕ) : Prop := CPU_TOP.IStarts (e.state n) (e.input n)

/-- The instruction bus has a transaction pending at the beginning of cycle `n`. -/
def IBusy (e : Execution) (n : ℕ) : Prop := (e.state n).iwishbone.wishbone_state = .WB_BUSY

/-- The instruction bus buffers an acknowledged word at the beginning of cycle `n`. -/
def IWait (e : Execution) (n : ℕ) : Prop :=
  (e.state n).iwishbone.wishbone_state = .WB_WAIT_FOR_STALL

/-- In cycle `b` the bus returns the word of the transaction started in cycle `a`. -/
structure Returns (e : Execution) (a b : ℕ) : Prop where
  lt : a < b
  busy : e.IBusy b
  ack : (e.input b).iwishbone_ack_input = true
  drives : wishbone_bus.Drives (ibus_request (e.state a) (e.input a)) (e.state b).iwishbone

/-- The instruction bus works at cycle `n` on the fetch started in cycle `a`: the
program counter has not moved since, and the word is still awaited or is buffered. -/
structure Fetching (e : Execution) (a n : ℕ) : Prop where
  lt : a < n
  starts : e.IStarts a
  pc : (e.state n).if_pc_reg.PC_output = (e.state a).if_pc_reg.PC_output
  quiet : ∀ k, a ≤ k → k < n → e.ctl k ≠ .go ∧ e.ctl k ≠ .flush
  awaited : e.IBusy n →
    wishbone_bus.Drives (ibus_request (e.state a) (e.input a)) (e.state n).iwishbone
  buffered : e.IWait n → ∃ b < n, e.Returns a b ∧
    (e.state n).iwishbone.rd_buf = (e.input b).iwishbone_data_input

theorem PC_output_hold (hce : (e.state n).if_pc_reg.chip_enable_flag = true)
    (hctl : e.ctl n ≠ .go ∧ e.ctl n ≠ .flush) :
    (e.state (n + 1)).if_pc_reg.PC_output = (e.state n).if_pc_reg.PC_output := by
  rw [state_succ, PC_output_step (e.input_rst n) hce]
  obtain hc | hc := Ctl.hold_cases hctl
  · rw [show CPU_TOP.ctl (e.state n) (e.input n) = _ from hc]
  · rw [show CPU_TOP.ctl (e.state n) (e.input n) = _ from hc]

theorem IStarts.fetching (h : e.IStarts n) : e.Fetching n (n + 1) := by
  have hrst := e.input_rst n
  have hctl : e.ctl n ≠ .go ∧ e.ctl n ≠ .flush := CPU_TOP.IStarts.ctl hrst h
  refine ⟨Nat.lt_succ_self n, h, PC_output_hold (CPU_TOP.IStarts.chip_enable h) hctl, ?_,
    fun _ => ?_, fun hwait => ?_⟩
  · intro k hlo hhi
    obtain rfl : k = n := by omega
    exact hctl
  · rw [state_succ, iwishbone_step hrst]
    exact wishbone_bus.Starts.drives h
  · rw [IWait, state_succ, iwishbone_step hrst, wishbone_bus.Starts.busy h] at hwait
    exact absurd hwait (by decide)

theorem Fetching.chip_enable (h : e.Fetching a n) :
    (e.state n).if_pc_reg.chip_enable_flag = true := by
  obtain ⟨m, rfl⟩ : ∃ m, n = m + 1 := ⟨n - 1, by have := h.lt; omega⟩
  exact chip_enable_succ m

theorem Fetching.succ (h : e.Fetching a n) (hctl : e.ctl n ≠ .go ∧ e.ctl n ≠ .flush)
    (hibus : (e.state n).iwishbone.wishbone_state ≠ .WB_IDLE) : e.Fetching a (n + 1) := by
  have hrst := e.input_rst n
  have hflush := flush_eq_false hctl.2
  have hlt := h.lt
  refine ⟨by omega, h.starts, (PC_output_hold h.chip_enable hctl).trans h.pc, ?_, ?_, ?_⟩
  · intro k hlo hhi
    obtain hk | rfl : k < n ∨ k = n := by omega
    · exact h.quiet k hlo hk
    · exact hctl
  · intro hbusy
    rw [IBusy, state_succ, iwishbone_step hrst] at hbusy
    rw [state_succ, iwishbone_step hrst]
    obtain hstart | ⟨hprev, hack, -⟩ := wishbone_bus.busy_cases hbusy
    · exact absurd hstart.1 hibus
    · exact (h.awaited hprev).next hprev hack hflush
  · intro hwait
    rw [IWait, state_succ, iwishbone_step hrst] at hwait
    rw [state_succ, iwishbone_step hrst]
    obtain ⟨hstall, ⟨hs, hack⟩ | hs⟩ := wishbone_bus.wait_cases hwait
    · refine ⟨n, Nat.lt_succ_self n, ⟨hlt, hs, hack, h.awaited hs⟩, ?_⟩
      simp [wishbone_bus.next, wishbone_bus.State.advance, hs, hack, ibus_request]
    · obtain ⟨b, hb, hret, hbuf⟩ := h.buffered hs
      refine ⟨b, by omega, hret, ?_⟩
      simp [wishbone_bus.next, wishbone_bus.State.advance, hs, hstall, hbuf]

theorem ibus_idle_of_not_starts (hs : (e.state n).iwishbone.wishbone_state = .WB_IDLE)
    (hno : ¬ e.IStarts n) :
    (e.state (n + 1)).iwishbone.wishbone_state = .WB_IDLE := by
  have hce : ((ibus_request (e.state n) (e.input n)).cpu_ce && !flush (e.state n) (e.input n)) =
      false := by
    by_contra h
    simp only [Bool.not_eq_false, Bool.and_eq_true, Bool.not_eq_true'] at h
    exact hno ⟨hs, h.1, h.2⟩
  rw [state_succ, iwishbone_step (e.input_rst n), wishbone_bus.wishbone_state_next, hs]
  simp [hce]

theorem ibus_ne_idle_of_hold (hs : (e.state n).iwishbone.wishbone_state ≠ .WB_IDLE)
    (hctl : e.ctl n ≠ .go ∧ e.ctl n ≠ .flush) :
    (e.state (n + 1)).iwishbone.wishbone_state ≠ .WB_IDLE := by
  have hrst := e.input_rst n
  have hstall : bubble (e.state n) (e.input n) ≠ 0#6 := fun h =>
    ((bubble_eq_zero_iff hrst).mp h).elim hctl.1 hctl.2
  have hflush := flush_eq_false hctl.2
  rw [state_succ, iwishbone_step hrst, wishbone_bus.wishbone_state_next]
  cases hst : (e.state n).iwishbone.wishbone_state with
  | WB_IDLE => exact absurd hst hs
  | WB_BUSY => cases hack : (e.input n).iwishbone_ack_input <;> simp [hstall, hflush]
  | WB_WAIT_FOR_STALL => simp [hstall]

theorem ibus_ne_idle_of_waiting (hif : bubblereq_from_if (e.state n) (e.input n) = true)
    (hctl : e.ctl n ≠ .go ∧ e.ctl n ≠ .flush) :
    (e.state (n + 1)).iwishbone.wishbone_state ≠ .WB_IDLE := by
  have hrst := e.input_rst n
  by_cases hs : (e.state n).iwishbone.wishbone_state = .WB_IDLE
  · rw [bubblereq_from_if_eq hrst, wishbone_bus.stallreq, hs] at hif
    rw [state_succ, iwishbone_step hrst, wishbone_bus.wishbone_state_next, hs]
    simp_all
  · exact ibus_ne_idle_of_hold hs hctl

theorem ibus_idle_succ (hctl : e.ctl n = .go ∨ e.ctl n = .flush) :
    (e.state (n + 1)).iwishbone.wishbone_state = .WB_IDLE := by
  have hrst := e.input_rst n
  have hstall : bubble (e.state n) (e.input n) = 0#6 := (bubble_eq_zero_iff hrst).mpr hctl
  cases hs : (e.state n).iwishbone.wishbone_state with
  | WB_WAIT_FOR_STALL =>
      simp [state_succ, iwishbone_step hrst, wishbone_bus.wishbone_state_next, hs, hstall]
  | WB_IDLE =>
    refine ibus_idle_of_not_starts hs fun hst => ?_
    obtain ⟨hgo, hfl⟩ := CPU_TOP.IStarts.ctl hrst hst
    exact hctl.elim hgo hfl
  | WB_BUSY =>
    rw [state_succ, iwishbone_step hrst, wishbone_bus.wishbone_state_next, hs, hstall]
    obtain hgo | hfl := hctl
    · have hreq := ((ctl_eq_go_iff hrst).mp hgo).2.2.2
      rw [bubblereq_from_if_eq hrst, wishbone_bus.stallreq, hs] at hreq
      simp_all
    · simp [(flush_iff n).mpr hfl]

/-- In every reachable state a busy or buffering instruction bus works on the fetch
of the current program counter. -/
theorem exists_fetching (h : (e.state n).iwishbone.wishbone_state ≠ .WB_IDLE) :
    ∃ a, e.Fetching a n := by
  induction n with
  | zero => exact absurd ibus_idle_zero h
  | succ n ih =>
    have hrst := e.input_rst n
    have hctl : e.ctl n ≠ .go ∧ e.ctl n ≠ .flush :=
      ⟨fun hgo => h (ibus_idle_succ (.inl hgo)), fun hfl => h (ibus_idle_succ (.inr hfl))⟩
    by_cases hs : (e.state n).iwishbone.wishbone_state = .WB_IDLE
    · have hstart : e.IStarts n := by
        by_contra hno
        exact h (ibus_idle_of_not_starts hs hno)
      exact ⟨n, hstart.fetching⟩
    · obtain ⟨a, ha⟩ := ih hs
      exact ⟨a, ha.succ hctl hs⟩

theorem ibus_ne_idle_of_go (hgo : e.ctl n = .go)
    (hce : (e.state n).if_pc_reg.chip_enable_flag = true)
    (hmiss : mmu_is_tlbl_inst (e.state n) (e.input n) = false) :
    (e.state n).iwishbone.wishbone_state ≠ .WB_IDLE := by
  have hrst := e.input_rst n
  intro hs
  obtain ⟨hexc, -, -, hreq⟩ := (ctl_eq_go_iff hrst).mp hgo
  rw [bubblereq_from_if_eq hrst, wishbone_bus.stallreq, (flush_eq_false_iff hrst).mpr hexc,
    hs] at hreq
  simp [ibus_request, rom_ce, hmiss, hce] at hreq

/-- What an instruction delivered without a miss has been through: its transaction
was started in cycle `a` at its own address, the word came back in cycle `b`, and
nothing was delivered or flushed in between. -/
theorem delivered_word (hdel : e.Delivered t) (hmiss : (e.fetched t).is_inst_tlbl_output = false) :
    ∃ a b, b ≤ t ∧ e.Fetching a t ∧ e.Returns a b ∧
      e.inst t = (e.input b).iwishbone_data_input := by
  have hrst := e.input_rst t
  obtain ⟨hgo, hce⟩ := hdel
  have hreq := ((ctl_eq_go_iff hrst).mp hgo).2.2.2
  have hmiss' : mmu_is_tlbl_inst (e.state t) (e.input t) = false := hmiss
  have hinst : e.inst t = inst_input (e.state t) (e.input t) := by
    simp [inst, fetched, if_output, hmiss']
  rw [bubblereq_from_if_eq hrst, wishbone_bus.stallreq] at hreq
  rw [hinst, inst_input, wishbone_bus.cpu_data_output]
  cases hs : (e.state t).iwishbone.wishbone_state with
  | WB_IDLE => exact absurd hs (ibus_ne_idle_of_go hgo hce hmiss')
  | WB_BUSY =>
    rw [hs] at hreq
    have hack : (e.input t).iwishbone_ack_input = true := by simpa using hreq
    obtain ⟨a, ha⟩ := exists_fetching (e := e) (n := t) (by simp [hs])
    refine ⟨a, t, le_rfl, ha, ⟨ha.lt, hs, hack, ha.awaited hs⟩, ?_⟩
    have hwe : (e.state t).iwishbone.wishbone_we_output = false := (ha.awaited hs).we
    simp [hrst, hack, hwe]
  | WB_WAIT_FOR_STALL =>
    obtain ⟨a, ha⟩ := exists_fetching (e := e) (n := t) (by simp [hs])
    obtain ⟨b, hb, hret, hbuf⟩ := ha.buffered hs
    exact ⟨a, b, hb.le, ha, hret, by simp [hrst, hbuf]⟩

end Execution

end mips32s.CPU_TOP
