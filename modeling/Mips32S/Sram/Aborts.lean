import Mathlib.Tactic.IntervalCases
import Mips32S.Sram.Node

open Function

namespace mips32s.sram_top

namespace Ram

variable {b : Bus} {r : Ram} {j : ℕ}

/-- The chip takes the data lines at the next edge. -/
def writes (b : Bus) (r : Ram) : Bool := !baseram_ce b && !baseram_we b r.ctrl

/-- What a cycle shows: the contents of the chip, the acknowledge and the write pulse. -/
structure Sees (b : Bus) (r : Ram) (chip : Chip) (ack pulse : Bool) : Prop where
  chip : r.chip = chip
  ack : r.ctrl.wb_ack_o = ack
  pulse : r.writes b = pulse

/-- The access held on the lines for `j` cycles. -/
def held (b : Bus) : ℕ → Ram → Ram
  | 0, r => r
  | j + 1, r => held b j (r.step b)

/-- The word written, once it is prepared in the controller: the pulse comes one cycle later and the
acknowledge after it. The access held on for two more cycles does not write again. -/
theorem write_tail (hacc : wb_acc b = true) (hwe : b.wb_we_i = true) (hr : r.ctrl.Ready) (w : Word)
    (hj : j ≤ 3) :
    (held b j ⟨r.ctrl.toWrite w, r.chip⟩).Sees b
      (if j ≤ 1 then r.chip else update r.chip (baseram_addr b) w)
      (decide (j = 2)) (decide (j = 1)) := by
  obtain ⟨hst, hack, hoe, hw⟩ := hr
  interval_cases j <;> cases hall : all_select b <;> constructor <;>
    simp [held, Ram.step, State.toWrite, State.next, State.access, Chip.next, writes, baseram_we,
      baseram_ce, baseram_data, wb_rd, wb_wr, hacc, hwe, hack, hoe, hw, hall]

theorem held_succ (b : Bus) (j : ℕ) (r : Ram) : held b (j + 1) r = (held b j r).step b := by
  induction j generalizing r with
  | zero => rfl
  | succ j ih => exact ih (r.step b)

theorem step_chip (h : r.writes b = false) : (r.step b).chip = r.chip := by
  rw [step, Chip.next, if_neg (by rw [← writes, h]; exact Bool.false_ne_true)]

theorem writes_of_idle (h : wb_acc b = false) : r.writes b = false := by
  simp [writes, baseram_ce, h]

theorem writes_of_read (h : b.wb_we_i = false) : r.writes b = false := by
  simp [writes, baseram_we, wb_wr, h]

/-- The cycle of the write pulse, counted from the start of the access. -/
def writeCycle (b : Bus) : ℕ := if all_select b then 2 else 3

theorem write_held (hacc : wb_acc b = true) (hwe : b.wb_we_i = true) (hr : r.ctrl.Ready)
    (hj : j ≤ writeCycle b + 2) :
    (held b j r).Sees b
      (if j ≤ writeCycle b then r.chip
        else update r.chip (baseram_addr b) (b.written r.chip))
      (decide (j = writeCycle b + 1)) (decide (j = writeCycle b)) := by
  have hstart : r.Sees b r.chip false false :=
    ⟨rfl, hr.wb_ack_o, by simp [writes, baseram_we, hr.ram_we]⟩
  cases hall : all_select b with
  | true =>
    have hcycle : writeCycle b = 2 := if_pos hall
    rw [hcycle] at hj ⊢
    cases j with
    | zero => exact hstart
    | succ j =>
      have htail := write_tail hacc hwe hr (b.written r.chip) (show j ≤ 3 by omega)
      have hchip : j + 1 ≤ 2 ↔ j ≤ 1 := by omega
      have hack : j + 1 = 2 + 1 ↔ j = 2 := by omega
      have hpulse : j + 1 = 2 ↔ j = 1 := by omega
      rw [held, write_all hacc hwe hall hr]
      simp only [hchip, hack, hpulse]
      exact htail
  | false =>
    have hcycle : writeCycle b = 3 := if_neg (by simp [hall])
    rw [hcycle] at hj ⊢
    obtain ⟨hack, hsecond⟩ := write_some hacc hwe hall hr
    cases j with
    | zero => exact hstart
    | succ j =>
      cases j with
      | zero =>
        refine ⟨step_chip hstart.pulse, hack, ?_⟩
        obtain ⟨hst, -, -, hw⟩ := hr
        simp [held, writes, step, State.next, State.access, baseram_we, wb_rd, wb_wr, hacc, hwe,
          hall, hst, hw]
      | succ j =>
        have htail := write_tail hacc hwe hr (b.written r.chip) (show j ≤ 3 by omega)
        have hchip : j + 1 + 1 ≤ 3 ↔ j ≤ 1 := by omega
        have hack : j + 1 + 1 = 3 + 1 ↔ j = 2 := by omega
        have hpulse : j + 1 + 1 = 3 ↔ j = 1 := by omega
        rw [held, held, hsecond]
        simp only [hchip, hack, hpulse]
        exact htail

theorem read_held (hacc : wb_acc b = true) (hwe : b.wb_we_i = false) (hr : r.ctrl.Ready)
    (hj : j ≤ 3) :
    (held b j r).ctrl.wb_ack_o = decide (j = 2) ∧ (j = 2 → (held b j r).ctrl.wb_data_o =
      merge b.wb_sel_i (r.chip (baseram_addr b)) ZeroWord) := by
  obtain ⟨hack, hdone⟩ := read hacc hwe hr
  interval_cases j
  · exact ⟨hr.wb_ack_o, fun h => absurd h (by decide)⟩
  · exact ⟨hack, fun h => absurd h (by decide)⟩
  · rw [held, held, held, hdone]
    exact ⟨rfl, fun _ => rfl⟩
  · rw [held, held, held, held, hdone]
    refine ⟨?_, fun h => absurd h (by decide)⟩
    simp [step, State.next, State.access, wb_rd, hacc, hwe]

end Ram

/-- A run of a controller with its chip, from the state a reset leaves. -/
structure Run where
  bus : ℕ → Bus
  start : Ram
  ready : start.ctrl.Ready

namespace Run

variable {e : Run} {a z n j : ℕ}

def state (e : Run) : ℕ → Ram
  | 0 => e.start
  | n + 1 => (state e n).step (e.bus n)

/-- The chip takes the data lines at the end of cycle `n`. -/
def writes (e : Run) (n : ℕ) : Bool := (e.state n).writes (e.bus n)

/-- A bus master that may take an access off the lines in any cycle: while it is on the lines it does
not change, and it does not stay longer than one cycle after the one that shows the acknowledge. -/
structure Master (e : Run) : Prop where
  keeps : ∀ n, wb_acc (e.bus n) = true → wb_acc (e.bus (n + 1)) = true → e.bus (n + 1) = e.bus n
  ends : ∀ n, wb_acc (e.bus n) = true → (e.state n).ctrl.wb_ack_o = true →
    wb_acc (e.bus (n + 1)) = true → wb_acc (e.bus (n + 2)) = false

/-- The processor's bus interface is such a master, whatever the stalls, flushes and requests. -/
theorem master_of_interface {s : ℕ → wishbone_bus.State} (hzero : Driven (s 0))
    (hbus : ∀ n, e.bus n = lines (s n))
    (hstep : ∀ n, ∃ stall flush req data,
      s (n + 1) = wishbone_bus.next false stall flush req (e.state n).ctrl.wb_ack_o data (s n)) :
    e.Master := by
  have hdriven (n : ℕ) : Driven (s n) := by
    induction n with
    | zero => exact hzero
    | succ n ih =>
      obtain ⟨stall, flush, req, data, heq⟩ := hstep n
      rw [heq]
      exact ih.next
  -- an access on the lines in two cycles running was neither acknowledged nor flushed
  have hkeep (n : ℕ) (h : wb_acc (e.bus n) = true) (h' : wb_acc (e.bus (n + 1)) = true) :
      (e.state n).ctrl.wb_ack_o = false ∧ e.bus (n + 1) = e.bus n := by
    rw [hbus, (hdriven n).wb_acc] at h
    rw [hbus, (hdriven (n + 1)).wb_acc] at h'
    obtain ⟨stall, flush, req, data, heq⟩ := hstep n
    rw [heq] at h'
    obtain ⟨hidle, -⟩ | ⟨hbusy, hack, hflush⟩ := wishbone_bus.busy_cases h'
    · exact absurd (hidle.symm.trans h) (by decide)
    · rw [hbus, hbus, heq]
      exact ⟨hack, lines_hold hbusy hack hflush⟩
  refine ⟨fun n h h' => (hkeep n h h').2, fun n h hack h' => ?_⟩
  rw [(hkeep n h h').1] at hack
  exact absurd hack (by decide)

/-- The cycles `a` to `z` are those of one access, acknowledged or aborted. -/
structure Transaction (e : Run) (a z : ℕ) : Prop where
  le : a ≤ z
  acc : ∀ n, a ≤ n → n ≤ z → wb_acc (e.bus n) = true
  before : a = 0 ∨ ∃ m, a = m + 1 ∧ wb_acc (e.bus m) = false
  after : wb_acc (e.bus (z + 1)) = false

/-- A write: the chip takes the word with the selected bytes replaced at the end of cycle `m`, if the
access is still on the lines, and this is before the acknowledge. -/
def Writes (e : Run) (a z : ℕ) : Prop :=
  ∃ m, (∀ n, a ≤ n → n ≤ z → (e.writes n = true ↔ n = m)) ∧
    (∀ n, a ≤ n → n ≤ z + 1 → (e.state n).chip = if n ≤ m then (e.state a).chip else
      update (e.state a).chip (baseram_addr (e.bus a))
        ((e.bus a).written (e.state a).chip)) ∧
    ∀ n, a ≤ n → n ≤ z → (e.state n).ctrl.wb_ack_o = true → m < n

/-- A read: the chip keeps its contents, and an acknowledge shows the selected bytes. -/
def Reads (e : Run) (a z : ℕ) : Prop :=
  (∀ n, a ≤ n → n ≤ z → e.writes n = false) ∧
    (∀ n, a ≤ n → n ≤ z + 1 → (e.state n).chip = (e.state a).chip) ∧
    ∀ n, a ≤ n → n ≤ z → (e.state n).ctrl.wb_ack_o = true → (e.state n).ctrl.wb_data_o =
      merge (e.bus a).wb_sel_i ((e.state n).chip (baseram_addr (e.bus a))) ZeroWord

namespace Transaction

variable (h : e.Transaction a z)
include h

theorem ready : (e.state a).ctrl.Ready := by
  obtain rfl | ⟨m, rfl, hidle⟩ := h.before
  · exact e.ready
  · exact (Ram.step_idle hidle).1

variable (hm : e.Master)
include hm

theorem bus_eq (ha : a ≤ n) (hz : n ≤ z) : e.bus n = e.bus a := by
  induction n, ha using Nat.le_induction with
  | base => rfl
  | succ n ha ih =>
    rw [hm.keeps n (h.acc n ha (by omega)) (h.acc (n + 1) (by omega) hz), ih (by omega)]

theorem state_eq (hz : a + j ≤ z + 1) : e.state (a + j) = Ram.held (e.bus a) j (e.state a) := by
  induction j with
  | zero => rfl
  | succ j ih =>
    rw [Ram.held_succ, ← ih (by omega), ← h.bus_eq hm (show a ≤ a + j by omega) (by omega)]
    rfl

theorem le_of_ack (ha : a ≤ n) (hz : n ≤ z) (hack : (e.state n).ctrl.wb_ack_o = true) :
    z ≤ n + 1 := by
  by_contra hlong
  have hlast := hm.ends n (h.acc n ha hz) hack (h.acc (n + 1) (by omega) (by omega))
  rw [h.acc (n + 2) (by omega) (by omega)] at hlast
  exact absurd hlast (by decide)

section
variable (hwe : (e.bus a).wb_we_i = true)
include hwe

theorem sees (hz : a + j ≤ z + 1) (hj : j ≤ Ram.writeCycle (e.bus a) + 2) :
    (e.state (a + j)).Sees (e.bus a)
      (if j ≤ Ram.writeCycle (e.bus a) then (e.state a).chip
        else update (e.state a).chip (baseram_addr (e.bus a)) ((e.bus a).written (e.state a).chip))
      (decide (j = Ram.writeCycle (e.bus a) + 1)) (decide (j = Ram.writeCycle (e.bus a))) := by
  rw [h.state_eq hm hz]
  exact Ram.write_held (h.acc a le_rfl h.le) hwe h.ready hj

theorem writes_iff (hz : a + j ≤ z) (hj : j ≤ Ram.writeCycle (e.bus a) + 2) :
    e.writes (a + j) = true ↔ j = Ram.writeCycle (e.bus a) := by
  rw [Run.writes, h.bus_eq hm (Nat.le_add_right a j) hz, (h.sees hm hwe (by omega) hj).pulse,
    decide_eq_true_iff]

theorem write : e.Writes a z := by
  have hshort : z ≤ a + Ram.writeCycle (e.bus a) + 2 := by
    by_contra hlong
    have hack := (h.sees hm hwe (j := Ram.writeCycle (e.bus a) + 1) (by omega) (by omega)).ack
    have := h.le_of_ack hm (by omega) (by omega) (hack.trans (decide_eq_true rfl))
    omega
  refine ⟨a + Ram.writeCycle (e.bus a), fun n ha hz => ?_, fun n ha hz => ?_,
    fun n ha hz hack => ?_⟩ <;> obtain ⟨j, rfl⟩ := Nat.exists_eq_add_of_le ha
  · rw [h.writes_iff hm hwe hz (by omega), Nat.add_left_cancel_iff]
  · simp only [Nat.add_le_add_iff_left]
    by_cases hj : j ≤ Ram.writeCycle (e.bus a) + 2
    · exact (h.sees hm hwe hz hj).chip
    · -- the last edge of an access that was held on
      obtain ⟨k, rfl⟩ : ∃ k, j = k + 1 := ⟨j - 1, by omega⟩
      have hpulse : e.writes (a + k) = false := by
        rw [Bool.eq_false_iff, Ne, h.writes_iff hm hwe (by omega) (by omega)]
        omega
      have hchip := (h.sees hm hwe (show a + k ≤ z + 1 by omega) (by omega)).chip
      rw [if_neg (by omega)] at hchip
      rw [if_neg (by omega), ← hchip]
      exact Ram.step_chip hpulse
  · have hsee := (h.sees hm hwe (show a + j ≤ z + 1 by omega) (by omega)).ack
    have := of_decide_eq_true (hsee.symm.trans hack)
    omega

end

theorem read (hwe : (e.bus a).wb_we_i = false) : e.Reads a z := by
  have hpulse (n : ℕ) (ha : a ≤ n) (hz : n ≤ z) : e.writes n = false := by
    rw [Run.writes, h.bus_eq hm ha hz]
    exact Ram.writes_of_read hwe
  have hchip (n : ℕ) (ha : a ≤ n) (hz : n ≤ z + 1) : (e.state n).chip = (e.state a).chip := by
    induction n, ha using Nat.le_induction with
    | base => rfl
    | succ n ha ih =>
      rw [← ih (by omega)]
      exact Ram.step_chip (hpulse n ha (by omega))
  have hheld {j : ℕ} (hz : a + j ≤ z + 1) (hj : j ≤ 3) :
      (e.state (a + j)).ctrl.wb_ack_o = decide (j = 2) ∧ (j = 2 →
        (e.state (a + j)).ctrl.wb_data_o =
          merge (e.bus a).wb_sel_i ((e.state a).chip (baseram_addr (e.bus a))) ZeroWord) := by
    rw [h.state_eq hm hz]
    exact Ram.read_held (h.acc a le_rfl h.le) hwe h.ready hj
  have hshort : z ≤ a + 3 := by
    by_contra hlong
    have := h.le_of_ack hm (by omega) (by omega) (hheld (show a + 2 ≤ z + 1 by omega) (by omega)).1
    omega
  refine ⟨hpulse, hchip, fun n ha hz hack => ?_⟩
  obtain ⟨j, rfl⟩ := Nat.exists_eq_add_of_le ha
  obtain ⟨hsee, hdata⟩ := hheld (show a + j ≤ z + 1 by omega) (by omega)
  rw [hchip _ ha (by omega)]
  exact hdata (of_decide_eq_true (hsee.symm.trans hack))

end Transaction

/-- The memory under aborts. For every master that may take its access off the lines in any cycle,
nothing is written outside an access; an acknowledged write has replaced exactly the selected bytes
of its word with one pulse, an aborted write has done so or nothing at all, and no other word
changes; a read changes nothing and, when acknowledged, shows the selected bytes. -/
theorem transactions_serve (e : Run) (hm : e.Master) :
    (∀ n, wb_acc (e.bus n) = false →
      e.writes n = false ∧ (e.state (n + 1)).chip = (e.state n).chip) ∧
    ∀ a z, e.Transaction a z → if (e.bus a).wb_we_i then e.Writes a z else e.Reads a z := by
  refine ⟨fun n hidle => ⟨Ram.writes_of_idle hidle, (Ram.step_idle hidle).2⟩, fun a z h => ?_⟩
  split_ifs with hwe
  · exact h.write hm hwe
  · exact h.read hm (Bool.eq_false_iff.mpr hwe)

/-- A write of one byte of the word 1, taken off the lines in the cycle of its acknowledge. -/
def abortedWrite : Run where
  bus n := if n < 4 then ⟨true, true, 4#32, 0b0001#4, true, 0x11223344#32⟩
    else ⟨false, false, 0#32, 0#4, false, 0#32⟩
  start := ⟨⟨.IDLE, false, 0#32, true, true, 0#32⟩, fun _ => 0xAABBCCDD#32⟩
  ready := ⟨rfl, rfl, rfl, rfl⟩

/-- The aborted write has replaced its byte, and no other. -/
theorem transactions_serve_abortedWrite :
    abortedWrite.Writes 0 3 ∧ (abortedWrite.state 4).chip 1#20 = 0xAABBCC44#32 ∧
      (abortedWrite.state 4).chip 2#20 = 0xAABBCCDD#32 := by
  have hacc (n : ℕ) : wb_acc (abortedWrite.bus n) = decide (n < 4) := by
    by_cases hn : n < 4 <;> simp [abortedWrite, wb_acc, hn]
  have hm : abortedWrite.Master := by
    refine ⟨fun n h h' => ?_, fun n h hack => ?_⟩
    · rw [hacc, decide_eq_true_iff] at h h'
      simp [abortedWrite, h, h']
    · rw [hacc, decide_eq_true_iff] at h
      have hnone : ∀ n < 4, (abortedWrite.state n).ctrl.wb_ack_o = false := by decide +kernel
      rw [hnone n h] at hack
      exact absurd hack (by decide)
  have ht : abortedWrite.Transaction 0 3 :=
    ⟨by decide, fun n _ hz => by rw [hacc]; exact decide_eq_true (by omega), .inl rfl,
      by rw [hacc]; rfl⟩
  exact ⟨(transactions_serve abortedWrite hm).2 0 3 ht, by decide +kernel, by decide +kernel⟩

end Run

variable (inputs : ℕ → BitVec 6 × Bool × wishbone_bus.Request) (n : Node)

/-- The node from a reset on, with the stall vector, the flush and the request of each cycle. -/
def Node.driven : ℕ → Node
  | 0 => n.reset
  | k + 1 =>
    let m := driven k
    ⟨wishbone_bus.next false (inputs k).1 (inputs k).2.1 (inputs k).2.2 m.ram.ctrl.wb_ack_o
      m.ram.ctrl.wb_data_o m.bus, m.ram.step (lines m.bus)⟩

/-- What the controller sees of it. -/
def Node.run : Run where
  bus k := lines (n.driven inputs k).bus
  start := n.reset.ram
  ready := by constructor <;> simp [reset, State.next]

theorem Node.run_state (k : ℕ) : (n.run inputs).state k = (n.driven inputs k).ram := by
  induction k with
  | zero => rfl
  | succ k ih =>
    rw [Run.state, ih]
    rfl

/-- A flush never tears a store: whatever the stalls, flushes and requests are, the chip changes
only by accesses that the bus interface drives, each store writes all of its bytes at once or
none of them, and one that is acknowledged has written them. -/
theorem flush_safe :
    (∀ k, wb_acc (lines (n.driven inputs k).bus) = false →
      (n.driven inputs (k + 1)).ram.chip = (n.driven inputs k).ram.chip) ∧
    ∀ a z, (n.run inputs).Transaction a z → if (lines (n.driven inputs a).bus).wb_we_i then
      (n.run inputs).Writes a z else (n.run inputs).Reads a z := by
  have hm : (n.run inputs).Master := by
    refine Run.master_of_interface (s := fun k => (n.driven inputs k).bus) reset_driven
      (fun _ => rfl) fun k => ?_
    rw [Node.run_state]
    exact ⟨_, _, _, _, rfl⟩
  refine ⟨fun k hidle => (Ram.step_idle hidle).2, fun a z h => ?_⟩
  split_ifs with hwe
  · exact h.write hm hwe
  · exact h.read hm (Bool.eq_false_iff.mpr hwe)

end mips32s.sram_top
