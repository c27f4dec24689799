import Mips32S.Serial.Port

open Option Bool

namespace mips32s.SERIAL

open sram_top (Bus Driven wb_acc wb_wr wb_rd lines)

namespace Port

variable {b : Bus} {ready busy : Bool} {rx : BitVec 8} {p : Port}

theorem next_idle (hacc : wb_acc b = false) : (p.next false b ready rx busy).wb_ack_o = false := by
  simp [next, hacc]

theorem next_ack (h : (p.next false b ready rx busy).ext_uart_start = true ∨
    (p.next false b ready rx busy).ext_uart_clear = true) :
    (p.next false b ready rx busy).wb_ack_o = true := by
  unfold next at *
  split_ifs at * <;> simp_all

theorem next_start (h : (p.next false b ready rx busy).ext_uart_start = true) :
    (wb_acc b = true ∧ b.wb_addr_i = dataAddr ∧ b.wb_we_i = true) ∧ busy = false := by
  unfold next at h
  simp only [wb_rd] at h
  split_ifs at h <;> simp_all

theorem next_clear (h : (p.next false b ready rx busy).ext_uart_clear = true) :
    (wb_acc b = true ∧ b.wb_addr_i = dataAddr ∧ b.wb_we_i = false) ∧ ready = true := by
  unfold next at h
  simp only [wb_rd] at h
  split_ifs at h <;> simp_all

variable (hacc : wb_acc b = true) (haddr : b.wb_addr_i = dataAddr)
include hacc haddr

theorem next_write (hwe : b.wb_we_i = true) :
    (p.next false b ready rx busy).wb_ack_o = !busy ∧
      (p.next false b ready rx busy).ext_uart_start = !busy ∧
      (busy = false → (p.next false b ready rx busy).ext_uart_tx = b.wb_data_i.extractLsb' 0 8) := by
  cases busy <;> simp [next, wb_rd, hacc, haddr, hwe]

theorem next_read (hwe : b.wb_we_i = false) :
    (p.next false b ready rx busy).wb_ack_o = ready ∧
      (p.next false b ready rx busy).ext_uart_clear = ready ∧
      (ready = true → (p.next false b ready rx busy).wb_data_o = 0#24 ++ rx) := by
  cases ready <;> simp [next, wb_rd, hacc, haddr, hwe]

end Port

namespace Run

variable {e : Run} {n N : ℕ} {we : Bool} {b : BitVec 8}

theorem driven (e : Run) (n : ℕ) : Driven (e.state n).bus := by
  induction n with
  | zero => exact sram_top.reset_driven
  | succ n ih => exact ih.next

section
variable (h : e.DataAccess n we) (hack : (e.state n).port.wb_ack_o = false)
  (hflush : (e.input n).flush = false)
include h hack hflush

theorem lines_succ : lines (e.state (n + 1)).bus = lines (e.state n).bus :=
  sram_top.lines_hold ((e.driven n).wb_acc.mp h.1) hack hflush

theorem DataAccess.succ : e.DataAccess (n + 1) we := by
  rwa [DataAccess, lines_succ h hack hflush]

end

theorem of_acked (h : e.DataAccess n we) (hack : (e.state n).port.wb_ack_o = true) :
    ∃ m, n = m + 1 ∧ e.DataAccess m we ∧ (e.state m).port.wb_ack_o = false ∧
      lines (e.state n).bus = lines (e.state m).bus := by
  cases n with
  | zero => simp [state, System.reset, Port.next] at hack
  | succ m =>
    refine ⟨m, rfl, ?_⟩
    have hbusy : (e.state (m + 1)).bus.wishbone_state = .WB_BUSY := (e.driven _).wb_acc.mp h.1
    obtain ⟨hidle, -, -⟩ | ⟨hs, hack', hflush⟩ := wishbone_bus.busy_cases hbusy
    · have hacc : wb_acc (lines (e.state m).bus) = false := by
        rw [eq_false_iff, Ne, (e.driven m).wb_acc, hidle]
        decide
      exact absurd hack (by rw [state, System.step, Port.next_idle hacc]; decide)
    · have hlines : lines (e.state (m + 1)).bus = lines (e.state m).bus :=
        sram_top.lines_hold hs hack' hflush
      rw [DataAccess, hlines] at h
      exact ⟨h, hack', hlines⟩

theorem ack_of_pulse (h : (e.state n).port.ext_uart_start = true ∨
    (e.state n).port.ext_uart_clear = true) : (e.state n).port.wb_ack_o = true := by
  cases n with
  | zero => simp [state, System.reset, Port.next] at h
  | succ n => exact Port.next_ack h

/-! ### Writes -/

theorem TxD_busy_succ (h : (e.state n).TxD_busy = false) :
    (e.state (n + 1)).TxD_busy = (e.state n).port.ext_uart_start := by
  rw [state, System.step, busyNext, h]
  rfl

theorem port_succ_write (h : e.DataAccess n true) :
    (e.state (n + 1)).port.wb_ack_o = !(e.state n).TxD_busy ∧
      (e.state (n + 1)).port.ext_uart_start = !(e.state n).TxD_busy ∧
      ((e.state n).TxD_busy = false → (e.state (n + 1)).port.ext_uart_tx =
        (lines (e.state n).bus).wb_data_i.extractLsb' 0 8) :=
  Port.next_write h.1 h.2.1 h.2.2

theorem transmitted_of_written (h : e.written n = some b) : e.transmitted n = some b := by
  obtain ⟨⟨hwrite, hack⟩, hb⟩ := ite_none_right_eq_some.mp h
  obtain ⟨m, rfl, hbefore, hwait, hlines⟩ := of_acked hwrite hack
  obtain ⟨hnext, hstart, htx⟩ := port_succ_write hbefore
  have hidle : (e.state m).TxD_busy = false := by simpa [hack] using hnext
  have hnostart : (e.state m).port.ext_uart_start = false := by
    by_contra hpulse
    rw [ack_of_pulse (.inl (eq_true_of_not_eq_false hpulse))] at hwait
    exact absurd hwait (by decide)
  rw [transmitted, if_pos ⟨by rw [hstart, hidle]; rfl, by rw [TxD_busy_succ hidle, hnostart]⟩,
    htx hidle, ← hlines, hb]

/-- What is transmitted is a data write acknowledged in this cycle, or one that was withdrawn in the
cycle before. -/
theorem written_of_transmitted (h : e.transmitted n = some b) :
    e.written n = some b ∨ ∃ m, n = m + 1 ∧ e.Withdrawn m true := by
  obtain ⟨⟨hstart, hidle⟩, hb⟩ := ite_none_right_eq_some.mp h
  cases n with
  | zero => simp [state, System.reset, Port.next] at hstart
  | succ m =>
    obtain ⟨hwrite, hbusy⟩ := Port.next_start hstart
    have hbefore : e.DataAccess m true := hwrite
    have hnostart : (e.state m).port.ext_uart_start = false := by rw [← TxD_busy_succ hbusy, hidle]
    have hwait : (e.state m).port.wb_ack_o = false := by
      -- an acknowledge of this write would come with a first start pulse
      by_contra hack
      obtain ⟨k, rfl, hfirst, -, -⟩ := of_acked hbefore (eq_true_of_not_eq_false hack)
      obtain ⟨hnext, hpulse, -⟩ := port_succ_write hfirst
      rw [← hnext, hnostart] at hpulse
      exact hack hpulse.symm
    cases hflush : (e.input m).flush with
    | true => exact .inr ⟨m, rfl, hbefore, hwait, hflush⟩
    | false =>
      obtain ⟨hnext, -, htx⟩ := port_succ_write hbefore
      refine .inl ?_
      rw [written, if_pos ⟨hbefore.succ hwait hflush, by rw [hnext, hbusy]; rfl⟩,
        lines_succ hbefore hwait hflush, ← htx hbusy, hb]

/-! ### Reads -/

theorem port_succ_read (h : e.DataAccess n false) :
    (e.state (n + 1)).port.wb_ack_o = (e.state n).receiver.RxD_data_ready ∧
      (e.state (n + 1)).port.ext_uart_clear = (e.state n).receiver.RxD_data_ready ∧
      ((e.state n).receiver.RxD_data_ready = true →
        (e.state (n + 1)).port.wb_data_o = 0#24 ++ (e.state n).receiver.RxD_data) :=
  Port.next_read h.1 h.2.1 h.2.2

/-- A bit that is sampled finds every byte before it returned. -/
def Spaced (e : Run) (N : ℕ) : Prop :=
  ∀ n < N, (e.input n).sample ≠ none → e.returned n = e.received n

instance (e : Run) (N : ℕ) : Decidable (e.Spaced N) :=
  inferInstanceAs (Decidable (∀ n < N, _ → _))

/-- No byte completes in a cycle with a clear pulse, and no data read is withdrawn in the cycle in
which the port takes the byte for it. -/
structure Undisturbed (e : Run) (N : ℕ) : Prop where
  clear : ∀ n < N, (e.input n).sample = some .stop → (e.state n).port.ext_uart_clear = false
  kept : ∀ n < N, (e.state n).receiver.RxD_data_ready = true → ¬ e.Withdrawn n false

/-- What holds before each cycle: every byte has been returned or waits, and a byte that waits
during a clear pulse is being returned. -/
structure Delivers (e : Run) (n : ℕ) : Prop where
  received : e.received n = e.returned n ++ (e.unread n).toList
  clear : (e.state n).port.ext_uart_clear = true → (e.state n).receiver.RxD_data_ready = true →
    e.read n = e.unread n

theorem clear_of_read (h : e.read n ≠ none) :
    (e.state n).port.ext_uart_clear = true ∧ (e.state n).receiver.RxD_data_ready = true := by
  obtain ⟨w, hw⟩ := ne_none_iff_exists'.mp h
  obtain ⟨⟨hread, hack⟩, -⟩ := ite_none_right_eq_some.mp hw
  obtain ⟨m, rfl, hbefore, hwait, -⟩ := of_acked hread hack
  obtain ⟨hnext, hclear, -⟩ := port_succ_read hbefore
  have hnoclear : (e.state m).port.ext_uart_clear = false := by
    by_contra hpulse
    rw [ack_of_pulse (.inr (eq_true_of_not_eq_false hpulse))] at hwait
    exact absurd hwait (by decide)
  have hready : (e.state m).receiver.RxD_data_ready = true := hnext.symm.trans hack
  refine ⟨hclear.trans hready, ?_⟩
  simp [state, System.step, Receiver.next, hnoclear, hready]

theorem read_succ (h : e.DataAccess n false) (hwait : (e.state n).port.wb_ack_o = false)
    (hready : (e.state n).receiver.RxD_data_ready = true) (hkept : ¬ e.Withdrawn n false) :
    e.read (n + 1) = e.unread n := by
  obtain ⟨hnext, -, hdata⟩ := port_succ_read h
  have hflush : (e.input n).flush = false := by
    by_contra hflush
    exact hkept ⟨h, hwait, eq_true_of_not_eq_false hflush⟩
  rw [read, if_pos ⟨h.succ hwait hflush, hnext.trans hready⟩, unread, if_pos hready, hdata hready]

theorem unread_succ (hnone : (e.input n).sample = none)
    (hclear : (e.state n).port.ext_uart_clear = false) : e.unread (n + 1) = e.unread n := by
  simp [unread, state, System.step, Receiver.next, hnone, hclear]

theorem unread_of_clear (hclear : (e.state n).port.ext_uart_clear = true) :
    e.unread (n + 1) = none := by
  simp [unread, state, System.step, Receiver.next, hclear]

namespace Delivers

variable (h : e.Delivers n) (hspaced : e.Spaced (n + 1))
include h hspaced

theorem unread_eq_none (hsample : (e.input n).sample ≠ none) : e.unread n = none := by
  have hall := hspaced n (Nat.lt_succ_self n) hsample
  rw [h.received] at hall
  simpa using hall

theorem sample_eq_none (hready : (e.state n).receiver.RxD_data_ready = true) :
    (e.input n).sample = none := by
  by_contra hsample
  have hnone := h.unread_eq_none hspaced hsample
  rw [unread, if_pos hready] at hnone
  cases hnone

theorem succ_received (hquiet : e.Undisturbed (n + 1)) :
    e.received (n + 1) = e.returned (n + 1) ++ (e.unread (n + 1)).toList := by
  have hreturned : e.returned (n + 1) = e.returned n ++ (e.read n).toList := rfl
  have hreceived : e.received (n + 1) = e.received n ++ (e.arrived n).toList := rfl
  rw [hreceived, hreturned]
  cases hclear : (e.state n).port.ext_uart_clear with
  | true =>
    -- the byte that waits, if any, is being returned
    have hnone : e.arrived n = none := by
      refine if_neg fun hstop => ?_
      rw [hquiet.clear n (Nat.lt_succ_self n) hstop] at hclear
      exact absurd hclear (by decide)
    have hread : e.read n = e.unread n := by
      cases hready : (e.state n).receiver.RxD_data_ready with
      | true => exact h.clear hclear hready
      | false =>
        have hidle : e.read n = none := by
          by_contra hread
          rw [(clear_of_read hread).2] at hready
          exact absurd hready (by decide)
        rw [hidle, unread, hready]
        rfl
    simp [hnone, hread, unread_of_clear hclear, h.received]
  | false =>
    have hread : e.read n = none := by
      by_contra hread
      rw [(clear_of_read hread).1] at hclear
      exact absurd hclear (by decide)
    cases hsample : (e.input n).sample with
    | none => simp [hread, arrived, hsample, unread_succ hsample hclear, h.received]
    | some bit =>
      have hnone := h.unread_eq_none hspaced (by simp [hsample])
      have hempty : (e.state n).receiver.RxD_data_ready = false := by
        simpa [unread] using hnone
      have hnew : e.unread (n + 1) = e.arrived n := by
        cases bit <;>
          simp [unread, arrived, state, System.step, Receiver.next, hsample, hclear, hempty]
      simp [hread, hnew, h.received, hnone]

theorem succ_clear (hquiet : e.Undisturbed (n + 1))
    (hclear : (e.state (n + 1)).port.ext_uart_clear = true)
    (hready : (e.state (n + 1)).receiver.RxD_data_ready = true) :
    e.read (n + 1) = e.unread (n + 1) := by
  obtain ⟨hlines, hbefore⟩ := Port.next_clear hclear
  have hread : e.DataAccess n false := hlines
  have hnoclear : (e.state n).port.ext_uart_clear = false := by
    by_contra hpulse
    simp [state, System.step, Receiver.next, eq_true_of_not_eq_false hpulse] at hready
  have hwait : (e.state n).port.wb_ack_o = false := by
    by_contra hack
    have hnow : e.read n ≠ none := by
      rw [read, if_pos ⟨hread, eq_true_of_not_eq_false hack⟩]
      exact nofun
    rw [(clear_of_read hnow).1] at hnoclear
    exact absurd hnoclear (by decide)
  rw [read_succ hread hwait hbefore (hquiet.kept n (Nat.lt_succ_self n) hbefore),
    unread_succ (h.sample_eq_none hspaced hbefore) hnoclear]

end Delivers

theorem delivers (hspaced : e.Spaced N) (hquiet : e.Undisturbed N) (hn : n ≤ N) : e.Delivers n := by
  induction n with
  | zero => exact ⟨rfl, fun hclear => absurd hclear (by simp [state, System.reset, Port.next])⟩
  | succ n ih =>
    have hspaced' : e.Spaced (n + 1) := fun k hk => hspaced k (by omega)
    have hquiet' : e.Undisturbed (n + 1) :=
      ⟨fun k hk => hquiet.clear k (by omega), fun k hk => hquiet.kept k (by omega)⟩
    have h := ih (by omega)
    exact ⟨h.succ_received hspaced' hquiet', h.succ_clear hspaced' hquiet'⟩

/-- Exactly-once transfer. Whatever the timing, a data write is transmitted in the cycle of its
acknowledge, and nothing else is but a data write that was withdrawn in the cycle before. If each
byte begins after the one before it was returned, none completes during a clear pulse and no data
read is withdrawn while a byte waits, the data reads return the received bytes, each once and in
order; a byte not yet returned waits for the next data read. -/
theorem exactly_once (e : Run) (N : ℕ) (hspaced : e.Spaced N) (hquiet : e.Undisturbed N) :
    (∀ n b, (e.written n = some b → e.transmitted n = some b) ∧
      (e.transmitted n = some b → e.written n = some b ∨ ∃ m, n = m + 1 ∧ e.Withdrawn m true)) ∧
    (∀ n ≤ N, e.received n = e.returned n ++ (e.unread n).toList) ∧
    ∀ n < N, e.DataAccess n false → (e.state n).port.wb_ack_o = false → e.unread n ≠ none →
      e.read (n + 1) = e.unread n := by
  refine ⟨fun n b => ⟨transmitted_of_written, written_of_transmitted⟩,
    fun n hn => (delivers hspaced hquiet hn).received, fun n hn hread hwait hunread => ?_⟩
  have hready : (e.state n).receiver.RxD_data_ready = true := by
    by_contra hready
    exact hunread (if_neg hready)
  exact read_succ hread hwait hready (hquiet.kept n hn hready)

/-- What the receiver samples for a byte. -/
def frame (byte : BitVec 8) : List (Option Sample) :=
  ((List.range 8).map fun i => some (.data (byte.getLsbD i))) ++ [some .stop]

/-- The processor reads the data register from the cycle `first` on; the receiver has a line. -/
def reader (first : ℕ) (line : List (Option Sample)) : Run where
  start := ⟨⟨.WB_IDLE, 0, 0, false, 0, false, false, 0, 0⟩, ⟨false, 0, 0, false, false⟩,
    ⟨false, 0⟩, false⟩
  input n := ⟨0#6, false, ⟨first ≤ n ∧ n < first + 3, 0, 0x1FD003F8#32, false, 0b1111#4⟩,
    line.getD n none, false⟩

/-- A byte that begins in the cycle after the acknowledge waits in the receiver. -/
theorem exactly_once_reader :
    let e := reader 9 (frame 0x61#8 ++ [none, none, none] ++ frame 0x62#8)
    e.returned 21 = [0x61#32] ∧ e.received 21 = e.returned 21 ++ (e.unread 21).toList ∧
      e.unread 21 = some 0x62#32 := by
  intro e
  have hspaced : e.Spaced 21 := by decide +kernel
  have hquiet : e.Undisturbed 21 := ⟨by decide +kernel, by decide +kernel⟩
  exact ⟨by decide +kernel, (exactly_once e 21 hspaced hquiet).2.1 21 le_rfl, by decide +kernel⟩

/-- The byte before it was read when a byte completes. -/
def ReadInTime (e : Run) (N : ℕ) : Prop :=
  ∀ n < N, (e.input n).sample = some .stop → (e.returned n).length = (e.received n).length

instance (e : Run) (N : ℕ) : Decidable (e.ReadInTime N) :=
  inferInstanceAs (Decidable (∀ n < N, _ → _))

/-- A byte that completes in the cycle after the acknowledge is lost, and a byte that is read when
the next one has begun is returned with a bit of it. -/
theorem reader_lost :
    (let e := reader 17 (frame 0x61#8 ++ (frame 0x62#8).take 8 ++ [none, none, none, some .stop])
    e.ReadInTime 21 ∧ e.received 21 = [0x61#32, 0x62#32] ∧ (e.returned 21).length = 1 ∧
      e.unread 21 = none) ∧
    let e := reader 10 (frame 0x61#8 ++ (frame 0x62#8).take 1 ++ [none, none, none] ++
      (frame 0x62#8).drop 1)
    e.ReadInTime 21 ∧ e.received 21 = [0x61#32, 0x62#32] ∧ e.returned 21 = [0x30#32] ∧
      e.unread 21 = some 0x62#32 := by
  decide +kernel

end Run

end mips32s.SERIAL
