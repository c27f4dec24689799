import Mips32S.Sram.Lanes

namespace mips32s.sram_top

/-- The controller with its chip. -/
structure Ram where
  ctrl : State
  chip : Chip

/-- One clock edge, outside reset. -/
def Ram.step (b : Bus) (r : Ram) : Ram :=
  ⟨r.ctrl.next false b (baseram_data b r.ctrl r.chip), r.chip.next b r.ctrl⟩

/-- The controller waits for an access, with its lines to the chip inactive. -/
structure State.Ready (s : State) : Prop where
  state : s.state = .IDLE
  wb_ack_o : s.wb_ack_o = false
  ram_oe : s.ram_oe = true
  ram_we : s.ram_we = true

variable {b : Bus} {r : Ram}

theorem Ram.step_idle (h : wb_acc b = false) :
    (r.step b).ctrl.Ready ∧ (r.step b).chip = r.chip := by
  simp only [Ram.step, State.next, Chip.next, baseram_ce, h]
  exact ⟨⟨rfl, rfl, rfl, rfl⟩, rfl⟩

/-- The word a write leaves in the chip. -/
def Bus.written (b : Bus) (chip : Chip) : Word :=
  merge b.wb_sel_i b.wb_data_i (chip (baseram_addr b))

theorem Ram.read (hacc : wb_acc b = true) (hwe : b.wb_we_i = false) (hr : r.ctrl.Ready) :
    (r.step b).ctrl.wb_ack_o = false ∧
      (r.step b).step b = ⟨⟨.IDLE, true, merge b.wb_sel_i (r.chip (baseram_addr b)) ZeroWord, true,
        true, r.ctrl.data_to_write⟩, r.chip⟩ := by
  obtain ⟨hst, hack, -, hw⟩ := hr
  simp [Ram.step, State.next, State.access, Chip.next, baseram_we, baseram_data, wb_rd, wb_wr, hacc,
    hwe, hst, hw]

/-- The controller in `WRITE0`, with the word to be written. -/
def State.toWrite (s : State) (w : Word) : State := { s with state := .WRITE0, data_to_write := w }

section
variable (hacc : wb_acc b = true) (hwe : b.wb_we_i = true)
include hacc hwe

theorem Ram.write0 (hr : r.ctrl.Ready) (w : Word) :
    (Ram.step b ⟨r.ctrl.toWrite w, r.chip⟩).ctrl.wb_ack_o = false ∧
      Ram.step b (Ram.step b ⟨r.ctrl.toWrite w, r.chip⟩) =
        ⟨{ r.ctrl with state := .IDLE, wb_ack_o := true, data_to_write := w },
          Function.update r.chip (baseram_addr b) w⟩ := by
  obtain ⟨hst, hack, hoe, hw⟩ := hr
  simp [Ram.step, State.toWrite, State.next, State.access, Chip.next, baseram_we, baseram_ce,
    baseram_data, wb_wr, hacc, hwe, hack, hoe, hw]

/-- The first edge of a full-word write, and the first two of a write to some bytes,
leave the word to be written in the controller. -/
theorem Ram.write_all (hall : all_select b = true) (hr : r.ctrl.Ready) :
    r.step b = ⟨r.ctrl.toWrite (b.written r.chip), r.chip⟩ := by
  obtain ⟨hst, hack, hoe, hw⟩ := hr
  simp [Ram.step, State.toWrite, State.next, State.access, Chip.next, baseram_we, wb_rd, wb_wr,
    hacc, hwe, hall, hst, hack, hw, Bus.written, merge_of_all_select hall]

theorem Ram.write_some (hall : all_select b = false) (hr : r.ctrl.Ready) :
    (r.step b).ctrl.wb_ack_o = false ∧
      (r.step b).step b = ⟨r.ctrl.toWrite (b.written r.chip), r.chip⟩ := by
  obtain ⟨hst, hack, hoe, hw⟩ := hr
  simp [Ram.step, State.toWrite, State.next, State.access, Chip.next, baseram_we, baseram_data,
    wb_rd, wb_wr, hacc, hwe, hall, hst, hack, hoe, hw, Bus.written]

end

/-- Waiting for the acknowledge, with the access held on the lines. -/
def Ram.await (b : Bus) : ℕ → Ram → Option Ram
  | 0, _ => none
  | k + 1, r => if r.ctrl.wb_ack_o then some r else (r.step b).await b k

theorem Ram.await_succ (k : ℕ) (h : r.ctrl.wb_ack_o = false) :
    r.await b (k + 1) = (r.step b).await b k := by
  rw [Ram.await, h, if_neg Bool.false_ne_true]

theorem Ram.await_write0 (hacc : wb_acc b = true) (hwe : b.wb_we_i = true) (hr : r.ctrl.Ready)
    (w : Word) (k : ℕ) : Ram.await b (k + 3) ⟨r.ctrl.toWrite w, r.chip⟩ =
      some ⟨{ r.ctrl with state := .IDLE, wb_ack_o := true, data_to_write := w },
        Function.update r.chip (baseram_addr b) w⟩ := by
  obtain ⟨hack, hdone⟩ := Ram.write0 hacc hwe hr w
  rw [Ram.await_succ (r := ⟨r.ctrl.toWrite w, r.chip⟩) _ hr.wb_ack_o, Ram.await_succ _ hack, hdone]
  rfl

/-- Held on the lines, an access is acknowledged within four edges. A write has then put
its selected bytes into the word at its address and changed no other word; a read shows
the selected bytes and has changed nothing. -/
theorem Ram.await_access (hacc : wb_acc b = true) (hr : r.ctrl.Ready) :
    ∃ r', r.await b 5 = some r' ∧ r'.ctrl.wb_ack_o = true ∧ r'.ctrl.ram_we = true ∧
      r'.chip = (if b.wb_we_i then Function.update r.chip (baseram_addr b)
        (b.written r.chip) else r.chip) ∧
      (b.wb_we_i = false → r'.ctrl.wb_data_o =
        merge b.wb_sel_i (r.chip (baseram_addr b)) ZeroWord) := by
  cases hwe : b.wb_we_i with
  | false =>
    obtain ⟨hack, hdone⟩ := Ram.read hacc hwe hr
    rw [Ram.await_succ _ hr.wb_ack_o, Ram.await_succ _ hack, hdone]
    exact ⟨_, rfl, rfl, rfl, rfl, fun _ => rfl⟩
  | true =>
    cases hall : all_select b with
    | true =>
      rw [Ram.await_succ _ hr.wb_ack_o, Ram.write_all hacc hwe hall hr,
        Ram.await_write0 hacc hwe hr]
      exact ⟨_, rfl, rfl, hr.ram_we, rfl, by simp⟩
    | false =>
      obtain ⟨hack, hsecond⟩ := Ram.write_some hacc hwe hall hr
      rw [Ram.await_succ _ hr.wb_ack_o, Ram.await_succ _ hack, hsecond,
        Ram.await_write0 hacc hwe hr]
      exact ⟨_, rfl, rfl, hr.ram_we, rfl, by simp⟩

end mips32s.sram_top
