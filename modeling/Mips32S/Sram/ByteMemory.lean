import Mips32S.Sram.Node

namespace mips32s.sram_top

open Isa wishbone_bus

section

/-- The bus interface is in the given state and drives no access. -/
structure Node.Released (n : Node) (fsm : wishbone_bus.Fsm) : Prop where
  state : n.bus.wishbone_state = fsm
  stb : n.bus.wishbone_stb_output = false
  cyc : n.bus.wishbone_cyc_output = false

variable {bank : Bank} {i : Instr bank} {n : Node} {req : wishbone_bus.Request} {stall : BitVec 6}
  {fsm : wishbone_bus.Fsm}

theorem Node.Released.wb_acc (h : n.Released fsm) : wb_acc (lines n.bus) = false := by
  simp [sram_top.wb_acc, lines, h.cyc]

theorem Node.Released.chip (h : n.Released fsm) :
    (n.cycle req stall).ram.chip = n.ram.chip := (Ram.step_idle h.wb_acc).2

theorem Node.Released.idle (h : n.Released .WB_IDLE) :
    (n.cycle noRequest stall).Released .WB_IDLE := by
  constructor <;> simp [Node.cycle, wishbone_bus.next, wishbone_bus.State.advance, noRequest,
    h.state, h.stb, h.cyc]

theorem Node.Released.wait (h : n.Released .WB_WAIT_FOR_STALL) (stall : BitVec 6) :
    (n.cycle noRequest stall).Released (if stall = 0#6 then .WB_IDLE else .WB_WAIT_FOR_STALL) := by
  constructor <;> simp [Node.cycle, wishbone_bus.next, wishbone_bus.State.advance, h.state] <;>
    split_ifs <;>
    simp [h.state, h.stb, h.cyc]

theorem Node.Released.waits (h : n.Released .WB_WAIT_FOR_STALL)
    (stalls : List { v : BitVec 6 // v ≠ 0#6 }) :
    (stalls.foldl (fun m v => m.cycle noRequest v) n).Released .WB_WAIT_FOR_STALL ∧
      (stalls.foldl (fun m v => m.cycle noRequest v) n).ram.chip = n.ram.chip := by
  induction stalls generalizing n with
  | nil => exact ⟨h, rfl⟩
  | cons v vs ih =>
    have hstep := h.wait v.1
    rw [if_neg v.2] at hstep
    exact ⟨(ih hstep).1, (ih hstep).2.trans h.chip⟩

theorem Node.reset_released (n : Node) : n.reset.Released .WB_IDLE := by
  constructor <;> simp [Node.reset, wishbone_bus.next, wishbone_bus.State.reset,
    wishbone_bus.State.release]

/-- The lines of the access of an instruction. -/
def Instr.lines (i : Instr bank) : Bus :=
  ⟨true, true, phy_wb_addr i.paddr, i.request.cpu_sel, i.request.cpu_we, i.request.cpu_data⟩

theorem lines_of_drives {s : wishbone_bus.State} (h : Drives i.request s) : lines s = i.lines := by
  obtain ⟨hstb, hcyc, haddr, hdata, hwe, hsel⟩ := h
  simp [lines, Instr.lines, hstb, hcyc, haddr, hdata, hwe, hsel, Instr.request]

/-- The bus interface drives the access of the instruction. -/
structure Node.Driving (n : Node) (i : Instr bank) : Prop where
  busy : n.bus.wishbone_state = .WB_BUSY
  drives : Drives i.request n.bus

theorem Node.Released.start (h : n.Released .WB_IDLE) (i : Instr bank) (stall : BitVec 6) :
    n.stallreq i.request = true ∧ (n.cycle i.request stall).Driving i ∧
      (n.cycle i.request stall).ram.ctrl.Ready := by
  have hstarts : Starts false i.request n.bus :=
    ⟨h.state, by simp [Instr.request, mem.mem_ce_output, i.isMem], rfl⟩
  exact ⟨hstarts.stallreq, ⟨hstarts.busy, hstarts.drives⟩, (Ram.step_idle h.wb_acc).1⟩

variable (h : n.Driving i)
include h

theorem Node.Driving.hold {k : ℕ} {r : Ram} (hr : n.ram.await i.lines k = some r) :
    ∃ bus, n.hold i k = some ⟨bus, r⟩ ∧ (Node.mk bus r).Driving i := by
  induction k generalizing n with
  | zero => simp [Ram.await] at hr
  | succ k ih =>
    have hstall : n.stallreq i.request = !n.ram.ctrl.wb_ack_o := by
      simp [Node.stallreq, wishbone_bus.stallreq, h.busy]
    rw [Ram.await] at hr
    rw [Node.hold, hstall]
    cases hack : n.ram.ctrl.wb_ack_o with
    | true =>
      rw [hack, if_pos rfl] at hr
      cases hr
      exact ⟨n.bus, rfl, h⟩
    | false =>
      rw [hack, if_neg Bool.false_ne_true, ← lines_of_drives h.drives] at hr
      refine ih ⟨?_, h.drives.next h.busy hack rfl⟩ ?_
      · simp [Node.cycle, wishbone_state_next, h.busy, hack]
      · rwa [← lines_of_drives h.drives]

theorem Node.Driving.cpu_data_output (hack : n.ram.ctrl.wb_ack_o = true)
    (hload : i.request.cpu_we = false) :
    wishbone_bus.cpu_data_output false false i.request n.ram.ctrl.wb_ack_o n.ram.ctrl.wb_data_o n.bus =
      n.ram.ctrl.wb_data_o := by
  have hread : n.bus.wishbone_we_output = false := h.drives.we.trans hload
  simp [wishbone_bus.cpu_data_output, h.busy, hack, hread]

theorem Node.Driving.release (stall : BitVec 6) (hack : n.ram.ctrl.wb_ack_o = true)
    (hwe : n.ram.ctrl.ram_we = true) :
    (n.cycle i.request stall).Released (if stall = 0#6 then .WB_IDLE else .WB_WAIT_FOR_STALL) ∧
      (n.cycle i.request stall).ram.chip = n.ram.chip := by
  refine ⟨?_, ?_⟩
  · constructor <;>
      simp [Node.cycle, wishbone_bus.next, wishbone_bus.State.advance, wishbone_bus.State.release,
        h.busy, hack]
  · simp [Node.cycle, Ram.step, Chip.next, baseram_we, hwe]

theorem Node.Driving.leave (stalls : List { v : BitVec 6 // v ≠ 0#6 })
    (hack : n.ram.ctrl.wb_ack_o = true) (hwe : n.ram.ctrl.ram_we = true) :
    (n.leave i stalls).Released .WB_IDLE ∧ (n.leave i stalls).ram.chip = n.ram.chip := by
  cases stalls with
  | nil => exact h.release 0#6 hack hwe
  | cons v vs =>
    obtain ⟨hrel, hchip⟩ := h.release v.1 hack hwe
    rw [if_neg v.2] at hrel
    obtain ⟨hrel', hchip'⟩ := hrel.waits vs
    exact ⟨hrel'.wait 0#6, hrel'.chip.trans (hchip'.trans hchip)⟩

end

variable {bank : Bank} (i : Instr bank) {n : Node}

theorem Instr.extractLsb'_paddr (lo len : ℕ) (h : lo + len ≤ 22) :
    (phy_wb_addr i.paddr).extractLsb' lo len = i.paddr.extractLsb' lo len := by
  have hbank := i.in_bank
  have hlow (hi : BitVec 10) :
      (hi ++ i.paddr.extractLsb' 0 22).extractLsb' lo len = i.paddr.extractLsb' lo len := by
    rw [BitVec.extractLsb'_append_eq_of_add_le h, bits.extractLsb'_extractLsb' _ _ _ _ _ h,
      Nat.zero_add]
  unfold phy_wb_addr
  cases bank with
  | base =>
    rw [hbank, if_neg (by decide), if_pos (by decide)]
    exact hlow _
  | extr =>
    rw [hbank, if_pos (by decide)]
    exact hlow _

theorem Instr.baseram_addr_lines : baseram_addr i.lines = bytemem.index i.place := by
  refine (i.extractLsb'_paddr 2 20 (by decide)).trans ?_
  exact (bits.extractLsb'_extractLsb' i.paddr 0 22 2 20 (by decide)).symm

theorem Instr.lane_place : bytemem.lane i.place = offset i.addr := by
  have hlow : i.paddr.extractLsb' 0 2 = i.addr.extractLsb' 0 2 := by
    have h := congrArg (fun x => x.extractLsb' 0 2) i.in_page
    simpa only [bits.extractLsb'_extractLsb' _ 0 12 0 2 (by decide)] using h
  rw [bytemem.lane, Instr.place, bits.extractLsb'_extractLsb' _ 0 22 0 2 (by decide), offset,
    ← hlow]

theorem Instr.spec_eq {a : Access} (hacc : access? i.op = some a) (m : Bytes) : i.spec m =
    bif a.store then (none, a.storeTo m i.place i.reg2) else (some (a.loadFrom m i.place), m) := by
  cases hstore : a.store <;> simp [Instr.spec, hacc, hstore]

/-- One instruction, from a released bus: it completes, returns the value of the byte
array, and leaves the byte array it specifies. -/
theorem Instr.exec_eq (stalls : List { v : BitVec 6 // v ≠ 0#6 }) (h : n.Released .WB_IDLE) :
    ∃ n', (Item.access i stalls).exec n = some ((i.spec (bytemem.view n.ram.chip)).1, n') ∧
      n'.Released .WB_IDLE ∧
      bytemem.view n'.ram.chip = (i.spec (bytemem.view n.ram.chip)).2 := by
  obtain ⟨a, hacc⟩ : ∃ a, access? i.op = some a := by
    rw [← Option.isSome_iff_exists, access?_isSome]
    exact i.isMem
  have haligned := aligned_of_no_address_error hacc i.aligned.1 i.aligned.2
  have hwe : i.lines.wb_we_i = a.store := by
    simp [Instr.lines, Instr.request, mem.mem_we, access?_store hacc]
  have hsel : i.lines.wb_sel_i = a.lanes i.addr := mem_sel_output_eq hacc haligned
  obtain ⟨hstall, hdrive, hready⟩ := h.start i 0b011111#6
  obtain ⟨r, hawait, hack, hram_we, hchip, hdata⟩ := Ram.await_access (b := i.lines) rfl hready
  obtain ⟨bus, hhold, hdrive'⟩ := hdrive.hold hawait
  obtain ⟨hrel, hchip'⟩ := hdrive'.leave stalls hack hram_we
  -- the chip has its old contents when the access is first driven
  have hold : (n.cycle i.request 0b011111#6).ram.chip = n.ram.chip := h.chip
  rw [hold, hsel, i.baseram_addr_lines] at hdata
  rw [hold, Bus.written, hsel, i.baseram_addr_lines, hwe] at hchip
  have hexec : (Item.access i stalls).exec n =
      some ((Node.mk bus r).value i, (Node.mk bus r).leave i stalls) := by
    rw [Item.exec, Node.hold, hstall, if_pos rfl, hhold]
    rfl
  refine ⟨(Node.mk bus r).leave i stalls, ?_, hrel, ?_⟩
  · rw [hexec, i.spec_eq hacc, Node.value, ← access?_store hacc]
    cases hstore : a.store with
    | true => rfl
    | false =>
      have hbus := (hdrive'.cpu_data_output hack (hwe.trans hstore)).trans
          (hdata (hwe.trans hstore))
      simp only [hbus, wdata_output_eq hacc hstore haligned,
        loadValue_merge hacc haligned i.lane_place]
      rfl
  · rw [hchip', hchip, i.spec_eq hacc]
    cases hstore : a.store with
    | true => exact view_merge hacc hstore haligned i.lane_place i.reg2 i.held
    | false => rfl

theorem Item.exec_eq (x : Item bank) (h : n.Released .WB_IDLE) :
    ∃ n', x.exec n = some ((x.spec (bytemem.view n.ram.chip)).1, n') ∧ n'.Released .WB_IDLE ∧
      bytemem.view n'.ram.chip = (x.spec (bytemem.view n.ram.chip)).2 := by
  cases x with
  | access i stalls => exact i.exec_eq stalls h
  | idle stall => exact ⟨n.cycle noRequest stall, rfl, h.idle, congrArg bytemem.view h.chip⟩

theorem Item.execAll_eq (items : List (Item bank)) (h : n.Released .WB_IDLE) :
    ∃ n', Item.execAll items n = some ((Item.specAll items (bytemem.view n.ram.chip)).1, n') ∧
      bytemem.view n'.ram.chip = (Item.specAll items (bytemem.view n.ram.chip)).2 := by
  induction items generalizing n with
  | nil => exact ⟨n, rfl, rfl⟩
  | cons x xs ih =>
    obtain ⟨n1, hexec, hrel, hview⟩ := x.exec_eq h
    obtain ⟨n2, hall, hfinal⟩ := ih hrel
    rw [hview] at hall hfinal
    exact ⟨n2, by simp [Item.execAll, Item.specAll, hexec, hall], hfinal⟩

/-- The SRAM behind MEM is a little-endian byte array. For every sequence of loads and
stores that raise no address error, with any stalls and idle cycles between them, each
one completes, the loads return what the byte array holds, and the chip ends up with
the contents of the byte array after the stores. -/
theorem byte_memory (items : List (Item bank)) (n : Node) :
    ∃ n', Item.execAll items n.reset = some ((Item.specAll items (bytemem.view n.ram.chip)).1, n') ∧
      bytemem.view n'.ram.chip = (Item.specAll items (bytemem.view n.ram.chip)).2 :=
  Item.execAll_eq items n.reset_released

end mips32s.sram_top
