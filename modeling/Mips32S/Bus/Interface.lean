import Mips32S.Cpu.WishboneBus

namespace mips32s.wishbone_bus

variable {stall : BitVec 6} {flush ack : Bool} {req req' : Request} {data : Word} {s : State}

/-- The interface starts a transaction in this cycle. -/
def Starts (flush : Bool) (req : Request) (s : State) : Prop :=
  s.wishbone_state = .WB_IDLE ∧ req.cpu_ce = true ∧ flush = false

instance : Decidable (Starts flush req s) := inferInstanceAs (Decidable (_ ∧ _))

/-- The bus lines of the transaction for a request. -/
structure Drives (req : Request) (s : State) : Prop where
  stb : s.wishbone_stb_output = true
  cyc : s.wishbone_cyc_output = true
  addr : s.wishbone_addr_output = phy_wb_addr req.cpu_addr
  data : s.wishbone_data_output = req.cpu_data
  we : s.wishbone_we_output = req.cpu_we
  sel : s.wishbone_sel_output = req.cpu_sel

theorem wishbone_state_next :
    (next false stall flush req ack data s).wishbone_state = match s.wishbone_state with
      | .WB_IDLE => if req.cpu_ce && !flush then .WB_BUSY else .WB_IDLE
      | .WB_BUSY =>
        if ack then (if stall = 0#6 then .WB_IDLE else .WB_WAIT_FOR_STALL)
        else if flush then .WB_IDLE else .WB_BUSY
      | .WB_WAIT_FOR_STALL => if stall = 0#6 then .WB_IDLE else .WB_WAIT_FOR_STALL := by
  unfold next State.advance
  cases hs : s.wishbone_state <;> simp <;> split_ifs <;> simp_all [State.reset, State.release]

section
variable (h : Starts flush req s)
include h

theorem Starts.busy : (next false stall flush req ack data s).wishbone_state = .WB_BUSY := by
  obtain ⟨hs, hce, hflush⟩ := h
  simp [wishbone_state_next, hs, hce, hflush]

theorem Starts.drives : Drives req (next false stall flush req ack data s) := by
  obtain ⟨hs, hce, hflush⟩ := h
  constructor <;> simp [next, State.advance, hs, hce, hflush]

theorem Starts.stallreq : stallreq false flush req ack s = true := by
  obtain ⟨hs, hce, hflush⟩ := h
  simp [wishbone_bus.stallreq, hs, hce, hflush]

end

theorem busy_cases (h : (next false stall flush req ack data s).wishbone_state = .WB_BUSY) :
    Starts flush req s ∨ (s.wishbone_state = .WB_BUSY ∧ ack = false ∧ flush = false) := by
  rw [wishbone_state_next] at h
  cases hs : s.wishbone_state with
  | WB_IDLE => cases hce : req.cpu_ce <;> cases hflush : flush <;> simp_all [Starts]
  | WB_BUSY => cases ack <;> cases flush <;> by_cases hstall : stall = 0#6 <;> simp_all
  | WB_WAIT_FOR_STALL => by_cases hstall : stall = 0#6 <;> simp_all

theorem wait_cases (h : (next false stall flush req ack data s).wishbone_state =
    .WB_WAIT_FOR_STALL) :
    stall ≠ 0#6 ∧ ((s.wishbone_state = .WB_BUSY ∧ ack = true) ∨
      s.wishbone_state = .WB_WAIT_FOR_STALL) := by
  rw [wishbone_state_next] at h
  cases hs : s.wishbone_state with
  | WB_IDLE => cases hce : req.cpu_ce <;> cases hflush : flush <;> simp_all
  | WB_BUSY => cases ack <;> cases flush <;> by_cases hstall : stall = 0#6 <;> simp_all
  | WB_WAIT_FOR_STALL => by_cases hstall : stall = 0#6 <;> simp_all

theorem Drives.next (h : Drives req' s) (hs : s.wishbone_state = .WB_BUSY) (hack : ack = false)
    (hflush : flush = false) :
    Drives req' (wishbone_bus.next false stall flush req ack data s) := by
  obtain ⟨hstb, hcyc, haddr, hdata, hwe, hsel⟩ := h
  constructor <;> simp [wishbone_bus.next, State.advance, hs, hack, hflush, hstb, hcyc, haddr,
    hdata, hwe, hsel]

end mips32s.wishbone_bus
