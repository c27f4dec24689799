import Mips32S.Fetch.Front
import Mips32S.Lib.Trace

open Option List

namespace mips32s

namespace Isa

/-- The control state of the instruction set: the address of the next instruction,
the address after it, and whether the next instruction is in a delay slot. -/
structure Control where
  pc : Word
  npc : Word
  delay : Bool

def Control.reset : Control := ⟨ResetVector, ResetVector + 4#32, false⟩

/-- Executing the word `w` with operands `x` and `y`: the next instruction is the one
after it, and a taken branch redirects the one after that. -/
def Control.next (c : Control) (w x y : Word) : Control :=
  ⟨c.npc, redirect c.pc w x y (c.npc + 4#32), (branch? w).isSome⟩

end Isa

namespace CPU_TOP

open pipeline Isa

/-- The content of EX is the instruction the control state asks for. -/
def Agrees (c : Control) (x : ID_EX.Slot) : Prop :=
  x.ex_current_inst_addr = c.pc ∧ x.ex_is_in_delayslot = c.delay

def advance (c : Control) (x : ID_EX.Slot) : Control := c.next x.ex_inst x.ex_reg1 x.ex_reg2

namespace Execution

variable {e : Execution} {n N t : ℕ} {x : ID_EX.Slot}

/-- The instruction that enters EX at the end of cycle `n`, with the EX register it is loaded into. -/
def entry (e : Execution) (n : ℕ) : Option (ℕ × ID_EX.Slot) :=
  match e.ctl n, (e.slots n).id with
  | .go, some t => some (t, (e.state (n + 1)).id_ex.toSlot)
  | _, _ => none

/-- The instructions that enter EX in the first `n` cycles. -/
def entries (e : Execution) (n : ℕ) : List (ℕ × ID_EX.Slot) := trace.log e.entry n

def deliveries (e : Execution) (n : ℕ) : List ℕ :=
  trace.log (fun k => if e.ctl k = .go ∧
    (e.state k).if_pc_reg.chip_enable_flag = true then some k else none) n

/-- How the control state of the instruction set shows in the front of the pipeline:
the next instruction is in ID and the one after it is being fetched; before the
first delivery both are still to be fetched. -/
def Tracks (e : Execution) (n : ℕ) (c : Control) : Prop :=
  match (e.slots n).id with
  | some _ => c = ⟨(e.state n).if2id.PC_output, (e.state n).if_pc_reg.PC_output,
      (e.state n).id_ex.is_in_delayslot_output⟩
  | none => c = .reset ∧ (e.state n).if_pc_reg.PC_output = ResetVector ∧
      (e.state n).id_ex.is_in_delayslot_output = false

theorem tracks_zero : e.Tracks 0 .reset := by
  refine ⟨rfl, by rw [if_pc_reg_zero], ?_⟩
  simp [state, step, ID_EX.next, e.reset1_rst]

section
variable {c : Control} (h : e.Tracks n c)
include h

theorem Tracks.hold (hctl : e.ctl n ≠ .go ∧ e.ctl n ≠ .flush) : e.Tracks (n + 1) c := by
  unfold Tracks at h ⊢
  rw [slots_id_hold hctl, if2id_hold hctl, delayslot_hold hctl]
  cases hid : (e.slots n).id with
  | some t =>
    rw [hid] at h
    rwa [PC_output_hold (chip_enable_of_slot hid) hctl]
  | none =>
    rw [hid] at h
    obtain ⟨hc, hpc, hdelay⟩ := h
    refine ⟨hc, ?_, hdelay⟩
    cases hce : (e.state n).if_pc_reg.chip_enable_flag with
    | true => exact (PC_output_hold hce hctl).trans hpc
    | false => exact PC_output_disabled hce

theorem Tracks.first (hgo : e.ctl n = .go) (hid : (e.slots n).id = none) : e.Tracks (n + 1) c := by
  have hidle := if2id_idle hid
  have hdelay := delayslot_go hgo
  have hzero : branch? ZeroWord = none := by decide
  unfold Tracks at h
  rw [hid] at h
  obtain ⟨rfl, hpc, -⟩ := h
  rw [hidle.inst, hzero] at hdelay
  cases hce : (e.state n).if_pc_reg.chip_enable_flag with
  | false =>
    have hid' : (e.slots (n + 1)).id = none := by simp [slots_succ, hgo, hce]
    unfold Tracks
    rw [hid']
    exact ⟨rfl, PC_output_disabled hce, hdelay⟩
  | true =>
    have hid' : (e.slots (n + 1)).id = some n := by simp [slots_succ, hgo, hce]
    have hpc' := PC_output_go hce hgo
    rw [hidle.inst, redirect, hzero, hpc] at hpc'
    unfold Tracks
    rw [hid', if2id_succ, hgo, hpc', hdelay]
    simp [Control.reset, if_output, hpc]

theorem Tracks.issue (hgo : e.ctl n = .go) (hid : (e.slots n).id = some t) :
    Agrees c (e.state (n + 1)).id_ex.toSlot ∧
      e.Tracks (n + 1) (advance c (e.state (n + 1)).id_ex.toSlot) := by
  have hce := chip_enable_of_slot hid
  have hex : (e.state (n + 1)).id_ex.toSlot = id_output (e.state n) (e.input n) := by
    rw [id_ex_succ, hgo]
  unfold Tracks at h
  rw [hid] at h
  subst h
  rw [hex]
  refine ⟨⟨rfl, by simp [id_output, e.input_rst n]⟩, ?_⟩
  have hid' : (e.slots (n + 1)).id = some n := by simp [slots_succ, hgo, hce]
  unfold Tracks
  rw [hid', if2id_succ, hgo, PC_output_go hce hgo, delayslot_go hgo]
  rfl

end

theorem entry_eq_some (h : e.entry n = some (t, x)) :
    e.ctl n = .go ∧ (e.slots n).id = some t ∧ x = (e.state (n + 1)).id_ex.toSlot := by
  unfold entry at h
  split at h
  · rename_i hgo hid
    simp only [some.injEq, Prod.mk.injEq] at h
    exact ⟨hgo, h.1 ▸ hid, h.2.symm⟩
  · exact absurd h (by simp)

theorem ctl_ne_flush (h : e.excepttype n = .none) : e.ctl n ≠ .flush := by
  rwa [Ne, ctl_eq_flush, not_not]

/-- Without exceptions the instructions that enter EX follow the control flow of the
instruction set. -/
theorem entries_follow (hexc : ∀ n < N, e.excepttype n = .none) :
    trace.Follows Agrees advance .reset ((e.entries N).map Prod.snd) := by
  refine trace.follows_map.mpr (trace.follows_log (tracks_zero (e := e)) ?_ ?_)
  · intro n hn c hinv hev
    by_cases hgo : e.ctl n = .go
    · refine hinv.first hgo ?_
      by_contra hid
      obtain ⟨t, ht⟩ := ne_none_iff_exists'.mp hid
      simp [entry, hgo, ht] at hev
    · exact hinv.hold ⟨hgo, ctl_ne_flush (hexc n hn)⟩
  · rintro n hn c ⟨t, x⟩ hinv hev
    obtain ⟨hgo, hid, rfl⟩ := entry_eq_some hev
    exact hinv.issue hgo hid

/-- Without exceptions every delivered instruction but the one still in ID has
entered EX, once and in order. -/
theorem deliveries_eq (hexc : ∀ n < N, e.excepttype n = .none) :
    e.deliveries N = (e.entries N).map Prod.fst ++ (e.slots N).id.toList := by
  induction N with
  | zero => rfl
  | succ N ih =>
    have hprev := ih fun n hn => hexc n (by omega)
    have hflush := ctl_ne_flush (hexc N (by omega))
    simp only [deliveries, entries, trace.log] at hprev ⊢
    rw [hprev]
    by_cases hgo : e.ctl N = .go
    · have hid' : (e.slots (N + 1)).id =
          if (e.state N).if_pc_reg.chip_enable_flag then some N else none := by
        simp [slots_succ, hgo]
      cases hid : (e.slots N).id <;> simp [entry, hgo, hid, hid']
    · rw [slots_id_hold ⟨hgo, hflush⟩]
      simp [entry, hgo]

theorem deliveries_pairwise (n : ℕ) :
    (e.deliveries n).Pairwise (· < ·) ∧ ∀ t ∈ e.deliveries n, t < n := by
  induction n with
  | zero => simp [deliveries, trace.log]
  | succ n ih =>
    obtain ⟨hpair, hlt⟩ := ih
    simp only [deliveries, trace.log] at hpair hlt ⊢
    split_ifs with hdel
    · refine ⟨pairwise_append.mpr ⟨hpair, by simp, fun a ha b hb => ?_⟩, fun t ht => ?_⟩
      · rw [mem_singleton.mp hb]
        exact hlt a ha
      · obtain ht | ht := mem_append.mp ht
        · exact Nat.lt_succ_of_lt (hlt t ht)
        · rw [mem_singleton.mp ht]
          exact Nat.lt_succ_self n
    · rw [toList_none, append_nil]
      exact ⟨hpair, fun t ht => Nat.lt_succ_of_lt (hlt t ht)⟩

/-- The content `x` of EX for instruction `t` was fetched as one bus transaction: it
was started in some cycle `a` when the program counter was the address of `x`, it
went to the translation of that address, the word of `x` came back for it in cycle
`b`, and no other instruction was delivered or flushed until `t` was delivered. -/
def FetchedOnce (e : Execution) (t : ℕ) (x : ID_EX.Slot) : Prop :=
  ∃ a b, b ≤ t ∧ e.Fetching a t ∧ e.Returns a b ∧
    (e.state a).if_pc_reg.PC_output = x.ex_current_inst_addr ∧
    (e.state b).iwishbone.wishbone_addr_output =
      wishbone_bus.phy_wb_addr (mmu_inst_addr (e.state a)) ∧
    (e.input b).iwishbone_data_input = x.ex_inst

theorem fetchedOnce_of_entry (h : e.entry n = some (t, x))
    (hmiss : (e.fetched t).is_inst_tlbl_output = false) : e.FetchedOnce t x := by
  obtain ⟨hgo, hid, rfl⟩ := entry_eq_some h
  obtain ⟨a, b, hb, hfetch, hret, hinst⟩ :=
    delivered_word (delivered_of_occupies (.of_id hid)) hmiss
  have hex : (e.slots (n + 1)).ex = some t := by simp [slots_succ, hgo, hid]
  have hin := inEx hex
  exact ⟨a, b, hb, hfetch, hret, hfetch.pc.symm.trans hin.current_inst_addr.symm, hret.drives.addr,
    hinst.symm.trans hin.inst.symm⟩

/-- Instruction-stream integrity. In every run without an exception up to cycle `N`,
whatever the acknowledge delays on both buses and the load-use bubbles, the
instructions that enter EX follow the control flow of the instruction set from the
reset vector on, delay slots included; each was fetched as one transaction from its
own address; each delivered instruction enters EX exactly once, the last one perhaps
still being in ID; and between them EX holds no-operations only. -/
theorem instruction_stream (e : Execution) (N : ℕ) (hexc : ∀ n < N, e.excepttype n = .none)
    (hmiss : ∀ t < N, e.Delivered t → (e.fetched t).is_inst_tlbl_output = false) :
    trace.Follows Agrees advance .reset ((e.entries N).map Prod.snd) ∧
      (∀ t x, (t, x) ∈ e.entries N → e.FetchedOnce t x) ∧
      (e.deliveries N).Pairwise (· < ·) ∧
      e.deliveries N = (e.entries N).map Prod.fst ++ (e.slots N).id.toList ∧
      ∀ n ≤ N, (e.slots n).ex = none → (e.state n).id_ex.toSlot.Idle := by
  refine ⟨entries_follow hexc, ?_, (deliveries_pairwise N).1, deliveries_eq hexc,
    fun n _ => id_ex_idle⟩
  intro t x hmem
  obtain ⟨n, hn, hev⟩ := trace.mem_log.mp hmem
  obtain ⟨-, hid, -⟩ := entry_eq_some hev
  have htn : t < n := occupies_lt (.of_id hid)
  exact fetchedOnce_of_entry hev (hmiss t (by omega) (delivered_of_occupies (.of_id hid)))

/-- `beq $0, $0, 3; nop; ori $1, $0, 5`: the branch is taken behind its delay slot. -/
def takenBranch : Execution := straight 0#8 [0x10000003#32, 0x00000000#32, 0x34010005#32]

theorem instruction_stream_takenBranch :
    (takenBranch.entries 9).map (fun p => p.2.ex_current_inst_addr) =
      [0xBFC00000#32, 0xBFC00004#32, 0xBFC00010#32] ∧
      (takenBranch.entries 9).map (fun p => p.2.ex_is_in_delayslot) = [false, true, false] ∧
      trace.Follows Agrees advance .reset ((takenBranch.entries 9).map Prod.snd) :=
  ⟨by decide +kernel, by decide +kernel,
    (instruction_stream takenBranch 9 (by decide +kernel) (by decide +kernel)).1⟩

end Execution

end CPU_TOP

end mips32s
