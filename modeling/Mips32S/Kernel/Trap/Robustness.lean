import Mips32S.Kernel.Paging.UserReturn
import Mips32S.Kernel.Process.ExecArgs
import Mips32S.Kernel.Trap.Dispatch
import Mips32S.Tlb.Protection

open mips32s Option
open BitVec (add_comm getLsbD_and getLsbD_append ofBool)

namespace mips32s.thinpad_top

/-- The interrupt lines of the board. -/
def int_flag (time_int uart_int : Bool) : BitVec 8 :=
  ofBool time_int ++ 0#1 ++ 0#1 ++ ofBool uart_int ++ 0x0#4

end mips32s.thinpad_top

namespace ucore

open cp0_reg thinpad_top

/-- The frame that the entry code saves when the processor has raised `e`: the registers of CP0
as they are read after the exception. -/
structure Raised (e : ExceptType) (tf : trapframe) : Prop where
  ne_none : e ≠ .none
  ne_eret : e ≠ .eret
  regs : ∃ (cp0 after : cp0_reg.State) (pc unaligned bad : Word) (delay time_int uart_int : Bool),
    after = cp0.except e pc delay unaligned bad ∧
    tf.tf_cause = data_output false CP0_REG_CAUSE (int_flag time_int uart_int) after ∧
    tf.tf_status = data_output false CP0_REG_STATUS (int_flag time_int uart_int) after ∧
    tf.tf_vaddr = data_output false CP0_REG_BADVADDR (int_flag time_int uart_int) after

section
variable {e : ExceptType} {tf : trapframe}

theorem except_cause {cp0 : cp0_reg.State} {pc unaligned bad : Word} {delay : Bool}
    (hnone : e ≠ .none) (heret : e ≠ .eret) :
    (cp0.except e pc delay unaligned bad).cause_output.extractLsb' 2 5 = exc_code e := by
  have hcode : (bits.setSlice (bits.setSlice cp0.cause_output 31 (ofBool delay)) 2
      (exc_code e)).extractLsb' 2 5 = exc_code e := bits.extractLsb'_setSlice _ 2 _ (by decide)
  cases e <;> first | exact hcode | exact absurd rfl hnone | exact absurd rfl heret

theorem read_cause (lines : BitVec 8) (cp0 : cp0_reg.State) :
    (data_output false CP0_REG_CAUSE lines cp0).extractLsb' 2 5 = cp0.cause_output.extractLsb' 2 5 ∧
    (data_output false CP0_REG_CAUSE lines cp0).extractLsb' 8 8 = lines := by
  have hread : data_output false CP0_REG_CAUSE lines cp0 =
      cp0.cause_output.extractLsb' 31 1 ++ 0#7 ++ cp0.cause_output.extractLsb' 23 1 ++ 0#7 ++
        lines ++ 0#1 ++ cp0.cause_output.extractLsb' 2 5 ++ 0#2 := rfl
  rw [hread]
  constructor
  · ext k hk
    rw [BitVec.getElem_extractLsb', getLsbD_append, if_neg (by omega), getLsbD_append,
      if_pos (by omega), Nat.add_sub_cancel_left, BitVec.getLsbD_eq_getElem]
  · ext k hk
    have hk' : 8 + k - 2 - 5 - 1 = k := by omega
    rw [BitVec.getElem_extractLsb', getLsbD_append, if_neg (by omega), getLsbD_append,
      if_neg (by omega), getLsbD_append, if_neg (by omega), getLsbD_append,
      if_pos (by omega), hk', BitVec.getLsbD_eq_getElem]

theorem Raised.code (h : Raised e tf) : GET_CAUSE_EXCODE tf.tf_cause = exc_code e := by
  obtain ⟨cp0, after, pc, unaligned, bad, delay, time_int, uart_int, rfl, hcause, -⟩ := h.regs
  rw [GET_CAUSE_EXCODE, hcause, (read_cause _ _).1, except_cause h.ne_none h.ne_eret]

theorem int_flag_lines : ∀ (i : Fin 8) (time_int uart_int : Bool),
    (int_flag time_int uart_int).getLsbD i = true → (i : ℕ) = TIMER0_IRQ ∨ (i : ℕ) = COM1_IRQ := by
  decide

/-- Of the lines that `interrupt_handler` looks at the board uses those of the timer and of the
serial port. -/
theorem Raised.line (h : Raised e tf) {i : ℕ} (hi : i < 8)
    (hset : tf.tf_cause &&& tf.tf_status &&& 1#32 <<< (CAUSEB_IP + i) ≠ 0#32) :
    i = TIMER0_IRQ ∨ i = COM1_IRQ := by
  obtain ⟨cp0, after, pc, unaligned, bad, delay, time_int, uart_int, -, hcause, -⟩ := h.regs
  have hbit : tf.tf_cause.getLsbD (8 + i) = true := by
    by_contra hclear
    refine hset (BitVec.eq_of_getLsbD_eq fun k hk => ?_)
    have hmask : 1#32 <<< (CAUSEB_IP + i) = BitVec.twoPow 32 (8 + i) := rfl
    rw [getLsbD_and, getLsbD_and, hmask, BitVec.getLsbD_twoPow, BitVec.getLsbD_zero]
    by_cases hki : 8 + i = k
    · rw [← hki, Bool.eq_false_iff.mpr hclear, Bool.false_and, Bool.false_and]
    · rw [decide_eq_false hki, Bool.and_false, Bool.and_false]
  have hline : (int_flag time_int uart_int).getLsbD i = true := by
    rw [← (read_cause (int_flag time_int uart_int) after).2, BitVec.getLsbD_extractLsb', ← hcause,
      hbit, decide_eq_true hi, Bool.and_self]
  exact int_flag_lines ⟨i, hi⟩ time_int uart_int hline

theorem serve_isSome {lines : List ℕ} (h : ∀ i ∈ lines,
    tf.tf_cause &&& tf.tf_status &&& 1#32 <<< (CAUSEB_IP + i) ≠ 0#32 →
      i = TIMER0_IRQ ∨ i = COM1_IRQ) :
    ∃ irqs, interrupt_handler.serve tf lines = some irqs := by
  induction lines with
  | nil => exact ⟨[], rfl⟩
  | cons i rest ih =>
    obtain ⟨irqs, hrest⟩ := ih fun j hj => h j (List.mem_cons_of_mem i hj)
    unfold interrupt_handler.serve
    rw [hrest]
    by_cases hset : tf.tf_cause &&& tf.tf_status &&& 1#32 <<< (CAUSEB_IP + i) ≠ 0#32
    · rw [if_pos hset]
      by_cases htimer : i = TIMER0_IRQ
      · exact ⟨.timer :: irqs, by rw [if_pos htimer, map_some]⟩
      · have hserial := (h i List.mem_cons_self hset).resolve_left htimer
        exact ⟨.serial :: irqs, by rw [if_neg htimer, if_pos hserial, map_some]⟩
    · exact ⟨irqs, if_neg hset⟩

theorem Raised.interrupt_handler (h : Raised e tf) :
    ∃ irqs, ucore.interrupt_handler tf = some irqs :=
  serve_isSome fun _ hi hset => h.line (List.mem_range.mp hi) hset

end

/-- The number of the system call is in the table. -/
def KnownCall (tf : trapframe) : Prop :=
  ∃ num sys, syscalls num = some sys ∧ tf.v0 = SYSCALL_BASE + BitVec.ofNat 32 num

theorem syscalls_lt {num : ℕ} {sys : Sys} (h : syscalls num = some sys) : num < NUM_SYSCALLS := by
  unfold syscalls at h
  split at h <;> first | decide | cases h

theorem syscall_eq_some_iff (tf : trapframe) : (∃ call, syscall tf = some call) ↔ KnownCall tf := by
  constructor
  · rintro ⟨call, hcall⟩
    obtain ⟨-, -, hcall⟩ := bind_eq_some_iff.mp hcall
    obtain ⟨sys, hsys, -⟩ := bind_eq_some_iff.mp hcall
    refine ⟨_, sys, hsys, ?_⟩
    rw [BitVec.ofNat_toNat, BitVec.setWidth_eq, add_comm, BitVec.sub_add_cancel]
  · rintro ⟨num, sys, hsys, hv0⟩
    have hlt : num < 131 := syscalls_lt hsys
    have hnum : tf.v0 - SYSCALL_BASE = BitVec.ofNat 32 num := by
      rw [hv0, add_comm, BitVec.add_sub_cancel]
    have htoNat : (BitVec.ofNat 32 num).toNat = num := by
      rw [BitVec.toNat_ofNat]
      omega
    have htoInt : (BitVec.ofNat 32 num).toInt = num := by
      rw [BitVec.toInt_eq_toNat_of_lt (by omega), htoNat]
    have hguard : 0 ≤ (num : ℤ) ∧ (num : ℤ) < NUM_SYSCALLS := by
      unfold NUM_SYSCALLS
      omega
    refine ⟨⟨sys, [tf.a0, tf.a1, tf.a2, tf.a3]⟩, ?_⟩
    simp [syscall, hnum, htoNat, htoInt, hguard, hsys]

/-- The access that the function behind a system call makes to the memory of its caller itself:
`do_wait` stores the exit code, and `copy_kargv` loads the pointers to the arguments. -/
def SysCall.access : SysCall → Option (AluOp × BitVec 32)
  | ⟨.wait, [_, code_store, _, _]⟩ =>
    if code_store = 0#32 then none else some (.EXE_SW_OP, code_store)
  | ⟨.exec, [_, argc, argv, _]⟩ =>
    if 1 ≤ argc.toInt ∧ argc.toInt ≤ EXEC_MAX_ARG_NUM then some (.EXE_LW_OP, argv) else none
  | _ => none

/-- The address error with which the processor refuses the access of a system call. -/
def SysCall.Refused (call : SysCall) (e : ExceptType) : Prop :=
  ∃ a ∈ call.access, e = .ADEL ∧ EX.is_ADEL a.1 a.2 = true ∨ e = .ADES ∧ EX.is_ADES a.1 a.2 = true

def SysCall.Misaligned (call : SysCall) : Prop := ∃ e, call.Refused e

section
variable {σ : Type} {A : runs.Allocator σ ℤ} {S : runs.Spec A} {D : Finset ℕ} {s : Vm σ}
  {c p : ℕ} {mm : mm_struct} {va : BitVec 32}

/-- A page fault on the address is served: the area that has it allows the access, and there is
memory for the page. -/
def PagedIn (A : runs.Allocator σ ℤ) (mm : mm_struct) (pgdir : ℕ) (write : Bool) (va : BitVec 32)
    (s : Vm σ) : Prop :=
  ∃ vma s', (find_vma mm va).1 = some vma ∧ vma.vm_start ≤ va ∧
    pgfault_allowed (get_error_code write none) vma.vm_flags ∧
    do_pgfault.map A pgdir va vma.vm_flags s = some (0, s')

theorem do_pgfault_zero_iff {write : Bool} (hmm : mm.pgdir = some c) :
    (∃ r, do_pgfault A (some mm) (get_error_code write none) va s = some (0, r)) ↔
      PagedIn A mm c write va s := by
  have hpgdir : (find_vma mm va).2.pgdir = some c := hmm
  have hinval : (-E_INVAL : ℤ) ≠ 0 := by decide
  unfold do_pgfault PagedIn
  dsimp only
  rcases hvma : find_vma mm va with ⟨_ | vma, mm1⟩
  · simp [hinval]
  · rw [hvma] at hpgdir
    dsimp only at hpgdir ⊢
    split_ifs with hrefused
    · rcases hrefused with hlt | hflags
      · simp [hinval, hlt]
      · simp [hinval, hflags]
    · rw [not_or, BitVec.not_lt, not_not] at hrefused
      simp only [hpgdir, bind_eq_bind, bind_some, bind_eq_some_iff]
      constructor
      · rintro ⟨r, ⟨ret, s'⟩, hmap, heq⟩
        cases heq
        exact ⟨vma, s', rfl, hrefused.1, hrefused.2, hmap⟩
      · rintro ⟨_, s', ⟨⟩, -, -, hmap⟩
        exact ⟨_, (0, s'), hmap, rfl⟩

section
variable (hsize : A.size ≤ 2 ^ 19) (hclear : S.clear = 0) (h : s.Wf S D) (hmm : mm.pgdir = some c)
  (hc : c ∈ D) (random : BitVec 4) (write : Bool)
include hsize hclear h hmm hc

theorem handle_tlbmiss_user :
    ∃ r, handle_tlbmiss A random false write va c (some mm) s = some r := by
  cases hframe : frame (s.pte (slot c va)) with
  | none =>
    obtain ⟨ret, mm', s', hfault, -⟩ := do_pgfault_spec (X := ∅) hsize hclear h hmm hc
      (get_error_code write none) va
    rw [handle_tlbmiss_unmapped h hc hframe, hfault, bind_some, handle_tlbmiss.exit]
    split
    · exact ⟨_, rfl⟩
    · exact ⟨_, rfl⟩
  | some p =>
    obtain ⟨t, -, -, heq | heq⟩ := handle_tlbmiss_mapped h hc hframe
    · exact ⟨_, heq⟩
    · exact ⟨_, heq⟩

/-- In the kernel a TLB miss is handled where the page tables map the address, or where the page
fault is served. -/
theorem handle_tlbmiss_kernel_iff :
    (∃ r, handle_tlbmiss A random true write va c (some mm) s = some r) ↔
      (∃ p, frame (s.pte (slot c va)) = some p) ∨ PagedIn A mm c write va s := by
  cases hframe : frame (s.pte (slot c va)) with
  | none =>
    obtain ⟨ret, mm', s', hfault, -⟩ := do_pgfault_spec (X := ∅) hsize hclear h hmm hc
      (get_error_code write none) va
    rw [handle_tlbmiss_unmapped h hc hframe, ← do_pgfault_zero_iff hmm, hfault, bind_some,
      handle_tlbmiss.exit]
    by_cases hret : ret = 0 <;> simp [hret]
  | some p =>
    obtain ⟨t, -, -, heq | heq⟩ := handle_tlbmiss_mapped h hc hframe
    · exact iff_of_true ⟨_, heq⟩ (.inl ⟨p, rfl⟩)
    · exact iff_of_true ⟨_, heq⟩ (.inl ⟨p, rfl⟩)

end

variable {kmalloc : σ → Option (Bool × σ)} {m : Machine σ} {task : Task} {e : ExceptType}
  {tf : trapframe}

/-- The exceptions of a missing page. -/
def IsMiss (e : ExceptType) : Prop := e = .tlbl_inst ∨ e = .tlbl_data ∨ e = .tlbs

theorem Raised.dispatch (h : Raised e tf) (random : BitVec 4) (mm : Option mm_struct) :
    trap_dispatch A random tf c mm s = match e with
      | .interrupt => (ucore.interrupt_handler tf).map fun irqs => (.interrupts irqs, mm, s)
      | .tlbl_inst | .tlbl_data => trap_dispatch.tlbmiss A random tf c mm s false
      | .tlbs => trap_dispatch.tlbmiss A random tf c mm s true
      | .inst_invalid | .ADEL | .ADES => trap_dispatch.die tf mm s
      | .syscall => (syscall tf).map fun call => (.called call (tf.tf_epc + 4#32), mm, s)
      | _ => none := by
  unfold trap_dispatch
  simp only [h.code]
  cases e with
  | none => exact absurd rfl h.ne_none
  | eret => exact absurd rfl h.ne_eret
  | _ => rfl

/-- The frame of `e`, raised in the mode of `status`, with values in `v0` and `a1`. -/
def raisedFrame (status : BitVec 32) (e : ExceptType) (v0 a1 : BitVec 32) : trapframe :=
  let before : cp0_reg.State := ⟨0#32, 0#32, status, 0#32, 0#32, 0#32, false, 0#32, 0#32, 0#32,
    0#32, 0#32, 0#32, 0#32⟩
  let after := before.except e 0x10000000#32 false 0#32 0x10000000#32
  ⟨data_output false CP0_REG_BADVADDR (int_flag false false) after,
    data_output false CP0_REG_STATUS (int_flag false false) after,
    data_output false CP0_REG_CAUSE (int_flag false false) after, after.epc_output, v0, 0#32, a1,
    0#32, 0#32⟩

theorem raisedFrame_raised {e : ExceptType} (hnone : e ≠ .none) (heret : e ≠ .eret)
    (status v0 a1 : BitVec 32) : Raised e (raisedFrame status e v0 a1) :=
  ⟨hnone, heret, _, _, _, _, _, _, _, _, rfl, rfl, rfl, rfl⟩

/-- Where the trap was a system call, the traps that its access then makes are handled as well. -/
def GoesOn (A : runs.Allocator σ ℤ) (random : BitVec 4) (c : ℕ)
    (r : Dispatched × Option mm_struct × Vm σ) : Prop :=
  ∀ call epc, r.1 = .called call epc → ∀ e tf, call.Refused e → Raised e tf →
    trap_in_kernel tf = true → ∃ r', trap_dispatch A random tf c r.2.1 r.2.2 = some r'

theorem goesOn_called_iff {random : BitVec 4} {call : SysCall} {epc : BitVec 32}
    {mm : Option mm_struct} : GoesOn A random c (.called call epc, mm, s) ↔ ¬call.Misaligned := by
  constructor
  · -- the kernel panics on an address error of its own
    rintro h ⟨e, a, ha, ⟨rfl, herror⟩ | ⟨rfl, herror⟩⟩
    · have hraised : Raised .ADEL _ := raisedFrame_raised (by decide) (by decide) 0#32 0#32 0#32
      obtain ⟨r, hr⟩ := h call epc rfl _ _ ⟨a, ha, .inl ⟨rfl, herror⟩⟩ hraised (by decide)
      rw [hraised.dispatch] at hr
      cases hr
    · have hraised : Raised .ADES _ := raisedFrame_raised (by decide) (by decide) 0#32 0#32 0#32
      obtain ⟨r, hr⟩ := h call epc rfl _ _ ⟨a, ha, .inr ⟨rfl, herror⟩⟩ hraised (by decide)
      rw [hraised.dispatch] at hr
      cases hr
  · rintro hnot call' epc' ⟨⟩ e tf hrefused
    exact absurd ⟨e, hrefused⟩ hnot

end

/-- A process on the buddy allocator with a zone of 16 pages that has loaded a program with one
area for reading, has read from it, and now stores to it. -/
theorem exists_readOnly : ∃ (m : Machine Pages) (task : Task) (mm : mm_struct),
    Machine.Reach (buddySpec 16) (fun s => some (true, s)) m ∧ m.tasks m.current = some task ∧
    task.mm = some mm ∧ ¬ Isa.Allowed m.vm.tlb.tlb 0x10000000#32 true ∧
    Isa.refusal m.vm.tlb.tlb 0x10000000#32 true = .tlb_modify := by
  have hrun : ((Machine.boot 16).bind fun m0 =>
      (Machine.load_icode.start (buddyAllocator 16) (fun s => some (true, s)) m0).bind fun m1 =>
      (Machine.load_icode.map (fun s => some (true, s)) 0x10000000#32 0x1000#32
        (VM_READ ||| VM_EXEC) m1).bind fun m2 =>
      (Machine.load_icode.finish (buddyAllocator 16) (fun s => some (true, s)) m2).bind fun m3 =>
      (m3.tlbmiss (buddyAllocator 16) 5#4 false false 0x10000000#32).bind fun m4 =>
      (m4.tlbmiss (buddyAllocator 16) 5#4 false false 0x10000000#32).map fun m =>
        (((m3.tasks m3.current).bind (·.mm)).isSome,
          (Isa.lookup m3.vm.tlb.tlb 0x10000000#32).any Isa.Page.v,
          ((m4.tasks m4.current).bind (·.mm)).isSome,
          (Isa.lookup m4.vm.tlb.tlb 0x10000000#32).any Isa.Page.v,
          ((m.tasks m.current).bind (·.mm)).isSome,
          decide (Isa.Allowed m.vm.tlb.tlb 0x10000000#32 true ∨
            Isa.refusal m.vm.tlb.tlb 0x10000000#32 true ≠ .tlb_modify))) =
      some (true, false, true, false, true, false) := by decide +kernel
  simp only [bind_eq_some_iff] at hrun
  obtain ⟨m0, hboot, m1, hstart, m2, hmap, m3, hfinish, m4, hmiss3, hrun⟩ := hrun
  obtain ⟨m, hmiss4, heq⟩ := map_eq_some_iff.mp hrun
  simp only [Prod.mk.injEq, decide_eq_false_iff_not, not_or, not_not] at heq
  obtain ⟨huser3, hlookup3, huser4, hlookup4, huser, hnot, hrefusal⟩ := heq
  obtain ⟨task0, htask0, -⟩ := bind_eq_some_iff.mp hstart
  obtain ⟨mm3, huser3⟩ := isSome_iff_exists.mp huser3
  obtain ⟨task3, htask3, hmm3⟩ := bind_eq_some_iff.mp huser3
  obtain ⟨mm4, huser4⟩ := isSome_iff_exists.mp huser4
  obtain ⟨task4, htask4, hmm4⟩ := bind_eq_some_iff.mp huser4
  obtain ⟨mm, huser⟩ := isSome_iff_exists.mp huser
  obtain ⟨task, htask, hmm⟩ := bind_eq_some_iff.mp huser
  have hbooted := Machine.boot_booted (by decide) hboot
  have hloaded : Machine.Reach (buddySpec 16) (fun s => some (true, s)) m3 :=
    .step (.step (.step (.boot hbooted) (.load_start htask0 (hbooted.tasks _ _ htask0).2 hstart))
      (.load_map hmap)) (.load_finish hfinish)
  exact ⟨m, task, mm, .step (.step hloaded (.tlbmiss htask3 hmm3 hlookup3 hmiss3))
    (.tlbmiss htask4 hmm4 hlookup4 hmiss4), htask, hmm, hnot, hrefusal⟩

end ucore
