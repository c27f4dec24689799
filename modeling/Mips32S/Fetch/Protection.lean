import Mips32S.Exceptions.Return
import Mips32S.Fetch.Guard

namespace mips32s.CPU_TOP.Execution

open pipeline Isa
variable {e : Execution} {n t : ℕ}

/-- The address of instruction `t` had a valid translation, or needed none, when its
fetch was started and when it was delivered. -/
def Translated (e : Execution) (t : ℕ) : Prop :=
  FetchValid (e.state t).mmu (e.pc t) ∧ ∀ a, e.Fetching a t → FetchValid (e.state a).mmu (e.pc t)

theorem translated_of_guarded (h : e.Guarded t) (hdel : e.Delivered t) (hflag : ¬ e.Flagged t)
    (hpc : e.pc t ≠ ZeroWord) : e.Translated t := by
  have hmiss : mmu_is_tlbl_inst (e.state t) (e.input t) = false := by
    simpa [Flagged, fetched, if_output] using hflag
  refine ⟨?_, fun a ha => ?_⟩
  · cases hstore : (e.state t).ex2mem.mem_aluop.isStore with
    | true => exact h.masked (ibus_ne_idle_of_go hdel.1 hdel.2 hmiss) hstore hpc
    | false =>
      have hwe : mmu_we (e.state t) (e.input t) = false := by
        rw [mmu_we, mem.mem_we, hstore, Bool.and_false]
      exact fetchValid_of_not_tlbl hwe hmiss hpc
  · have hsame : e.pc t = (e.state a).if_pc_reg.PC_output := ha.pc
    rw [hsame] at hpc ⊢
    exact h.started a ha.lt ha.starts ha.quiet hpc

/-- Every instruction in the pipeline at an address other than zero is flagged, or
has been translated, or is behind a flagged one. -/
theorem translated_or_shadowed (hocc : (e.slots n).Occupies t) (hflag : ¬ e.Flagged t)
    (hpc : e.pc t ≠ ZeroWord) :
    e.Translated t ∨ ∃ f < t, (e.slots n).Occupies f ∧ e.Flagged f := by
  induction n with
  | zero => exact absurd (occupies_lt hocc) (by omega)
  | succ n ih =>
    have hctl : e.ctl n ≠ .flush := by
      intro hctl
      rw [slots_succ, hctl] at hocc
      simp at hocc
    -- a flagged instruction stays in the pipeline until it raises its exception
    have hstay {f : ℕ} (hf : (e.slots n).Occupies f) (hfl : e.Flagged f) :
        (e.slots (n + 1)).Occupies f :=
      hf.next _ hctl fun hwb => wb_not_flagged hwb hfl
    by_cases htn : t = n
    · subst htn
      have hdel : e.Delivered t := delivered_of_occupies hocc
      by_cases hun : e.Unflagged t
      · exact .inl (translated_of_guarded (guarded hun) hdel hflag hpc)
      · obtain ⟨f, hf, hfl⟩ : ∃ f, (e.slots t).Occupies f ∧ e.Flagged f := by
          simpa [Unflagged] using hun
        exact .inr ⟨f, occupies_lt hf, hstay hf hfl, hfl⟩
    · obtain h | ⟨f, hlt, hf, hfl⟩ := ih (occupies_of_succ hocc htn)
      · exact .inl h
      · exact .inr ⟨f, hlt, hstay hf hfl, hfl⟩

theorem translated_of_mem (hslot : (e.slots n).mem = some t) (hflag : ¬ e.Flagged t)
    (hpc : e.pc t ≠ ZeroWord) :
    e.Translated t := by
  have hord : (e.slots n).Ordered n := slots_ordered n
  obtain h | ⟨f, hlt, hf, hfl⟩ := translated_or_shadowed (.of_mem hslot) hflag hpc
  · exact h
  · obtain hid | hex | hmem | hwb := hf
    · exact absurd (hord.mem_id t hslot f hid) (by omega)
    · exact absurd (hord.mem_ex t hslot f hex) (by omega)
    · exact absurd (Option.some.inj (hmem.symm.trans hslot)) (by omega)
    · exact absurd hfl (wb_not_flagged hwb)

/-- Instruction `t` in MEM is refused in cycle `n`: it raises the exception for its
fetch, unless an interrupt comes first, it never commits, and the exception is
accounted to it. -/
structure Refused (e : Execution) (t n : ℕ) : Prop where
  excepttype : e.excepttype n =
    if interrupted (e.state n) (e.input n) then .interrupt else .tlbl_inst
  uncommitted : ∀ k, (e.slots k).wb ≠ some t
  badvaddr : e.excepttype n = .tlbl_inst → (e.state (n + 1)).cp0.badvaddr_output = e.pc t
  epc : e.EntryLaw n

theorem Flagged.refused (h : e.Flagged t) (hslot : (e.slots n).mem = some t) : e.Refused t n := by
  have hexc := h.excepttype hslot
  have hwb : (e.slots n).wb ≠ some t := fun hwb => ((slots_ordered n).wb_mem t hwb t hslot).false
  refine ⟨hexc, SquashedAt.wb_ne ⟨h.ctl hslot, .of_mem hslot, hwb⟩, fun htlbl => ?_, ?_⟩
  · have hin := inMem hslot
    rw [cp0_succ, htlbl]
    simp only [cp0_reg.State.except, mem.badvaddr_output, h.is_tlbl_inst hslot, if_true]
    exact hin.current_inst_addr
  · refine entryLaw ?_ ?_ <;> rw [hexc] <;> split_ifs <;> simp

theorem not_refused_of_pc_zero (hslot : (e.slots n).mem = some t) (hpc : e.pc t = ZeroWord) :
    ¬ e.Refused t n := by
  intro h
  have hnone : e.excepttype n = .none := by
    rw [← (inMem hslot).current_inst_addr] at hpc
    simp [excepttype, mem_excepttype_output, mem.excepttype_output, hpc]
  have hexc := hnone.symm.trans h.excepttype
  split_ifs at hexc

/-- Fetch protection. In every run, whatever the TLB holds, the loads and stores in
MEM and the bus delays, an instruction that reaches MEM has been translated or is
refused, exactly when it has been translated or its address is not zero. -/
theorem fetch_protection (e : Execution) (n t : ℕ) (hslot : (e.slots n).mem = some t) :
    (e.Translated t ∨ e.Refused t n) ↔ (e.Translated t ∨ e.pc t ≠ ZeroWord) := by
  refine or_congr_right' fun htrans =>
    ⟨fun h hpc => not_refused_of_pc_zero hslot hpc h, fun hpc => ?_⟩
  by_contra hno
  exact htrans (translated_of_mem hslot (fun hflag => hno (hflag.refused hslot)) hpc)

/-- `ori $1, $0, 0x2000; mtc0 $1, EntryHi; ori $2, $0, 2; mtc0 $2, EntryLo0; tlbwi` makes the page
0x2000 valid and 0x3000 not; `ori $3, $0, 0x2ffc; jr $3; nop` goes to the last word of the first,
`ori $4, $0, 5`, which `ori $4, $0, 6` follows. -/
def mappedFetch : Execution :=
  straight 0#8 [0x34012000#32, 0x40815000#32, 0x34020002#32, 0x40821000#32, EXE_TLBWI,
    0x34032FFC#32, 0x00600008#32, 0x00000000#32, 0x34040005#32, 0x34040006#32]

/-- The fetch from the valid page is translated and the next one, across its end, refused. -/
theorem fetch_protection_mapped :
    ((mappedFetch.slots 21).mem = some 18 ∧ mappedFetch.pc 18 = 0x2FFC#32 ∧
      mappedFetch.Translated 18 ∧ (mappedFetch.slots 22).wb = some 18) ∧
    (mappedFetch.slots 22).mem = some 19 ∧ mappedFetch.pc 19 = 0x3000#32 ∧
      mappedFetch.Refused 19 22 := by
  have hslot : (mappedFetch.slots 21).mem = some 18 := by decide +kernel
  have hslot' : (mappedFetch.slots 22).mem = some 19 := by decide +kernel
  have hwb : (mappedFetch.slots 22).wb = some 18 := by decide +kernel
  have hmiss : ¬ FetchValid (mappedFetch.state 19).mmu (mappedFetch.pc 19) := by decide +kernel
  refine ⟨⟨hslot, by decide +kernel, ?_, hwb⟩, hslot', by decide +kernel, ?_⟩
  · refine ((fetch_protection _ _ _ hslot).mpr (.inr (by decide +kernel))).resolve_right fun h => ?_
    exact h.uncommitted 22 hwb
  · refine ((fetch_protection _ _ _ hslot').mpr (.inr (by decide +kernel))).resolve_left fun h => ?_
    exact hmiss h.1

/-- `jr $0; nop` and, at the target, `ori $1, $0, 5`. -/
def zeroFetch : Execution := straight 0#8 [0x00000008#32, 0x00000000#32, 0x34010005#32]

/-- The instruction at address zero has no valid translation and commits. -/
theorem zeroFetch_commits :
    zeroFetch.pc 6 = 0#32 ∧ Mapped (zeroFetch.pc 6) ∧
      ¬ FetchValid (zeroFetch.state 6).mmu (zeroFetch.pc 6) ∧
      (zeroFetch.slots 9).mem = some 6 ∧ zeroFetch.excepttype 9 = .none ∧
      (zeroFetch.slots 10).wb = some 6 ∧ (zeroFetch.state 11).reg_dir 1#5 = 5#32 := by
  decide +kernel

end mips32s.CPU_TOP.Execution
