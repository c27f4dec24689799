import Mips32S.Kernel.Paging.Machine
import Mips32S.Kernel.Paging.SpaceEvolution

open mips32s.Isa Function Option Finset

namespace ucore

variable {σ : Type} {A : runs.Allocator σ ℤ} {S : runs.Spec A} {kmalloc : σ → Option (Bool × σ)}
  {m m' : Machine σ} {vm : Vm σ} {task task' : Task} {mm : mm_struct} {pid d next : ℕ}

/-- The directory of the address space of a task, or of the one it is loading. -/
def Task.dir (task : Task) : Option ℕ := (task.mm.or task.loading).bind (·.pgdir)

/-- A task has one address space at a time, with a directory, and `cr3` is that directory. -/
structure Task.Ok (task : Task) : Prop where
  excl : task.mm = none ∨ task.loading = none
  cr3 : ∀ mm, task.mm = some mm → mm.pgdir = some task.cr3
  loading : ∀ mm, task.loading = some mm → ∃ d, mm.pgdir = some d

def Machine.dirOf (m : Machine σ) (pid : ℕ) : Option ℕ := (m.tasks pid).bind Task.dir

/-- Page tables, tasks and TLB fit together: every address space has a directory of its own,
the boot directory stays empty, and while the current task has an address space the TLB agrees
with its directory. -/
structure Machine.Inv (S : runs.Spec A) (m : Machine σ) : Prop where
  wf : m.vm.Wf S m.dirs
  boot : m.boot_pgdir ∈ m.dirs
  bare : Bare m.boot_pgdir m.vm
  ok : ∀ pid task, m.tasks pid = some task → task.Ok
  dir : ∀ pid d, m.dirOf pid = some d → d ∈ m.dirs ∧ d ≠ m.boot_pgdir
  inj : ∀ pid pid' d, m.dirOf pid = some d → m.dirOf pid' = some d → pid = pid'
  coherent : ∀ task mm, m.tasks m.current = some task → task.mm = some mm →
    m.current_pgdir = task.cr3 ∧ Coherent m.current_pgdir m.vm

theorem Task.Ok.dir_of_mm (h : task.Ok) (hmm : task.mm = some mm) : task.dir = some task.cr3 := by
  simp [Task.dir, hmm, h.cr3 mm hmm]

theorem Task.Ok.dir_of_loading (h : task.Ok) (hmm : task.loading = some mm) :
    task.dir = mm.pgdir := by
  have hnone : task.mm = none := h.excl.resolve_right (by simp [hmm])
  simp [Task.dir, hnone, hmm]

theorem Machine.dirOf_setTask (m : Machine σ) (pid pid' : ℕ) (task : Task) :
    (m.setTask pid task).dirOf pid' = if pid' = pid then task.dir else m.dirOf pid' := by
  by_cases h : pid' = pid
  · subst h
    simp [Machine.dirOf, Machine.setTask]
  · simp [Machine.dirOf, Machine.setTask, h]

theorem Machine.tasks_setTask (h : (m.setTask pid task).tasks d = some task') :
    d = pid ∧ task' = task ∨ d ≠ pid ∧ m.tasks d = some task' := by
  by_cases hd : d = pid
  · subst hd
    simp only [Machine.setTask, update_self, some_inj] at h
    exact .inl ⟨rfl, h.symm⟩
  · simp only [Machine.setTask, update_of_ne hd] at h
    exact .inr ⟨hd, h⟩

namespace Machine.Inv

variable (h : m.Inv S)
include h

theorem dir_of_mm (htask : m.tasks pid = some task) (hmm : task.mm = some mm) :
    m.dirOf pid = some task.cr3 := by
  simp [Machine.dirOf, htask, (h.ok pid task htask).dir_of_mm hmm]

theorem of_vm (hwf : vm.Wf S m.dirs) (hbare : Bare m.boot_pgdir vm)
    (hcoh : m.current_pgdir ∈ m.dirs → Coherent m.current_pgdir m.vm →
      Coherent m.current_pgdir vm) :
    Machine.Inv S { m with vm } where
  wf := hwf
  boot := h.boot
  bare := hbare
  ok := h.ok
  dir := h.dir
  inj := h.inj
  coherent task mm htask hmm := by
    obtain ⟨hcr3, hold⟩ := h.coherent task mm htask hmm
    have hmem := (h.dir _ _ (h.dir_of_mm htask hmm)).1
    rw [← hcr3] at hmem
    exact ⟨hcr3, hcoh hmem hold⟩

theorem of_evolves (hd : d ≠ m.boot_pgdir) (he : Evolves S m.dirs ∅ d m.vm vm) :
    Machine.Inv S { m with vm } :=
  h.of_vm he.wf (he.bare _ h.boot (Ne.symm hd) h.bare) fun hc hcoh =>
    hcoh.calm (he.calm _ hc (notMem_empty _))

theorem setTask (hok : task.Ok)
    (hdir : ∀ d, task.dir = some d → d ∈ m.dirs ∧ d ≠ m.boot_pgdir ∧
      ∀ pid', m.dirOf pid' = some d → pid' = pid)
    (hcoh : pid = m.current → ∀ mm, task.mm = some mm →
      m.current_pgdir = task.cr3 ∧ Coherent m.current_pgdir m.vm) :
    (m.setTask pid task).Inv S where
  wf := h.wf
  boot := h.boot
  bare := h.bare
  ok pid' task' htask' := by
    rcases tasks_setTask htask' with ⟨-, rfl⟩ | ⟨-, hold⟩
    · exact hok
    · exact h.ok pid' task' hold
  dir pid' d hd := by
    rw [dirOf_setTask] at hd
    split at hd
    · exact ⟨(hdir d hd).1, (hdir d hd).2.1⟩
    · exact h.dir pid' d hd
  inj pid1 pid2 d h1 h2 := by
    rw [dirOf_setTask] at h1 h2
    split at h1 <;> split at h2 <;> rename_i e1 e2
    · exact e1.trans e2.symm
    · exact absurd ((hdir d h1).2.2 pid2 h2) e2
    · exact absurd ((hdir d h2).2.2 pid1 h1) e1
    · exact h.inj pid1 pid2 d h1 h2
  coherent task' mm htask' hmm := by
    rcases tasks_setTask htask' with ⟨hcur, rfl⟩ | ⟨-, hold⟩
    · exact hcoh hcur.symm mm hmm
    · exact h.coherent task' mm hold hmm

theorem newDir (hn : NewDir S m.dirs d m.vm vm) :
    Machine.Inv S { m with vm, dirs := insert d m.dirs } where
  wf := hn.wf
  boot := mem_insert_of_mem h.boot
  bare := hn.bare _ h.boot h.bare
  ok := h.ok
  dir pid d hd := ⟨mem_insert_of_mem (h.dir pid d hd).1, (h.dir pid d hd).2⟩
  inj := h.inj
  coherent task mm htask hmm := by
    obtain ⟨hcr3, hold⟩ := h.coherent task mm htask hmm
    have hmem := (h.dir _ _ (h.dir_of_mm htask hmm)).1
    rw [← hcr3] at hmem
    exact ⟨hcr3, hold.calm (hn.calm _ hmem)⟩

theorem putDir (hd : d ≠ m.boot_pgdir) (hno : ∀ pid, m.dirOf pid ≠ some d)
    (hwf : vm.Wf S (m.dirs.erase d)) (hbare : Bare m.boot_pgdir vm)
    (hcalm : ∀ c ∈ m.dirs, c ≠ d → Calm c m.vm vm) :
    Machine.Inv S { m with vm, dirs := m.dirs.erase d } := by
  have hne : ∀ {pid c}, m.dirOf pid = some c → c ≠ d := fun hc heq => hno _ (heq ▸ hc)
  refine ⟨hwf, mem_erase.mpr ⟨Ne.symm hd, h.boot⟩, hbare, h.ok, fun pid c hc => ?_, h.inj,
    fun task mm htask hmm => ?_⟩
  · exact ⟨mem_erase.mpr ⟨hne hc, (h.dir pid c hc).1⟩, (h.dir pid c hc).2⟩
  · obtain ⟨hcr3, hold⟩ := h.coherent task mm htask hmm
    have hdir := h.dir_of_mm htask hmm
    rw [← hcr3] at hdir
    exact ⟨hcr3, hold.calm (hcalm _ (h.dir _ _ hdir).1 (hne hdir))⟩

/-- The current directory does not matter while the current task has no address space. -/
theorem lcr3 (hnone : ∀ task, m.tasks m.current = some task → task.mm = none) (cr3 : ℕ) :
    (m.lcr3 cr3).Inv S where
  wf := h.wf
  boot := h.boot
  bare := h.bare
  ok := h.ok
  dir := h.dir
  inj := h.inj
  coherent task mm htask hmm := by
    rw [hnone task htask] at hmm
    cases hmm

/-- A process switch flushes the TLB. -/
theorem proc_run (heq : m.proc_run next = some m') : m'.Inv S := by
  obtain ⟨task, htask, heq⟩ := bind_eq_some_iff.mp heq
  split at heq
  · cases heq
    have hflush : Flushed m.vm.tlb_invalidate_all.tlb := tlb_invalidate_all_flushed m.vm.tlb
    refine ⟨h.wf.tlb_invalidate_all, h.boot, h.bare, h.ok, h.dir, h.inj,
      fun task' mm htask' _ => ⟨?_, hflush.coherent _⟩⟩
    cases htask.symm.trans htask'
    rfl
  · cases heq
    exact h

theorem drop {vm1 vm2 : Vm σ} (hd : d ∈ m.dirs) (hb : d ≠ m.boot_pgdir)
    (hno : ∀ pid, m.dirOf pid ≠ some d) (hmm : mm.pgdir = some d)
    (he : Evolves S m.dirs {d} d m.vm vm1) (hput : put_pgdir A mm vm1 = some vm2) :
    Machine.Inv S { m with vm := vm2, dirs := m.dirs.erase d } := by
  obtain ⟨hwf, hmem, htlb⟩ := put_pgdir_spec he.wf hmm hd hput
  have hbare := he.bare _ h.boot (Ne.symm hb) h.bare
  refine h.putDir hb hno hwf (fun i hi => ?_) fun c hc hne => ?_
  · rw [Vm.table, hmem]
    exact hbare i hi
  · refine (he.calm c hc (by simpa using hne)).trans (.inr ⟨htlb, fun x _ => ?_⟩)
    simp only [Vm.pte, Vm.table, hmem]

theorem release_mm (heq : m.release_mm A = some m') : m'.Inv S := by
  obtain ⟨task, htask, heq⟩ := bind_eq_some_iff.mp heq
  cases hmm : task.mm with
  | none =>
    rw [hmm] at heq
    cases heq
    exact h
  | some mm =>
    have hok := h.ok _ task htask
    have hpgdir := hok.cr3 mm hmm
    have hcur := h.dir_of_mm htask hmm
    obtain ⟨hmem, hb⟩ := h.dir _ _ hcur
    have hload : task.loading = none := hok.excl.resolve_left (by simp [hmm])
    simp only [hmm, hpgdir, bind_eq_bind, bind_some] at heq
    obtain ⟨vm1, hexit, heq⟩ := bind_eq_some_iff.mp heq
    obtain ⟨vm2, hput, heq⟩ := bind_eq_some_iff.mp heq
    cases heq
    -- the task without its address space, still before the pages are freed
    have hset : (m.setTask m.current { task with mm := none }).Inv S := by
      refine h.setTask ⟨.inl rfl, by simp, by simp [hload]⟩ (fun d hd => ?_) (by simp)
      simp [Task.dir, hload] at hd
    have hno : ∀ pid, (m.setTask m.current { task with mm := none }).dirOf pid ≠ some task.cr3 := by
      intro pid hpid
      rw [dirOf_setTask] at hpid
      split at hpid
      · simp [Task.dir, hload] at hpid
      · exact absurd (h.inj _ _ _ hpid hcur) ‹_›
    have hlcr3 := hset.lcr3 (fun task' htask' => by
      rcases tasks_setTask htask' with ⟨-, rfl⟩ | ⟨hne, -⟩
      · rfl
      · exact absurd rfl hne) m.boot_pgdir
    exact hlcr3.drop hmem hb hno hpgdir (exit_mmap_evolves h.wf hpgdir hmem hexit) hput

end Machine.Inv

end ucore
