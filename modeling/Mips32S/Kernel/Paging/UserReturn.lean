import Mips32S.Kernel.Paging.Tasks

open mips32s.Isa Function
open Option (bind_eq_bind bind_eq_some_iff bind_some)

namespace ucore

variable {σ : Type} {A : runs.Allocator σ ℤ} {S : runs.Spec A} {D X : Finset ℕ}
  {kmalloc : σ → Option (Bool × σ)} {m m' : Machine σ} {s s' vm : Vm σ} {task task' : Task}
  {mm mm' : mm_struct} {p d pid i child npage : ℕ} {page : mips32s.Isa.Page} {va : BitVec 32}
  {random : BitVec 4}

theorem Evolves.of_write (d : ℕ) (h : s.Wf S D) (hp : IsData S D s p) (i : ℕ) (w : BitVec 32) :
    Evolves S D X d s (s.write (p, i) w) := by
  refine .of_mem d h rfl rfl fun q hq => ?_
  have hne : q ≠ p := fun heq => hq (heq ▸ hp)
  simp [Vm.write, hne]

theorem Coherent.isData (hcoh : Coherent d s) (h : s.Wf S D) (hd : d ∈ D) (hva : va < USERTOP)
    (hpage : lookup s.tlb.tlb va = some page) (hv : page.v = true) :
    IsData S D s page.pfn.toNat := by
  obtain ⟨j, hprobe, rfl⟩ := Option.map_eq_some_iff.mp hpage
  obtain ⟨hv', -, hpfn⟩ := hcoh.agrees j va hva (probe_eq_some_iff.mp hprobe).1
  have hpres : ptep_present (s.pte (slot d va)) := hv'.symm.trans hv
  refine h.data (slot d va) (slot_mem hd) _ ?_
  rw [frame, if_pos hpres, hpfn hpres]

theorem Effect.evolves (h : Effect S D d s s') : Evolves S D X d s s' := by
  cases h with
  | extend he => exact he.evolves
  | unmap _ hu => exact hu.evolves d
  | map _ hm => exact hm.evolves
  | alloc _ hn hm => exact (Evolves.of_pmm d hn.wf).trans hm.evolves

namespace Machine.Inv

section
variable (h : m.Inv S)
include h

theorem of_current (htask : m.tasks m.current = some task) (hmm : task.mm = some mm) :
    m.current_pgdir ∈ m.dirs ∧ m.current_pgdir ≠ m.boot_pgdir ∧ mm.pgdir = some m.current_pgdir ∧
      Coherent m.current_pgdir m.vm := by
  obtain ⟨hcr3, hcoh⟩ := h.coherent task mm htask hmm
  have hdir := h.dir _ _ (h.dir_of_mm htask hmm)
  rw [hcr3] at hcoh ⊢
  exact ⟨hdir.1, hdir.2, (h.ok _ task htask).cr3 mm hmm, hcoh⟩

theorem of_evolves_all (he : ∀ d, Evolves S m.dirs ∅ d m.vm vm) : Machine.Inv S { m with vm } :=
  h.of_evolves (Nat.succ_ne_self m.boot_pgdir) (he _)

theorem of_kmalloc (hk : TakesPages S kmalloc) (hclear : S.clear = 0) {ok : Bool}
    (heq : m.vm.kmalloc kmalloc = some (ok, vm)) : Machine.Inv S { m with vm } := by
  exact h.of_evolves_all fun d => hk.evolves hclear d h.wf heq

theorem user_store (w : BitVec 32) (htask : m.tasks m.current = some task) (hmm : task.mm = some mm)
    (hva : va < USERTOP) (hpage : lookup m.vm.tlb.tlb va = some page) (hv : page.v = true) :
    Machine.Inv S { m with vm := m.vm.write (page.pfn.toNat, i) w } := by
  obtain ⟨hmem, -, -, hcoh⟩ := h.of_current htask hmm
  exact h.of_evolves_all fun d => .of_write d h.wf (hcoh.isData h.wf hmem hva hpage hv) i w

theorem reap (pid : ℕ) : Machine.Inv S { m with tasks := update m.tasks pid none } := by
  have htasks : ∀ {pid' task'}, update m.tasks pid none pid' = some task' →
      m.tasks pid' = some task' := by
    intro pid' task' h'
    by_cases heq : pid' = pid
    · subst heq
      simp at h'
    · rwa [update_of_ne heq] at h'
  have hdirOf : ∀ {pid' d}, Machine.dirOf { m with tasks := update m.tasks pid none } pid'
      = some d → m.dirOf pid' = some d := by
    intro pid' d h'
    obtain ⟨task', htask', hdir⟩ := bind_eq_some_iff.mp h'
    exact bind_eq_some_iff.mpr ⟨task', htasks htask', hdir⟩
  exact ⟨h.wf, h.boot, h.bare, fun pid' task' h' => h.ok pid' task' (htasks h'),
    fun pid' d h' => h.dir pid' d (hdirOf h'), fun pid1 pid2 d h1 h2 =>
      h.inj pid1 pid2 d (hdirOf h1) (hdirOf h2),
    fun task' mm h' hmm => h.coherent task' mm (htasks h') hmm⟩

theorem setTask_newDir (hn : NewDir S m.dirs d m.vm vm) (hok : task.Ok) (hdir : task.dir = some d)
    (hcur : pid = m.current → task.mm = none) :
    Machine.Inv S { m.setTask pid task with vm, dirs := insert d m.dirs } := by
  refine (h.newDir hn).setTask hok (fun d' hd' => ?_) (fun heq mm hmm => ?_)
  · cases hdir.symm.trans hd'
    refine ⟨Finset.mem_insert_self d _, fun heq => hn.fresh (heq ▸ h.boot), fun pid' hpid' => ?_⟩
    exact absurd (h.dir pid' d hpid').1 hn.fresh
  · rw [hcur heq] at hmm
    cases hmm

theorem setTask_same (htask : m.tasks pid = some task) (hok : task'.Ok)
    (hdir : task'.dir = task.dir)
    (hcoh : pid = m.current → ∀ mm, task'.mm = some mm →
      m.current_pgdir = task'.cr3 ∧ Coherent m.current_pgdir m.vm) :
    (m.setTask pid task').Inv S := by
  refine h.setTask hok (fun d hd => ?_) hcoh
  have hold : m.dirOf pid = some d := by rw [Machine.dirOf, htask, bind_some, ← hdir, hd]
  exact ⟨(h.dir pid d hold).1, (h.dir pid d hold).2, fun pid' hpid' => h.inj pid' pid d hpid' hold⟩

end

section
variable (hsize : A.size ≤ 2 ^ 19) (hclear : S.clear = 0) (hk : TakesPages S kmalloc)
include hsize hclear

section
variable {va : BitVec 32} (h : m.Inv S) (htask : m.tasks m.current = some task)
  (hmm : task.mm = some mm) (hmiss : (lookup m.vm.tlb.tlb va).any mips32s.Isa.Page.v = false)
include h htask hmm hmiss

theorem handled {in_kernel write : Bool} {how : TrapEnd} {mm' : Option mm_struct}
    (heq : handle_tlbmiss A random in_kernel write va m.current_pgdir (some mm) m.vm =
      some (how, mm', vm)) :
    Machine.Inv S { m.setTask m.current { task with mm := mm' } with vm } := by
  obtain ⟨hmem, hb, hpgdir, hcoh⟩ := h.of_current htask hmm
  obtain ⟨⟨mm1, rfl, hpgdir1⟩, hwf, hcoh', hbare⟩ :=
    handle_tlbmiss_coherent hsize hclear h.wf hpgdir hmem hcoh hmiss heq
  have hok := h.ok _ task htask
  have hcr3 := (h.coherent task mm htask hmm).1
  have hload : task.loading = none := hok.excl.resolve_left (by simp [hmm])
  have h1 : Machine.Inv S { m with vm } :=
    h.of_vm hwf (hbare _ h.boot (Ne.symm hb) h.bare) fun _ _ => hcoh'
  refine h1.setTask_same htask ⟨.inr hload, ?_, by simp [hload]⟩ ?_ fun _ _ _ => ⟨hcr3, hcoh'⟩
  · rintro _ ⟨⟩
    rw [hpgdir1, hcr3]
  · rw [hok.dir_of_mm hmm, Task.dir, Option.some_or, bind_some, hpgdir1, hcr3]

theorem tlbmiss {in_kernel write : Bool} (heq : m.tlbmiss A random in_kernel write va = some m') :
    m'.Inv S := by
  simp only [Machine.tlbmiss, htask, hmm, bind_eq_bind, bind_some] at heq
  obtain ⟨⟨how, mm', vm⟩, hhandle, heq⟩ := bind_eq_some_iff.mp heq
  have h2 := h.handled hsize hclear htask hmm hmiss hhandle
  cases how with
  | resume =>
    cases heq
    exact h2
  | kill => exact h2.release_mm heq

end

include hk

theorem do_fork (h : m.Inv S) (hchild : m.tasks child = none)
    (heq : m.do_fork A kmalloc child = some m') : m'.Inv S := by
  obtain ⟨task, htask, heq⟩ := bind_eq_some_iff.mp heq
  have hne : child ≠ m.current := by
    rintro rfl
    rw [hchild] at htask
    cases htask
  cases hmm : task.mm with
  | none =>
    rw [hmm] at heq
    cases heq
    exact h.setTask ⟨.inl rfl, by simp, by simp⟩ (by simp [Task.dir]) fun heq => absurd heq hne
  | some oldmm =>
    obtain ⟨hmem, -, hold, -⟩ := h.of_current htask hmm
    rw [hmm] at heq
    obtain ⟨⟨ret, new, vm⟩, hcopy, heq⟩ := bind_eq_some_iff.mp heq
    rcases copy_mm_cases hsize hclear hk h.wf h.bare h.boot hold hmem hcopy with
      ⟨rfl, hwf, hbare, hcalm⟩ | ⟨mm, d, rfl, hd, hn⟩
    · cases heq
      exact h.of_vm hwf hbare fun hc hcoh => hcoh.calm (hcalm _ hc)
    · simp only [hd, bind_eq_bind, bind_some] at heq
      cases heq
      refine h.setTask_newDir hn ⟨.inr rfl, ?_, by simp⟩ ?_ fun heq => absurd heq hne
      · rintro _ ⟨⟩
        exact hd
      · simp [Task.dir, hd]

theorem load_start (h : m.Inv S) (heq : Machine.load_icode.start A kmalloc m = some m') :
    m'.Inv S := by
  obtain ⟨task, htask, heq⟩ := bind_eq_some_iff.mp heq
  obtain ⟨_, hguard, heq⟩ := bind_eq_some_iff.mp heq
  have hnone : task.mm = none := by simpa [guard] using hguard
  obtain ⟨⟨fresh, vm1⟩, hfresh, heq⟩ := bind_eq_some_iff.mp heq
  have h1 := h.of_kmalloc hk hclear hfresh
  cases fresh with
  | false =>
    cases heq
    exact h1
  | true =>
    obtain ⟨⟨ret, mm, vm2⟩, hsetup, hrest⟩ := bind_eq_some_iff.mp heq
    rcases setup_pgdir_cases hsize hclear h1.wf h1.bare hsetup with
      ⟨hne, rfl, rfl⟩ | ⟨rfl, d, rfl, hn⟩
    · simp only [hne, if_false] at hrest
      cases hrest
      exact h1
    · cases hrest
      refine h1.setTask_newDir hn ⟨.inl hnone, by simp [hnone], by simp⟩ ?_ fun _ => hnone
      simp [Task.dir, hnone]

omit hsize in
theorem load_map (h : m.Inv S) {addr len vm_flags : BitVec 32}
    (heq : Machine.load_icode.map kmalloc addr len vm_flags m = some m') : m'.Inv S := by
  simp only [Machine.load_icode.map, bind_eq_bind, bind_eq_some_iff] at heq
  obtain ⟨task, htask, mm, hload, ⟨fresh, vm⟩, hfresh, ⟨ret, mm'⟩, hmap, heq⟩ := heq
  cases heq
  have hok := h.ok _ task htask
  have hnone : task.mm = none := hok.excl.resolve_right (by simp [hload])
  have hpgdir := mm_map_pgdir hmap
  refine (h.of_kmalloc hk hclear hfresh).setTask_same htask ⟨.inl hnone, by simp [hnone], ?_⟩ ?_
    (by simp [hnone])
  · rintro _ ⟨⟩
    rw [hpgdir]
    exact hok.loading mm hload
  · rw [hok.dir_of_loading hload, ← hpgdir]
    simp [Task.dir, hnone]

omit hk in
theorem stackPage_evolves {vm' : Vm σ} {k : ℕ} (hwf : vm.Wf S D) (hd : d ∈ D)
    (heq : Machine.load_icode.stackPage A d vm k = some vm') :
    Evolves S D ∅ d vm vm' ∧ Flushed vm'.tlb := by
  obtain ⟨⟨page, vm1⟩, halloc, heq⟩ := bind_eq_some_iff.mp heq
  obtain ⟨_, hguard, heq⟩ := bind_eq_some_iff.mp heq
  cases heq
  have hperm : PTE_ADDR PTE_USER = 0#32 := by decide
  rcases pgdir_alloc_page_cases hsize hclear hwf hd hperm _ with
    ⟨s1, hnone, -⟩ | ⟨page, pmm, s1, hsome, hn, hm⟩
  · rw [hnone] at halloc
    cases halloc
    simp [guard] at hguard
  · rw [hsome] at halloc
    cases halloc
    exact ⟨(Evolves.of_pmm d hn.wf).trans hm.evolves, hm.flushed⟩

omit hk in
theorem stack_evolves {vm' : Vm σ} (hwf : vm.Wf S D) (hd : d ∈ D)
    (heq : Machine.load_icode.stack A d vm = some vm') :
    Evolves S D ∅ d vm vm' ∧ Flushed vm'.tlb := by
  simp only [Machine.load_icode.stack, List.foldlM_cons, bind_eq_bind, bind_eq_some_iff] at heq
  obtain ⟨vm1, h1, vm2, h2, vm3, h3, vm4, h4, heq⟩ := heq
  cases heq
  obtain ⟨e1, -⟩ := stackPage_evolves hsize hclear hwf hd h1
  obtain ⟨e2, -⟩ := stackPage_evolves hsize hclear e1.wf hd h2
  obtain ⟨e3, -⟩ := stackPage_evolves hsize hclear e2.wf hd h3
  obtain ⟨e4, hflush⟩ := stackPage_evolves hsize hclear e3.wf hd h4
  exact ⟨((e1.trans e2).trans e3).trans e4, hflush⟩

/-- The switch to the new address space needs no flush of its own: mapping the stack has flushed
the TLB. -/
theorem load_finish (h : m.Inv S) (heq : Machine.load_icode.finish A kmalloc m = some m') :
    m'.Inv S := by
  simp only [Machine.load_icode.finish, bind_eq_bind, bind_eq_some_iff] at heq
  obtain ⟨task, htask, mm, hload, ⟨fresh, vm1⟩, hfresh, ⟨ret, mm'⟩, hmap, _, -, d, hd, vm2, hstack,
    heq⟩ := heq
  cases heq
  have hok := h.ok _ task htask
  have hnone : task.mm = none := hok.excl.resolve_right (by simp [hload])
  have hdir : task.dir = some d := by
    rwa [hok.dir_of_loading hload, ← mm_map_pgdir hmap]
  obtain ⟨hmem, hb⟩ := h.dir m.current d (by rw [Machine.dirOf, htask, bind_some, hdir])
  have h1 := h.of_kmalloc hk hclear hfresh
  obtain ⟨he, hflush⟩ := stack_evolves hsize hclear h1.wf hmem hstack
  have h2 := (h1.of_evolves hb he).lcr3 (fun task' htask' => by
    cases htask.symm.trans htask'
    exact hnone) d
  refine h2.setTask_same htask ⟨.inr rfl, ?_, by simp⟩ ?_ fun _ _ _ => ⟨rfl, hflush.coherent _⟩
  · rintro _ ⟨⟩
    exact hd
  · rw [hdir]
    simpa [Task.dir] using hd

omit hsize hclear hk in
theorem load_fail (h : m.Inv S) {unmap : Bool}
    (heq : Machine.load_icode.fail A unmap m = some m') : m'.Inv S := by
  simp only [Machine.load_icode.fail, bind_eq_bind, bind_eq_some_iff] at heq
  obtain ⟨task, htask, mm, hload, vm1, hexit, vm2, hput, d, hd, heq⟩ := heq
  cases heq
  have hok := h.ok _ task htask
  have hnone : task.mm = none := hok.excl.resolve_right (by simp [hload])
  have hcur : m.dirOf m.current = some d := by
    rw [Machine.dirOf, htask, bind_some, hok.dir_of_loading hload, hd]
  obtain ⟨hmem, hb⟩ := h.dir m.current d hcur
  have he : Evolves S m.dirs {d} d m.vm vm1 := by
    cases unmap with
    | true => exact exit_mmap_evolves h.wf hd hmem hexit
    | false =>
      cases hexit
      exact .refl d h.wf
  have hset : (m.setTask m.current { task with loading := none }).Inv S :=
    h.setTask ⟨.inl hnone, by simp [hnone], by simp⟩ (by simp [Task.dir, hnone]) (by simp [hnone])
  refine hset.drop hmem hb (fun pid hpid => ?_) hd he hput
  rw [dirOf_setTask] at hpid
  split at hpid
  · simp [Task.dir, hnone] at hpid
  · exact absurd (h.inj _ _ _ hpid hcur) ‹_›

theorem step (h : m.Inv S) (hstep : m.Step S kmalloc m') : m'.Inv S := by
  cases hstep with
  | alloc_pages hpos hn heq =>
    exact h.of_evolves_all fun d =>
      .of_pmm d (h.wf.grow hclear (S.alloc_grows h.wf.inv hpos hn heq))
  | free_pages hr hn hlo hhi hunmapped heq =>
    exact h.of_evolves_all fun d =>
      .of_pmm d (h.wf.shrink (S.free_shrinks h.wf.inv hr hn hlo hhi heq) hunmapped)
  | store i w hp => exact h.of_evolves_all fun d => .of_write d h.wf hp i w
  | user_store w htask hmm hva hpage hv _ => exact h.user_store w htask hmm hva hpage hv
  | call c hc hne heq =>
    obtain ⟨s', hsome, heffect⟩ := c.effect hsize hclear h.wf hc
    cases hsome.symm.trans heq
    exact h.of_evolves hne heffect.evolves
  | tlbmiss htask hmm hmiss heq => exact h.tlbmiss hsize hclear htask hmm hmiss heq
  | fork hchild heq => exact h.do_fork hsize hclear hk hchild heq
  | release_mm heq => exact h.release_mm heq
  | load_start _ _ heq => exact h.load_start hsize hclear hk heq
  | load_map heq => exact h.load_map hclear hk heq
  | load_finish heq => exact h.load_finish hsize hclear hk heq
  | load_fail heq => exact h.load_fail heq
  | proc_run heq => exact h.proc_run heq
  | reap _ _ _ _ => exact h.reap _

end

theorem of_booted (h : m.Booted S) : m.Inv S := by
  have htable : ∀ d ∈ m.dirs, ∀ i < 1024, m.vm.table d i = none := by
    intro d hd i hi
    rw [h.dirs, Finset.mem_singleton] at hd
    rw [hd]
    exact h.bare i hi
  have hpte : ∀ x ∈ slots m.dirs, m.vm.pte x = 0#32 := by
    intro x hx
    obtain ⟨hd, hi, -⟩ := mem_slots.mp hx
    simp [Vm.pte, htable _ hd _ hi]
  have hdirOf : ∀ pid d, m.dirOf pid ≠ some d := by
    intro pid d hd
    obtain ⟨task, htask, hd⟩ := bind_eq_some_iff.mp hd
    obtain ⟨hmm, hload⟩ := h.tasks pid task htask
    simp [Task.dir, hmm, hload] at hd
  refine ⟨⟨h.inv, fun d hd => ?_, fun d hd i hi t ht => ?_, fun d hd i hi d' hd' i' hi' t ht => ?_,
    fun x hx p hp => ?_, fun x hx _ => hpte x hx, fun p hp => ?_⟩, ?_, h.bare,
      fun pid task htask => ?_,
    fun pid d hd => absurd hd (hdirOf pid d), fun pid pid' d hd => absurd hd (hdirOf pid d),
    fun task mm htask hmm => ?_⟩
  · rw [h.dirs, Finset.mem_singleton] at hd
    rw [hd]
    exact h.boot_owned
  · rw [htable d hd i hi] at ht
    cases ht
  · rw [htable d hd i hi] at ht
    cases ht
  · rw [hpte x hx, frame_zero] at hp
    cases hp
  · have hzero : count m.dirs m.vm p = 0 :=
      count_eq_zero_iff.mpr fun x hx hpx => by
        rw [hpte x hx, frame_zero] at hpx
        cases hpx
    rw [hzero]
    exact h.ref_nonneg p hp
  · rw [h.dirs]
    exact Finset.mem_singleton_self _
  · obtain ⟨hmm, hload⟩ := h.tasks pid task htask
    exact ⟨.inl hmm, by simp [hmm], by simp [hload]⟩
  · rw [(h.tasks _ task htask).1] at hmm
    cases hmm

end Machine.Inv

section
variable (hsize : A.size ≤ 2 ^ 19) (hclear : S.clear = 0) (hk : TakesPages S kmalloc)
include hsize hclear hk

theorem Machine.Reach.inv (h : Machine.Reach S kmalloc m) : m.Inv S := by
  induction h with
  | boot hboot => exact .of_booted hboot
  | step _ hstep ih => exact ih.step hsize hclear hk hstep

/-- In every history, while the current process has an address space the current directory is
that of the address space, every TLB entry that can match a user address says what the page
tables of this directory say, and no two entries match the same address. A process without an
address space does not run in user mode. -/
theorem tlb_coherent (h : Machine.Reach S kmalloc m) (htask : m.tasks m.current = some task)
    (hmm : task.mm = some mm) :
    mm.pgdir = some m.current_pgdir ∧
    (∀ j va, va < USERTOP → (m.vm.tlb.tlb j).Matches va →
      Agrees ((m.vm.tlb.tlb j).page va) (m.vm.pte (slot m.current_pgdir va))) ∧
    ∀ j k va, va < USERTOP → (m.vm.tlb.tlb j).Matches va → (m.vm.tlb.tlb k).Matches va →
      j = k := by
  obtain ⟨-, -, hpgdir, hcoh⟩ := (h.inv hsize hclear hk).of_current htask hmm
  exact ⟨hpgdir, hcoh.agrees, hcoh.unique⟩

end

/-- The machine after the boot on the buddy allocator, with one kernel thread. -/
def Machine.boot (npage : ℕ) : Option (Machine Pages) := do
  let pmm ← Pages.boot npage
  let (page, pmm) ← (buddyAllocator npage).alloc 1 pmm
  let boot_pgdir ← page
  return ⟨⟨pmm, fun _ _ => 0#32, .reset⟩,
    fun pid => if pid = 0 then some ⟨none, boot_pgdir, none⟩ else none, 0, boot_pgdir, boot_pgdir,
    {boot_pgdir}⟩

theorem Machine.boot_booted {m : Machine Pages} (hpos : 0 < npage)
    (h : Machine.boot npage = some m) : m.Booted (buddySpec npage) := by
  simp only [Machine.boot, bind_eq_bind, bind_eq_some_iff] at h
  obtain ⟨pmm, hboot, ⟨page, pmm'⟩, halloc, boot_pgdir, rfl, h⟩ := h
  cases h
  obtain ⟨hinv, hempty⟩ := Pages.boot_inv hpos hboot
  rcases (buddySpec npage).alloc_run hinv Nat.one_pos (buddySpec npage).limit_pos with
    hnone | ⟨p, pmm1, hsome, hinv', howned, hget, hnew⟩
  · rw [hnone] at halloc
    cases halloc
  cases hsome.symm.trans halloc
  rw [hempty, Set.empty_union] at howned
  refine ⟨hinv', ?_, fun p hp => ?_, fun i _ => frame_zero, rfl, fun pid task htask => ?_⟩
  · simp [howned]
  · rw [howned] at hp
    rw [hget]
    exact (hnew p hp).2.ge
  · by_cases hpid : pid = 0
    · simp only [hpid, if_true, Option.some_inj] at htask
      subst htask
      exact ⟨rfl, rfl⟩
    · simp [hpid] at htask

theorem TakesPages.none (S : runs.Spec A) : TakesPages S fun s => some (true, s) := by
  rintro pmm ok _ hpmm ⟨⟩
  exact ⟨hpmm, fun q hq => ⟨hq, rfl⟩, fun q hq hnot => absurd hq hnot⟩

/-- A process on the buddy allocator with a zone of 16 pages that has loaded a program and then
missed on its stack: the entry of the refill agrees with the page table. -/
theorem tlb_coherent_stack : ∃ (m : Machine Pages) (pgdir : ℕ),
    Machine.Reach (buddySpec 16) (fun s => some (true, s)) m ∧
    (m.vm.tlb.tlb 5).Matches 0x7fffe000#32 ∧
    Agrees ((m.vm.tlb.tlb 5).page 0x7fffe000#32) (m.vm.pte (slot pgdir 0x7fffe000#32)) := by
  have hrun : ((Machine.boot 16).bind fun m0 =>
      (Machine.load_icode.start (buddyAllocator 16) (fun s => some (true, s)) m0).bind fun m1 =>
      (Machine.load_icode.finish (buddyAllocator 16) (fun s => some (true, s)) m1).bind fun m2 =>
      (m2.tlbmiss (buddyAllocator 16) 5#4 false true 0x7fffe000#32).map fun m =>
        (((m2.tasks m2.current).bind (·.mm)).isSome,
        (lookup m2.vm.tlb.tlb 0x7fffe000#32).any mips32s.Isa.Page.v,
          ((m.tasks m.current).bind (·.mm)).isSome,
          decide ((m.vm.tlb.tlb 5).Matches 0x7fffe000#32))) =
      some (true, false, true, true) := by decide +kernel
  simp only [bind_eq_some_iff] at hrun
  obtain ⟨m0, hboot, m1, hstart, m2, hfinish, hrun⟩ := hrun
  obtain ⟨m, hmiss, heq⟩ := Option.map_eq_some_iff.mp hrun
  simp only [Prod.mk.injEq, decide_eq_true_eq] at heq
  obtain ⟨huser2, hlookup, huser, hmatch⟩ := heq
  obtain ⟨task0, htask0, -⟩ := bind_eq_some_iff.mp hstart
  obtain ⟨mm2, huser2⟩ := Option.isSome_iff_exists.mp huser2
  obtain ⟨task2, htask2, hmm2⟩ := bind_eq_some_iff.mp huser2
  obtain ⟨mm, huser⟩ := Option.isSome_iff_exists.mp huser
  obtain ⟨task, htask, hmm⟩ := bind_eq_some_iff.mp huser
  have hbooted := Machine.boot_booted (by decide) hboot
  have hreach : Machine.Reach (buddySpec 16) (fun s => some (true, s)) m :=
    .step (.step (.step (.boot hbooted) (.load_start htask0 (hbooted.tasks _ _ htask0).2 hstart))
      (.load_finish hfinish)) (.tlbmiss htask2 hmm2 hlookup hmiss)
  obtain ⟨-, hagrees, -⟩ := tlb_coherent (by decide) rfl (.none _) hreach htask hmm
  exact ⟨m, m.current_pgdir, hreach, hmatch, hagrees 5 _ (by decide) hmatch⟩

end ucore
