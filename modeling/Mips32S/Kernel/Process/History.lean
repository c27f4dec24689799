import Mips32S.Kernel.Process.Exit
import Mips32S.Kernel.Process.Fork
import Mips32S.Kernel.Process.Reap

open linked List

namespace ucore

namespace Kernel

variable {k k' : Kernel} {kids : ℕ → List ℕ} {a : Action}

/-- The kernel panics when `initproc` exits, or has been killed while it waits. -/
def Panics (k : Kernel) : Action → Prop
  | .do_exit _ => k.current = k.sched.initproc
  | .resume => k.current = k.sched.initproc ∧ (k.proc k.current).flags &&& PF_EXITING ≠ 0 ∧
      ∃ pid store, k.point k.current = .wait pid store
  | _ => False

/-- The current process is inside `do_wait` with this action. -/
def Waits (k : Kernel) : Action → Prop
  | .do_wait _ _ _ => True
  | .resume => ∃ pid store, k.point k.current = .wait pid store
  | _ => False

/-- Which processes exist after a step: the same, or also a new one made by the current process,
or one less, that had exited and was freed by its parent, the current process, in `do_wait`. -/
def Turnover (a : Action) (k k' : Kernel) : Prop :=
  k'.family.alive = k.family.alive ∨
  (a = .fork_finish true ∧ ∃ c, k.forking k.current = some c ∧ c ∉ k.family.alive ∧
    k'.family.alive = insert c k.family.alive) ∨
  k.Waits a ∧ ∃ c ∈ k.family.alive, (k.proc c).state = .ZOMBIE ∧
    (k.family.links c).parent = some k.current ∧ k'.family.alive = k.family.alive.erase c

/-- What the run queue does in a step: `schedule` gives the turn to its first process, and
otherwise it only grows. -/
def Queues (a : Action) (k k' : Kernel) : Prop :=
  if a = .schedule then
    k.sched.turns = k'.current :: k'.sched.run_list ∨
      k.sched.turns = [] ∧ k'.current = k.sched.idleproc ∧ k'.sched.run_list = []
  else k.sched.Appends k'.sched

theorem Inv.round_turnover (h : k.Inv kids) (hwait : k.InWait) (hin : k.Waits a) (pid : ℤ)
    (store : Bool) :
    ∃ r k' kids', do_wait.round k pid store = some (r, k') ∧ Inv kids' k' ∧ k.Evolves k' ∧
      Turnover a k k' ∧ k.sched.Appends k'.sched := by
  obtain ⟨r, k', kids', heq, hinv, hevolves, happends, hcase⟩ := h.round hwait pid store
  refine ⟨r, k', kids', heq, hinv, hevolves, ?_, happends⟩
  cases hfirst : k.firstExited kids pid with
  | none =>
    rw [hfirst] at hcase
    exact .inl (congrArg Family.alive hcase.1)
  | some c =>
    rw [hfirst] at hcase
    have htest := find?_some hfirst
    obtain ⟨halive, hup⟩ := (h.family.tree.mem _ h.sched.runs.current c).mp
      (mem_of_find?_eq_some hfirst)
    exact .inr (.inr ⟨hin, c, halive, (of_decide_eq_true htest).2, hup, hcase.2.1⟩)

theorem Free.inWait (hfree : k.Free) (hfork : k.forking k.current = none) : k.InWait := by
  obtain ⟨hdue, hidle, hplace⟩ := hfree
  exact ⟨hdue, hidle, by rw [hplace]; exact nofun, fun q => by rw [hplace]; exact nofun, hfork⟩

theorem Inv.inWait (h : k.Inv kids) (hdue : k.due = false) {pid : ℤ} {store : Bool}
    (hplace : k.point k.current = .wait pid store) : k.InWait := by
  refine ⟨hdue, h.not_idle (by rw [hplace]; exact nofun), by rw [hplace]; exact nofun,
    fun q => by rw [hplace]; exact nofun, ?_⟩
  cases hfork : k.forking k.current with
  | none => rfl
  | some c => exact absurd hplace (h.forks.point _ c hfork pid store)

/-- A step that is allowed is possible unless `initproc` exits, and keeps the invariant. -/
theorem Inv.step (h : k.Inv kids) (hallowed : k.Allowed a) (hpanic : ¬k.Panics a) :
    ∃ r k' kids', k.exec a = some (r, k') ∧ Inv kids' k' ∧ k.Evolves k' ∧ Turnover a k k' ∧
      Queues a k k' := by
  cases a with
  | do_fork alloc =>
    obtain ⟨hfree, -, hfresh⟩ := hallowed
    simp only [exec, Kernel.do_fork]
    split
    · exact ⟨_, k, kids, rfl, h, .refl k, .inl rfl, .refl _⟩
    · rename_i hroom
      cases alloc with
      | none => exact ⟨_, k, kids, rfl, h, .refl k, .inl rfl, .refl _⟩
      | some c =>
        obtain ⟨hnew, hunused⟩ := hfresh c rfl
        obtain ⟨hinv, hevolves⟩ := h.alloc hfree (not_le.mp hroom) hnew hunused
        refine ⟨none, _, kids, ?_, hinv, hevolves, .inl rfl, .refl _⟩
        simp only [guard, if_pos (h.running hfree.1).2]
        rfl
  | fork_finish copied =>
    obtain ⟨hfree, hsome⟩ := hallowed
    obtain ⟨c, hc⟩ := Option.ne_none_iff_exists'.mp hsome
    cases copied with
    | false =>
      obtain ⟨hinv, hevolves⟩ := h.fork_fail
      refine ⟨some ⟨-E_NO_MEM, none⟩, _, kids, ?_, hinv, hevolves, .inl rfl, .refl _⟩
      simp only [exec, do_fork.finish, hc]
      rfl
    | true =>
      obtain ⟨pid, f, s, henroll, hwakeup, -, hinv, hevolves, halive, hnew, happends⟩ :=
        h.fork_finish hfree hc
      refine ⟨some ⟨pid, none⟩, _, _, ?_, hinv, hevolves, .inr (.inl ⟨rfl, c, hc, hnew, halive⟩),
        happends⟩
      simp [exec, do_fork.finish, hc, henroll, hwakeup]
  | do_exit error_code =>
    obtain ⟨⟨hdue, hidle, hplace⟩, hnone⟩ := hallowed
    obtain ⟨k', kids', heq, hinv, hevolves, halive, happends⟩ := h.do_exit hdue hidle hpanic
      (by rw [hplace]; exact nofun) (fun q => by rw [hplace]; exact nofun) hnone error_code
    exact ⟨none, k', kids', by simp [exec, heq], hinv, hevolves, .inl halive, happends⟩
  | do_wait pid store checked =>
    obtain ⟨hfree, hnone⟩ := hallowed
    simp only [exec, Kernel.do_wait]
    split
    · exact ⟨_, k, kids, rfl, h, .refl k, .inl rfl, .refl _⟩
    · exact h.round_turnover (a := .do_wait pid store checked) (hfree.inWait hnone) trivial pid store
  | do_kill pid =>
    obtain ⟨⟨hdue, -⟩, -⟩ := hallowed
    obtain ⟨ret, s, heq, hinv, hevolves, happends⟩ := h.do_kill hdue pid
    exact ⟨_, _, kids, heq, hinv, hevolves, .inl rfl, happends⟩
  | do_yield =>
    obtain ⟨hinv, hevolves⟩ := h.do_yield
    exact ⟨_, _, kids, rfl, hinv, hevolves, .inl rfl, rfl, prefix_rfl⟩
  | do_sleep time =>
    by_cases htime : time = 0
    · exact ⟨_, k, kids, by simp only [exec, Kernel.do_sleep, if_pos htime]; rfl, h, .refl k,
        .inl rfl, .refl _⟩
    · obtain ⟨s, heq, hinv, hevolves, happends⟩ := h.do_sleep hallowed.1 htime
      exact ⟨none, _, kids, heq, hinv, hevolves, .inl rfl, happends⟩
  | wait_current_set queue wait_state =>
    obtain ⟨hinv, hevolves⟩ := h.wait_current_set hallowed.1 hallowed.2
    exact ⟨none, _, kids, rfl, hinv, hevolves, .inl rfl, rfl, prefix_rfl⟩
  | resume =>
    obtain ⟨hdue, hfree⟩ := hallowed
    simp only [exec, Kernel.resume]
    cases hplace : k.point k.current with
    | free => exact absurd hplace hfree
    | exit =>
      have hsettled := h.sched.settled _ h.sched.runs.current
      exact absurd hplace ((Sched.settled_runnable (h.running hdue).1).mp hsettled).2
    | sleep =>
      obtain ⟨hinv, hevolves⟩ := h.wake_sleep hdue hplace
      exact ⟨_, _, kids, rfl, hinv, hevolves, .inl rfl, rfl, prefix_rfl⟩
    | queue q =>
      obtain ⟨s, heq, hinv, hevolves, happends⟩ := h.wake_queue hdue hplace
      exact ⟨none, _, kids, by simp [heq], hinv, hevolves, .inl rfl, happends⟩
    | wait pid store =>
      have hwait := h.inWait hdue hplace
      dsimp only
      split
      · rename_i hflags
        obtain ⟨k', kids', heq, hinv, hevolves, halive, happends⟩ := h.do_exit hdue hwait.idle
          (fun hinit => hpanic ⟨hinit, hflags, pid, store, hplace⟩) hwait.sleep hwait.queue
          hwait.forking (-E_KILLED)
        exact ⟨none, k', kids', by simp [heq], hinv, hevolves, .inl halive, happends⟩
      · exact h.round_turnover (a := .resume) hwait ⟨pid, store, hplace⟩ pid store
  | schedule =>
    obtain ⟨s, heq, hinv, hevolves, hturns⟩ := h.schedule
    exact ⟨none, _, kids, by simp [exec, heq], hinv, hevolves, .inl rfl, hturns⟩
  | run_timer_list =>
    obtain ⟨s, heq, hinv, hevolves, happends⟩ := h.run_timer_list
    exact ⟨none, _, kids, by simp [exec, heq], hinv, hevolves, .inl rfl, happends⟩
  | wakeup_first queue del =>
    obtain ⟨s, heq, hinv, hwakes, happends, htimers⟩ := h.sched.wakeup_first queue del
    obtain ⟨hinv', hevolves⟩ := h.of_queue hinv hwakes happends htimers
    exact ⟨none, _, kids, by simp [exec, heq], hinv', hevolves, .inl rfl, happends⟩
  | wakeup_queue queue del =>
    obtain ⟨s, heq, hinv, hwakes, happends, htimers⟩ := h.sched.wakeup_queue queue del
    obtain ⟨hinv', hevolves⟩ := h.of_queue hinv hwakes happends htimers
    exact ⟨none, _, kids, by simp [exec, heq], hinv', hevolves, .inl rfl, happends⟩

theorem exec_panics (hpanic : k.Panics a) : k.exec a = none := by
  have hexit : ∀ error_code, k.current = k.sched.initproc → k.do_exit error_code = none := by
    intro error_code hinit
    simp [Kernel.do_exit, hinit, guard]
  cases a with
  | do_exit error_code => simp [exec, hexit error_code hpanic]
  | resume =>
    obtain ⟨hinit, hflags, pid, store, hplace⟩ := hpanic
    simp only [exec, Kernel.resume, hplace, if_pos hflags, hexit _ hinit]
    rfl
  | _ => exact hpanic.elim

theorem Inv.of_step {r : Option Reply} (h : k.Inv kids) (hstep : Step a r k k') :
    ∃ kids', Inv kids' k' ∧ k.Evolves k' ∧ Turnover a k k' ∧ Queues a k k' := by
  have hpanic : ¬k.Panics a := fun hpanic => by
    cases (exec_panics hpanic).symm.trans hstep.2
  obtain ⟨r', k'', kids', heq, hinv⟩ := h.step hstep.1 hpanic
  cases hstep.2.symm.trans heq
  exact ⟨kids', hinv⟩

end Kernel

section
variable {idleproc initproc : ℕ}
variable (hne : idleproc ≠ initproc)
include hne

theorem proc_init_eq :
    ∃ links procs, proc_init idleproc initproc = some
      ⟨⟨links, {initproc, idleproc}, [initproc],
          Function.update (fun _ => []) (pid_hashfn 1) [initproc], 2, 1, MAX_PID⟩,
        ⟨procs, idleproc, idleproc, initproc, [initproc], 1, [], fun _ => []⟩,
        fun _ => .free, false, fun _ => none⟩ ∧
      links idleproc = ⟨0, none, some initproc, none, none⟩ ∧
      links initproc = ⟨1, some idleproc, none, none, none⟩ ∧
      (procs idleproc).state = .RUNNABLE ∧ (procs idleproc).wait_state = 0 ∧
      (procs initproc).state = .RUNNABLE ∧ (procs initproc).wait_state = 0 ∧
      (procs initproc).rq := by
  have hget : ∀ links alive hash_list nr_process,
      Family.get_pid ⟨links, alive, [], hash_list, nr_process, MAX_PID, MAX_PID⟩ =
        some (1, ⟨links, alive, [], hash_list, nr_process, 1, MAX_PID⟩) := fun _ _ _ _ => rfl
  have hroom : ¬(1 : ℤ) ≥ MAX_PROCESS := by decide
  have hpid : (0 : ℤ) < 1 ∧ (1 : ℤ) < MAX_PID := by decide
  simp [proc_init, Kernel.do_fork, Kernel.do_fork.finish, Kernel.proc, Kernel.current, guard,
    Family.alloc_proc, Family.modify, Family.enroll, Family.hash_proc, Family.set_links,
    Family.link, Family.find_proc, Sched.alloc_proc, Sched.modify, Sched.wakeup_proc,
    Sched.sched_class_enqueue, Sched.RR_enqueue, hget, hroom, hpid, hne, hne.symm]

theorem boot_family {links : ℕ → proc_links}
    (hidle : links idleproc = ⟨0, none, some initproc, none, none⟩)
    (hinit : links initproc = ⟨1, some idleproc, none, none, none⟩) :
    Family.Inv idleproc initproc (fun _ => none) (Function.update (fun _ => []) idleproc [initproc])
      ⟨links, {initproc, idleproc}, [initproc],
        Function.update (fun _ => []) (pid_hashfn 1) [initproc], 2, 1, MAX_PID⟩ := by
  have hmem : ∀ {p}, p ∈ ({initproc, idleproc} : Finset ℕ) → p = initproc ∨ p = idleproc := by
    simp
  refine ⟨⟨fun x hx => ?_, fun x hx => ?_, fun x hx c => ?_, fun c hc x hup => ?_⟩,
    ⟨by simp, fun p => by grind, fun h => ?_, fun h p => ?_, ?_, by simp, rfl,
      ⟨le_refl 1, le_refl MAX_PID, by simp [hinit]⟩⟩,
    by simp, congrArg proc_links.parent hidle, by simp, congrArg proc_links.parent hinit,
    fun p hp hp' => ?_⟩
  · rcases hmem hx with rfl | rfl <;> simp [hidle, hinit, hne.symm, Linked]
  · rcases hmem hx with rfl | rfl <;> simp [hne.symm]
  · rcases hmem hx with rfl | rfl <;> grind
  · rcases hmem hc with rfl | rfl <;> grind
  · by_cases hh : h = pid_hashfn 1 <;> simp [hh]
  · by_cases hh : h = pid_hashfn 1 <;> grind
  · simp only [mem_singleton, forall_eq, hinit]
    decide
  · rcases hmem hp with rfl | rfl
    · exact ⟨idleproc, congrArg proc_links.parent hinit⟩
    · exact absurd rfl hp'

theorem boot_sched {procs : ℕ → proc_struct}
    (hidle : (procs idleproc).state = .RUNNABLE ∧ (procs idleproc).wait_state = 0)
    (hinit : (procs initproc).state = .RUNNABLE ∧ (procs initproc).wait_state = 0)
    (hrq : (procs initproc).rq) :
    Sched.Inv {initproc, idleproc} (fun _ => .free) false
      ⟨procs, idleproc, idleproc, initproc, [initproc], 1, [], fun _ => []⟩ := by
  refine ⟨⟨by simp, by simp, fun p => by grind, by simpa using hrq, rfl, by simp, hidle.1⟩,
    ⟨nofun, nodup_nil, nofun, fun _ => nodup_nil⟩, fun p hp => ?_, rfl, fun _ => hidle.1⟩
  rcases Finset.mem_insert.mp hp with rfl | hp'
  · exact (Sched.settled_runnable hinit.1).mpr ⟨hinit.2, nofun⟩
  · obtain rfl := Finset.mem_singleton.mp hp'
    exact (Sched.settled_runnable hidle.1).mpr ⟨hidle.2, nofun⟩

theorem boot_inv {k : Kernel} (hboot : proc_init idleproc initproc = some k) :
    (∃ kids, k.Inv kids) ∧ k.sched.idleproc = idleproc ∧ k.sched.initproc = initproc := by
  obtain ⟨links, procs, heq, hidle, hinit, hidle_state, hidle_wait, hinit_state, hinit_wait,
    hrq⟩ := proc_init_eq hne
  cases hboot.symm.trans heq
  have hrunnable : ∀ p ∈ ({initproc, idleproc} : Finset ℕ), (procs p).state = .RUNNABLE := by
    simp [hidle_state, hinit_state]
  refine ⟨⟨_, boot_family hne hidle hinit,
    boot_sched hne ⟨hidle_state, hidle_wait⟩ ⟨hinit_state, hinit_wait⟩ hrq, nofun,
    ⟨nofun, nofun, nofun, nofun, by simp; decide⟩, fun hz => ?_, fun z hz hzombie => ?_,
    nofun, nofun⟩, rfl, rfl⟩
  · cases hinit_state.symm.trans hz
  · cases (hrunnable z hz).symm.trans hzombie

end

namespace Kernel

/-- The kernels that the actions lead to from `proc_init` on. -/
inductive Reach (idleproc initproc : ℕ) : Kernel → Prop
  | boot {k} : proc_init idleproc initproc = some k → Reach idleproc initproc k
  | step {k k'} {a : Action} {r : Option Reply} : Reach idleproc initproc k → Step a r k k' →
      Reach idleproc initproc k'

variable {idleproc initproc z : ℕ} {k k' : Kernel} {a : Action} {rest acts : List Action}
  {kids : ℕ → List ℕ}

theorem Reach.inv (hne : idleproc ≠ initproc) (h : Reach idleproc initproc k) :
    (∃ kids, k.Inv kids) ∧ k.sched.idleproc = idleproc ∧ k.sched.initproc = initproc := by
  induction h with
  | boot hboot => exact boot_inv hne hboot
  | step _ hstep ih =>
    obtain ⟨⟨kids, hinv⟩, hidle, hinit⟩ := ih
    obtain ⟨kids', hinv', hevolves, -, -⟩ := hinv.of_step hstep
    exact ⟨⟨kids', hinv'⟩, hevolves.idleproc.trans hidle, hevolves.initproc.trans hinit⟩

theorem run_cons (hrun : k.run (a :: rest) = some k') :
    ∃ r k1, Step a r k k1 ∧ k1.run rest = some k' := by
  rw [run] at hrun
  split at hrun
  · rename_i hallowed
    obtain ⟨⟨r, k1⟩, hexec, hrest⟩ := Option.bind_eq_some_iff.mp hrun
    exact ⟨r, k1, ⟨hallowed, hexec⟩, hrest⟩
  · cases hrun

theorem Reach.run (h : Reach idleproc initproc k) (hrun : k.run acts = some k') :
    Reach idleproc initproc k' := by
  induction acts generalizing k with
  | nil =>
    cases hrun
    exact h
  | cons a rest ih =>
    obtain ⟨r, k1, hstep, hrest⟩ := run_cons hrun
    exact ih (.step h hstep) hrest

theorem exists_reach (acts : List Action) (P : Kernel → Prop) [DecidablePred P]
    (hrun : ((proc_init 0 1).bind (·.run acts)).any fun k => decide (P k)) :
    ∃ k, Reach 0 1 k ∧ P k := by
  obtain ⟨k, hrun, hP⟩ := (Option.any_eq_true _ _).mp hrun
  obtain ⟨k0, hboot, hrun⟩ := Option.bind_eq_some_iff.mp hrun
  exact ⟨k, (Reach.boot hboot).run hrun, of_decide_eq_true hP⟩

/-- `initproc` gets its first turn and forks three times. -/
def threeForks : List Action :=
  [.schedule, .do_fork (some 2), .fork_finish true, .do_fork (some 3), .fork_finish true,
    .do_fork (some 4), .fork_finish true]

/-- The pointers between the processes: the children of every process, and no others, are in its
list of siblings, which is linked both ways. -/
def Siblings (f : Family) : Prop :=
  ∃ kids : ℕ → List ℕ, ∀ p ∈ f.alive,
    Linked (fun c => (f.links c).yptr) (fun c => (f.links c).optr) none (f.links p).cptr (kids p) ∧
    (kids p).Nodup ∧ ∀ c, c ∈ kids p ↔ c ∈ f.alive ∧ (f.links c).parent = some p

/-- A step frees only a process that has exited, in `do_wait` of its parent, and keeps the
others that have exited. -/
def FreesExited (a : Action) (k k' : Kernel) : Prop :=
  ∀ p ∈ k.family.alive,
    (p ∈ k'.family.alive ∧ ((k.proc p).state = .ZOMBIE →
      (k'.proc p).state = .ZOMBIE ∧ (k'.proc p).exit_code = (k.proc p).exit_code)) ∨
    (p ∉ k'.family.alive ∧ (k.proc p).state = .ZOMBIE ∧
      (k.family.links p).parent = some k.current ∧ k.Waits a)

theorem Inv.freesExited {r : Option Reply} (h : k.Inv kids) (hstep : Step a r k k') :
    FreesExited a k k' := by
  obtain ⟨kids', -, hevolves, hturnover, -⟩ := h.of_step hstep
  intro p hp
  have hzombie := hevolves.zombie p hp
  rcases hturnover with halive | ⟨-, c, -, -, halive⟩ | ⟨hwaits, c, -, hz, hup, halive⟩
  · exact .inl ⟨halive ▸ hp, hzombie⟩
  · exact .inl ⟨halive ▸ Finset.mem_insert_of_mem hp, hzombie⟩
  · rcases eq_or_ne p c with rfl | hpc
    · exact .inr ⟨halive ▸ Finset.notMem_erase p _, hz, hup, hwaits⟩
    · exact .inl ⟨halive ▸ Finset.mem_erase.mpr ⟨hpc, hp⟩, hzombie⟩

theorem Queues.kept (h : Queues a k k') :
    ∀ p ∈ k.sched.run_list, p ∈ k'.sched.run_list ∨ p = k'.current := by
  intro p hp
  have hturns : p ∈ k.sched.turns := mem_append_left _ hp
  unfold Queues at h
  split at h
  · rcases h with heq | ⟨hnil, -, -⟩
    · rw [heq] at hturns
      exact (mem_cons.mp hturns).symm
    · rw [hnil] at hturns
      cases hturns
  · exact .inl (h.2.mem hp)

theorem Queues.runnable (h : Queues a k k') (hruns : k.sched.RunQueue k.family.alive)
    (ha : a = .schedule) : (k.proc k'.current).state = .RUNNABLE := by
  unfold Queues at h
  rw [if_pos ha] at h
  rcases h with heq | ⟨-, hidle, -⟩
  · have hmem : k'.current ∈ k.sched.turns := heq ▸ mem_cons_self
    exact ((hruns.mem_turns _).mp hmem).2.1
  · rw [hidle]
    exact hruns.idle_state

theorem Inv.firstExited_pid (h : k.Inv kids) (hz : z ∈ kids k.current)
    (hzombie : (k.proc z).state = .ZOMBIE) :
    k.firstExited kids (k.family.links z).pid = some z := by
  have hlisted := h.family.listed
  have hcurrent := h.sched.runs.current
  have hzlist := (h.kid_listed hcurrent hz).1
  cases hfirst : k.firstExited kids (k.family.links z).pid with
  | none =>
    exact absurd (decide_eq_true ⟨fun _ => rfl, hzombie⟩) (find?_eq_none.mp hfirst z hz)
  | some c =>
    have htest := find?_some hfirst
    have hpid := (of_decide_eq_true htest).1 (by have := (hlisted.pid z hzlist).1; omega)
    have hclist := (h.kid_listed hcurrent (mem_of_find?_eq_some hfirst)).1
    rw [hlisted.unique c hclist z hzlist hpid]

/-- The process table in every run. The children of a process are its list of siblings; the
process list and the hash list hold the processes other than `idleproc` under their own numbers,
and `nr_process` counts `idleproc` too; a process that has exited is kept until its parent waits
for it, and is then freed. -/
theorem process_tree (hne : idleproc ≠ initproc) (h : Reach idleproc initproc k) :
    Siblings k.family ∧ k.family.Listed idleproc ∧
    (∀ a, k.Allowed a → ¬k.Panics a → ∃ r k', k.exec a = some (r, k')) ∧
    (∀ a r k', Step a r k k' → FreesExited a k k') ∧
    ∀ z ∈ k.family.alive, (k.proc z).state = .ZOMBIE →
      (k.family.links z).parent = some k.current → k.Free → k.forking k.current = none →
      ∃ k', k.exec (.do_wait (k.family.links z).pid true true) =
          some (some ⟨0, some (k.proc z).exit_code⟩, k') ∧
        k'.family.alive = k.family.alive.erase z := by
  obtain ⟨⟨kids, hinv⟩, hidle, -⟩ := h.inv hne
  have htree := hinv.family.tree
  refine ⟨⟨kids, fun p hp => ⟨htree.linked p hp, htree.nodup p hp, htree.mem p hp⟩⟩,
    hidle ▸ hinv.family.listed, fun a hallowed hpanic => ?_, fun a r k' => hinv.freesExited,
    fun z hz hzombie hup hfree hfork => ?_⟩
  · obtain ⟨r, k', -, heq, -⟩ := hinv.step hallowed hpanic
    exact ⟨r, k', heq⟩
  · have hkid := (htree.mem _ hinv.sched.runs.current z).mpr ⟨hz, hup⟩
    obtain ⟨r, k', -, heq, -, -, -, hcase⟩ :=
      hinv.round (hfree.inWait hfork) (k.family.links z).pid true
    rw [hinv.firstExited_pid hkid hzombie] at hcase
    obtain ⟨hr, halive, -⟩ := hcase
    exact ⟨k', hr ▸ heq, halive⟩

/-- The process tree after three forks, two exits and a wait, which freed the process 3. -/
theorem process_tree_exits : ∃ k, Reach 0 1 k ∧ k.family.alive = {0, 1, 2, 4} ∧
    (k.proc 2).state = .ZOMBIE ∧ Siblings k.family ∧ k.family.Listed 0 ∧
    ∃ k', k.exec (.do_wait (k.family.links 2).pid true true) = some (some ⟨0, some 7⟩, k') ∧
      k'.family.alive = {0, 1, 4} := by
  obtain ⟨k, hreach, ⟨halive, hzombie, hcode⟩, hup, hfree, hfork⟩ := exists_reach
    (threeForks ++ [.do_wait 0 true true, .schedule, .do_exit 7, .schedule, .do_exit 8, .schedule,
      .do_yield, .schedule, .resume])
    (fun k => (k.family.alive = {0, 1, 2, 4} ∧ (k.proc 2).state = .ZOMBIE ∧
      (k.proc 2).exit_code = 7) ∧ (k.family.links 2).parent = some k.current ∧ k.Free ∧
      k.forking k.current = none) (by decide +kernel)
  obtain ⟨hsiblings, hlisted, -, -, hwait⟩ := process_tree (by decide) hreach
  obtain ⟨k', hexec, halive'⟩ := hwait 2 (halive ▸ by decide) hzombie hup hfree hfork
  rw [hcode] at hexec
  rw [halive] at halive'
  exact ⟨k, hreach, halive, hzombie, hsiblings, hlisted, k', hexec, halive'⟩

/-- `proc_init` counts `idleproc` in `nr_process`, though it is in no list. -/
theorem nr_process_counts_idleproc :
    (proc_init 0 1).map (fun k => (k.family.nr_process, k.family.proc_list)) = some (2, [1]) := by
  rfl

/-- The run queue in every run. -/
theorem run_queue (hne : idleproc ≠ initproc) (h : Reach idleproc initproc k) :
    (∀ p, k.sched.run_list.count p =
      if p ∈ k.family.alive ∧ (k.proc p).state = .RUNNABLE ∧ p ≠ k.current ∧ p ≠ idleproc
      then 1 else 0) ∧
    k.sched.proc_num = k.sched.run_list.length ∧
    (k.due = false → (k.proc k.current).state = .RUNNABLE) ∧
    (∀ a, k.Allowed a → ¬k.Panics a → ∃ r k', k.exec a = some (r, k')) ∧
    ∀ a r k', Step a r k k' →
      (∀ p ∈ k.sched.run_list, p ∈ k'.sched.run_list ∨ p = k'.current) ∧
      (a = .schedule → (k.proc k'.current).state = .RUNNABLE) := by
  obtain ⟨⟨kids, hinv⟩, rfl, -⟩ := h.inv hne
  have hruns := hinv.sched.runs
  refine ⟨fun p => ?_, hruns.number, hinv.sched.running, fun a hallowed hpanic => ?_,
    fun a r k' hstep => ?_⟩
  · rw [Nodup.count hruns.nodup]
    exact if_congr (hruns.mem p) rfl rfl
  · obtain ⟨r, k', -, heq, -⟩ := hinv.step hallowed hpanic
    exact ⟨r, k', heq⟩
  · obtain ⟨kids', -, -, -, hqueues⟩ := hinv.of_step hstep
    exact ⟨hqueues.kept, fun hschedule => hqueues.runnable hruns hschedule⟩

/-- The run queue when the process 2 has slept and a tick has woken it up again. -/
theorem run_queue_tick : ∃ k, Reach 0 1 k ∧ k.sched.run_list = [4, 2] ∧ k.sched.proc_num = 2 ∧
    (∀ p, [4, 2].count p =
      if p ∈ k.family.alive ∧ (k.proc p).state = .RUNNABLE ∧ p ≠ 3 ∧ p ≠ 0 then 1 else 0) ∧
    ∀ r k', Step .schedule r k k' →
      (k.proc k'.current).state = .RUNNABLE ∧ (4 ∈ k'.sched.run_list ∨ 4 = k'.current) := by
  obtain ⟨k, hreach, hqueue, hcurrent⟩ := exists_reach
    (threeForks ++ [.do_wait 0 true true, .schedule, .do_sleep 1, .schedule, .run_timer_list])
    (fun k => k.sched.run_list = [4, 2] ∧ k.current = 3) (by decide +kernel)
  obtain ⟨hcount, hnumber, -, -, hstep⟩ := run_queue (by decide) hreach
  rw [hqueue, hcurrent] at hcount
  rw [hqueue] at hnumber
  refine ⟨k, hreach, hqueue, hnumber, hcount, fun r k' hschedule => ?_⟩
  obtain ⟨hkept, hrunnable⟩ := hstep .schedule r k' hschedule
  exact ⟨hrunnable rfl, hkept 4 (hqueue ▸ by decide)⟩

/-- The runs of the kernel from `k` on, with the processes to which `schedule` gives the turn. -/
inductive Runs (k : Kernel) : List ℕ → Kernel → Prop
  | refl : Runs k [] k
  | step {k' k''} {ps : List ℕ} {a : Action} {r : Option Reply} : Runs k ps k' →
      Step a r k' k'' → Runs k (ps ++ if a = .schedule then [k''.current] else []) k''

variable {ps : List ℕ}

/-- A process leaves the front of the run queue only to get the turn. -/
theorem Queues.fifo (h : Queues a k k') :
    k.sched.run_list <+: (if a = .schedule then [k'.current] else []) ++ k'.sched.run_list := by
  unfold Queues at h
  split_ifs at h ⊢
  · have hturns : k.sched.run_list <+: k.sched.turns := prefix_append ..
    rcases h with heq | ⟨hnil, -⟩
    · rwa [heq] at hturns
    · rw [hnil, prefix_nil] at hturns
      rw [hturns]
      exact nil_prefix
  · exact h.2

/-- No process starves: whatever happens between the calls of `schedule`, the processes in the
run queue get the next turns, in the order of the queue. -/
theorem round_robin (hne : idleproc ≠ initproc) (h : Reach idleproc initproc k)
    (hrun : Runs k ps k') : k.sched.run_list <+: ps ++ k'.sched.run_list := by
  suffices hall : Reach idleproc initproc k' ∧ k.sched.run_list <+: ps ++ k'.sched.run_list from
    hall.2
  induction hrun with
  | refl => exact ⟨h, prefix_rfl⟩
  | step _ hstep ih =>
    obtain ⟨⟨kids, hinv⟩, -⟩ := ih.1.inv hne
    obtain ⟨-, -, -, -, hqueues⟩ := hinv.of_step hstep
    refine ⟨ih.1.step hstep, ih.2.trans ?_⟩
    rw [append_assoc, prefix_append_right_inj]
    exact hqueues.fifo

theorem Runs.trans {k'' : Kernel} {qs : List ℕ} (h : Runs k ps k') (h' : Runs k' qs k'') :
    Runs k (ps ++ qs) k'' := by
  induction h' with
  | refl => exact (append_nil ps).symm ▸ h
  | step _ hstep ih => exact append_assoc .. ▸ ih.step hstep

theorem Runs.of_run (hrun : k.run acts = some k') :
    ∃ ps, Runs k ps k' ∧ ps.length = acts.count .schedule := by
  induction acts generalizing k with
  | nil =>
    cases hrun
    exact ⟨[], .refl, rfl⟩
  | cons a rest ih =>
    obtain ⟨r, k1, hstep, hrest⟩ := run_cons hrun
    obtain ⟨ps, hruns, hlength⟩ := ih hrest
    refine ⟨_, (Runs.refl.step hstep).trans hruns, ?_⟩
    by_cases ha : a = .schedule <;> simp [ha, hlength]

/-- Three processes are in the run queue, and get the next three turns: the process 1 sleeps, 2
yields, 3 forks and exits. -/
theorem round_robin_forks : ∃ k k', Reach 0 1 k ∧ k.sched.run_list = [2, 3, 4] ∧
    Runs k [2, 3, 4] k' ∧ k'.sched.run_list = [2, 5] := by
  obtain ⟨k, hreach, hqueue, hrun⟩ := exists_reach threeForks
    (fun k => k.sched.run_list = [2, 3, 4] ∧ (k.run [.do_sleep 5, .schedule, .do_yield, .schedule,
      .do_fork (some 5), .fork_finish true, .run_timer_list, .do_exit 0, .schedule]).any
        fun k' => k'.sched.run_list = [2, 5]) (by decide +kernel)
  obtain ⟨k', hrun, hqueue'⟩ := (Option.any_eq_true _ _).mp hrun
  obtain ⟨ps, hruns, hlength⟩ := Runs.of_run hrun
  have hturns : [2, 3, 4] <+: ps ++ k'.sched.run_list :=
    hqueue ▸ round_robin (by decide) hreach hruns
  obtain rfl : [2, 3, 4] = ps := (prefix_of_prefix_length_le hturns (prefix_append ..)
    hlength.ge).eq_of_length hlength.symm
  exact ⟨k, k', hreach, hqueue, hruns, of_decide_eq_true hqueue'⟩

end Kernel

end ucore
