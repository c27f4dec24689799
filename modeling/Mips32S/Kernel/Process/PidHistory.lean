import Mips32S.Kernel.Process.History

namespace ucore.Kernel

variable {idleproc initproc : ℕ} {k : Kernel}

/-- `idleproc` keeps the number 0 that `proc_init` gives it: it has no parent, so nobody frees
it. -/
theorem Reach.idle_pid (hne : idleproc ≠ initproc) (h : Reach idleproc initproc k) :
    (k.family.links idleproc).pid = 0 := by
  induction h with
  | boot hboot =>
    obtain ⟨links, procs, heq, hidle, -⟩ := proc_init_eq hne
    cases hboot.symm.trans heq
    exact congrArg proc_links.pid hidle
  | step hreach hstep ih =>
    obtain ⟨⟨kids, hinv⟩, rfl, -⟩ := hreach.inv hne
    obtain ⟨kids', -, hevolves, -, -⟩ := hinv.of_step hstep
    have horphan := hinv.family.idle_parent
    obtain ⟨-, hpid, -⟩ := hevolves.alive _ hinv.family.idle (by rw [horphan]; simp)
    exact hpid.trans ih

/-- With fewer than `MAX_PROCESS` processes `get_pid` returns, whatever the two static variables
have become in the run before, and the number is in range and no process has it. -/
theorem get_pid_fresh (hne : idleproc ≠ initproc) (h : Reach idleproc initproc k)
    (hroom : (k.family.alive.card : ℤ) < MAX_PROCESS) :
    ∃ pid f, k.family.get_pid = some (pid, f) ∧ 1 ≤ pid ∧ pid < MAX_PID ∧
      ∀ p ∈ k.family.alive, (k.family.links p).pid ≠ pid := by
  have hidle := h.idle_pid hne
  obtain ⟨⟨kids, hinv⟩, rfl, -⟩ := h.inv hne
  have hlisted := hinv.family.listed
  have hlen : (k.family.proc_list.length : ℤ) < MAX_PID - 1 := by
    have hcard := hinv.family.card_alive
    have hnumber := hlisted.number
    have hmax : MAX_PROCESS ≤ MAX_PID := by decide
    omega
  obtain ⟨pid, next_safe, heq, hpos, hlt, hfresh, -⟩ := Family.get_pid_spec hlisted.window hlen
  refine ⟨pid, _, heq, hpos, hlt, fun p hp => ?_⟩
  by_cases hp' : p = k.sched.idleproc
  · rw [hp', hidle]
    omega
  · exact hfresh p ((hlisted.mem p).mpr ⟨hp, hp'⟩)

/-- A number for the next process after two forks, an exit and a wait. -/
theorem get_pid_fresh_exit : ∃ k pid f, Reach 0 1 k ∧ k.family.alive = {0, 1, 3} ∧
    k.family.get_pid = some (pid, f) ∧ 1 ≤ pid ∧ pid < MAX_PID ∧
      ∀ p ∈ k.family.alive, (k.family.links p).pid ≠ pid := by
  obtain ⟨k, hreach, halive, hroom⟩ := exists_reach
    [.schedule, .do_fork (some 2), .fork_finish true, .do_fork (some 3), .fork_finish true,
      .do_wait 2 true true, .schedule, .do_exit 7, .schedule, .schedule, .resume]
    (fun k => k.family.alive = {0, 1, 3} ∧ (k.family.alive.card : ℤ) < MAX_PROCESS)
    (by decide +kernel)
  obtain ⟨pid, f, hget, hfresh⟩ := get_pid_fresh (by decide) hreach hroom
  exact ⟨k, pid, f, hreach, halive, hget, hfresh⟩

end ucore.Kernel
