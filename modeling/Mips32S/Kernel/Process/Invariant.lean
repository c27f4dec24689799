import Mips32S.Kernel.Process.Kinship
import Mips32S.Kernel.Process.Life
import Mips32S.Kernel.Process.Sleep

open Function List

namespace ucore.Kernel

variable {k k' : Kernel} {kids : ℕ → List ℕ} {s : Sched} {place : Point} {due : Bool}
  {queue time : ℕ}

/-- The child is one that a call of `do_wait` waits for. -/
def Awaited (k : Kernel) (pid : ℤ) (c : ℕ) : Prop := pid ≠ 0 → (k.family.links c).pid = pid

/-- The processes inside `do_fork` and the `proc_struct`s they have allocated. -/
structure Forks (k : Kernel) : Prop where
  parent : ∀ p c, k.forking p = some c →
    p ∈ k.family.alive ∧ p ≠ k.sched.idleproc ∧ (k.proc p).state ≠ .ZOMBIE
  point : ∀ p c, k.forking p = some c → ∀ pid store, k.point p ≠ .wait pid store
  fresh : ∀ p c, k.forking p = some c → c ∉ k.family.alive ∧
    k.family.links c = ⟨-1, some p, none, none, none⟩ ∧ (k.proc c).state = .UNINIT ∧
    (k.proc c).wait_state = 0 ∧ k.point c = .free
  unique : ∀ p q c, k.forking p = some c → k.forking q = some c → p = q
  number : k.family.nr_process + (k.family.alive.filter fun p => k.forking p ≠ none).card < MAX_PID

/-- The invariant of the kernel. A process that has exited has no children, and one that sleeps
in `do_wait` has a child to wait for, but none that has exited. -/
structure Inv (kids : ℕ → List ℕ) (k : Kernel) : Prop where
  family : k.family.Inv k.sched.idleproc k.sched.initproc (fun _ => none) kids
  sched : k.sched.Inv k.family.alive k.point k.due
  ticking : k.sched.Ticking
  forks : k.Forks
  init : (k.proc k.sched.initproc).state ≠ .ZOMBIE
  zombie : ∀ z ∈ k.family.alive, (k.proc z).state = .ZOMBIE → kids z = []
  waiting : ∀ w ∈ k.family.alive, ∀ pid store, k.point w = .wait pid store →
    (k.proc w).state = .SLEEPING →
    (∃ c ∈ kids w, k.Awaited pid c) ∧ ∀ c ∈ kids w, k.Awaited pid c → (k.proc c).state ≠ .ZOMBIE
  asleep : k.due = true → ∀ pid store, k.point k.current = .wait pid store →
    (k.proc k.current).state = .SLEEPING

/-- What a step does to the processes other than the current one. Those that have exited are
kept for their parents, and only the current process can take its own children away. -/
structure Evolves (k k' : Kernel) : Prop where
  idleproc : k'.sched.idleproc = k.sched.idleproc
  initproc : k'.sched.initproc = k.sched.initproc
  point : ∀ p ∈ k.family.alive, p ≠ k.current → k'.point p = k.point p
  alive : ∀ p ∈ k.family.alive, (k.family.links p).parent ≠ some k.current → p ∈ k'.family.alive ∧
    (k'.family.links p).pid = (k.family.links p).pid ∧
    (k'.family.links p).parent = (k.family.links p).parent
  zombie : ∀ z ∈ k.family.alive, (k.proc z).state = .ZOMBIE →
    (k'.proc z).state = .ZOMBIE ∧ (k'.proc z).exit_code = (k.proc z).exit_code

theorem Evolves.refl (k : Kernel) : k.Evolves k :=
  ⟨rfl, rfl, fun _ _ _ => rfl, fun _ hp _ => ⟨hp, rfl, rfl⟩, fun _ _ hz => ⟨hz, rfl⟩⟩

section
variable {T : ℕ → Prop}
variable (h : k.Inv kids)
include h

theorem Inv.of_wakes (hinv : s.Inv k.family.alive k.point due) (htick : s.Ticking)
    (hwakes : Sched.Wakes T k.sched s) (hfree : ∀ p, T p → k.point p = .free → p ∈ k.family.alive)
    (hasleep : due = true → ∀ pid store, k.point s.current = .wait pid store →
      (s.procs s.current).state = .SLEEPING) :
    Inv kids { k with sched := s, due := due } ∧ k.Evolves { k with sched := s, due := due } := by
  have hstate : ∀ p, (s.procs p).state = .ZOMBIE ↔ (k.proc p).state = .ZOMBIE := hwakes.zombie
  refine ⟨⟨?_, hinv, htick, ⟨fun p c hfork => ?_, h.forks.point, fun p c hfork => ?_,
    h.forks.unique, h.forks.number⟩, fun hz => ?_, fun z hz hzombie => ?_,
    fun w hw pid store hpoint hsleep => ?_, hasleep⟩,
    ⟨hwakes.idleproc, hwakes.initproc, fun _ _ _ => rfl, fun _ hp _ => ⟨hp, rfl, rfl⟩,
      fun z _ hz => ⟨(hstate z).mpr hz, hwakes.exit_code z⟩⟩⟩
  · rw [hwakes.idleproc, hwakes.initproc]
    exact h.family
  · obtain ⟨halive, hidle, hzombie⟩ := h.forks.parent p c hfork
    refine ⟨halive, ?_, fun hz => hzombie ((hstate p).mp hz)⟩
    rwa [hwakes.idleproc]
  · obtain ⟨hnot, hlinks, hc, hwait, hplace⟩ := h.forks.fresh p c hfork
    rcases hwakes.state c with ⟨hc', hwait'⟩ | ⟨hT, -⟩
    · exact ⟨hnot, hlinks, hc'.trans hc, hwait'.trans hwait, hplace⟩
    · exact absurd (hfree c hT hplace) hnot
  · exact h.init ((hstate _).mp (hwakes.initproc ▸ hz))
  · exact h.zombie z hz ((hstate z).mp hzombie)
  · obtain ⟨hkid, hnone⟩ := h.waiting w hw pid store hpoint (hwakes.sleeping hsleep)
    exact ⟨hkid, fun c hc hawaited hz => hnone c hc hawaited ((hstate c).mp hz)⟩

/-- An interrupt wakes processes up, but none that is about to sleep in `do_wait`. -/
theorem Inv.of_interrupt (hinv : s.Inv k.family.alive k.point k.due) (htick : s.Ticking)
    (hwakes : Sched.Wakes T k.sched s) (happends : k.sched.Appends s)
    (hfree : ∀ p, T p → k.point p ≠ .free)
    (hwait : ∀ p pid store, T p → k.point p ≠ .wait pid store) :
    Inv kids { k with sched := s } ∧ k.Evolves { k with sched := s } := by
  refine h.of_wakes hinv htick hwakes (fun p hT hplace => absurd hplace (hfree p hT)) ?_
  intro hdue pid store hpoint
  rw [happends.1] at hpoint ⊢
  rcases hwakes.state k.sched.current with ⟨hsame, -⟩ | ⟨hT, -⟩
  · exact hsame.trans (h.asleep hdue pid store hpoint)
  · exact absurd hpoint (hwait _ pid store hT)

theorem Inv.run_timer_list : ∃ s, k.sched.run_timer_list = some s ∧
    Inv kids { k with sched := s } ∧ k.Evolves { k with sched := s } ∧ k.sched.Appends s := by
  obtain ⟨s, heq, hinv, htick, hwakes, happends⟩ := h.sched.run_timer_list h.ticking
  obtain ⟨hinv', hevolves⟩ := h.of_interrupt hinv htick hwakes happends
    (fun p hsleep hfree => by cases hsleep.symm.trans hfree)
    (fun p pid store hsleep hwait => by cases hsleep.symm.trans hwait)
  exact ⟨s, heq, hinv', hevolves, happends⟩

theorem Inv.of_queue (hinv : s.Inv k.family.alive k.point k.due)
    (hwakes : Sched.Wakes (fun p => k.point p = .queue queue) k.sched s)
    (happends : k.sched.Appends s) (htimers : s.timer_list = k.sched.timer_list) :
    Inv kids { k with sched := s } ∧ k.Evolves { k with sched := s } := by
  have htick : s.Ticking := by
    unfold Sched.Ticking
    rw [htimers]
    exact h.ticking
  exact h.of_interrupt hinv htick hwakes happends
    (fun p hqueue hfree => by cases hqueue.symm.trans hfree)
    (fun p pid store hqueue hwait => by cases hqueue.symm.trans hwait)

theorem Inv.schedule : ∃ s, k.sched.schedule = some s ∧
    Inv kids { k with sched := s, due := false } ∧
    k.Evolves { k with sched := s, due := false } ∧
    (k.sched.turns = s.current :: s.run_list ∨
      k.sched.turns = [] ∧ s.current = k.sched.idleproc ∧ s.run_list = []) := by
  obtain ⟨s, heq, hinv, hwakes, htimers, hturns⟩ := h.sched.schedule
  have htick : s.Ticking := by
    unfold Sched.Ticking
    rw [htimers]
    exact h.ticking
  obtain ⟨hinv', hevolves⟩ := h.of_wakes hinv htick hwakes (fun _ => False.elim) nofun
  exact ⟨s, heq, hinv', hevolves, hturns⟩

end

variable (h : k.Inv kids)
include h

theorem Inv.setCurrent (hinv : s.Inv k.family.alive (update k.point k.current place) due)
    (htick : s.Ticking) (hcurrent : s.current = k.current) (hidle : s.idleproc = k.sched.idleproc)
    (hinit : s.initproc = k.sched.initproc) (hothers : ∀ p ≠ k.current, s.procs p = k.proc p)
    (hold : (k.proc k.current).state ≠ .ZOMBIE) (hnew : (s.procs k.current).state ≠ .ZOMBIE)
    (hwaiting : ∀ pid store, place = .wait pid store → k.forking k.current = none ∧
      (s.procs k.current).state = .SLEEPING ∧ (∃ c ∈ kids k.current, k.Awaited pid c) ∧
      ∀ c ∈ kids k.current, k.Awaited pid c → (k.proc c).state ≠ .ZOMBIE) :
    Inv kids { k.setPoint place with sched := s, due := due } ∧
      k.Evolves { k.setPoint place with sched := s, due := due } := by
  have hzombie : ∀ p, (s.procs p).state = .ZOMBIE ↔ (k.proc p).state = .ZOMBIE := by
    intro p
    rcases eq_or_ne p k.current with rfl | hp
    · exact iff_of_false hnew hold
    · rw [hothers p hp]
  refine ⟨⟨?_, hinv, htick, ⟨fun p c hfork => ?_, fun p c hfork pid store hpoint => ?_,
    fun p c hfork => ?_, h.forks.unique, h.forks.number⟩, fun hz => ?_, fun z hz hzombie' => ?_,
    fun w hw pid store hpoint hsleep => ?_, fun hdue pid store hpoint => ?_⟩,
    ⟨hidle, hinit, fun p hp hpc => update_of_ne hpc _ _,
      fun _ hp _ => ⟨hp, rfl, rfl⟩, fun z _ hz => ⟨(hzombie z).mpr hz, ?_⟩⟩⟩
  · rw [hidle, hinit]
    exact h.family
  · obtain ⟨halive, hpidle, hpzombie⟩ := h.forks.parent p c hfork
    refine ⟨halive, ?_, fun hz => hpzombie ((hzombie p).mp hz)⟩
    rwa [hidle]
  · replace hpoint : update k.point k.current place p = .wait pid store := hpoint
    rcases eq_or_ne p k.current with rfl | hpc
    · rw [update_self] at hpoint
      cases (hwaiting pid store hpoint).1.symm.trans hfork
    · rw [update_of_ne hpc] at hpoint
      exact h.forks.point p c hfork pid store hpoint
  · obtain ⟨hnot, hlinks, hc, hwait, hplace⟩ := h.forks.fresh p c hfork
    have hpc : c ≠ k.current := fun heq => hnot (heq ▸ h.sched.runs.current)
    have hproc : proc { k.setPoint place with sched := s, due := due } c = k.proc c := hothers c hpc
    rw [hproc]
    exact ⟨hnot, hlinks, hc, hwait, (update_of_ne hpc _ _).trans hplace⟩
  · exact h.init ((hzombie _).mp (hinit ▸ hz))
  · exact h.zombie z hz ((hzombie z).mp hzombie')
  · have hkids : (∃ c ∈ kids w, k.Awaited pid c) ∧
        ∀ c ∈ kids w, k.Awaited pid c → (k.proc c).state ≠ .ZOMBIE := by
      replace hpoint : update k.point k.current place w = .wait pid store := hpoint
      rcases eq_or_ne w k.current with rfl | hwc
      · rw [update_self] at hpoint
        exact (hwaiting pid store hpoint).2.2
      · rw [update_of_ne hwc] at hpoint
        have hproc : (k.proc w).state = .SLEEPING := by
          rwa [← hothers w hwc]
        exact h.waiting w hw pid store hpoint hproc
    exact ⟨hkids.1, fun c hc hawaited hz => hkids.2 c hc hawaited ((hzombie c).mp hz)⟩
  · have heq : current { k.setPoint place with sched := s, due := due } = k.current := hcurrent
    rw [heq] at hpoint ⊢
    replace hpoint : update k.point k.current place k.current = .wait pid store := hpoint
    rw [update_self] at hpoint
    exact (hwaiting pid store hpoint).2.1
  · have hzc : z ≠ k.current := fun heq => hold (heq ▸ hz)
    exact congrArg _ (hothers z hzc)

theorem Inv.running (hdue : k.due = false) : (k.proc k.current).state = .RUNNABLE ∧
    (k.proc k.current).wait_state = 0 := by
  have hrun := h.sched.running hdue
  exact ⟨hrun, ((Sched.settled_runnable hrun).mp (h.sched.settled _ h.sched.runs.current)).1⟩

theorem Inv.unlisted (hplace : k.point k.current = .free) : k.sched.Unlisted :=
  h.sched.waiters.unlisted (fun heq => by cases hplace.symm.trans heq)
    (fun q heq => by cases hplace.symm.trans heq)

theorem Inv.do_sleep (hfree : k.Free) (htime : time ≠ 0) :
    ∃ s, k.do_sleep time = some (none, { k.setPoint .sleep with sched := s, due := true }) ∧
      Inv kids { k.setPoint .sleep with sched := s, due := true } ∧
      k.Evolves { k.setPoint .sleep with sched := s, due := true } ∧ k.sched.Appends s := by
  obtain ⟨hdue, hidle, hplace⟩ := hfree
  set s1 := k.sched.modify k.current fun x => { x with state := .SLEEPING, wait_state := WT_TIMER }
    with hs1
  have hset : s1.Inv k.family.alive (update k.point k.current .sleep) true :=
    h.sched.setCurrent (h.unlisted hplace) hidle (by simp [Sched.Settled]) (by simp)
  obtain ⟨l, heq, hinv, htick⟩ := hset.add_timer (t := ⟨k.current, time, k.current⟩)
    (Nat.pos_of_ne_zero htime) rfl h.sched.runs.current (update_self _ _ _)
    (h.unlisted hplace).timer h.ticking
  have hnew : (s1.procs k.current).state = .SLEEPING := by rw [hs1, Sched.modify_self]
  have hothers : ∀ p ≠ k.current, s1.procs p = k.proc p := fun p hp => Sched.modify_of_ne _ hp
  obtain ⟨hinv', hevolves⟩ := h.setCurrent hinv htick rfl rfl rfl hothers
    (by simp [(h.running hdue).1]) (by simp [hnew]) (by simp)
  refine ⟨_, ?_, hinv', hevolves, rfl, prefix_rfl⟩
  simp only [Kernel.do_sleep, if_neg htime, ← hs1, heq]
  rfl

theorem Inv.wait_current_set (hfree : k.Free) {wait_state : BitVec 32}
    (hwait : wait_state = WT_KBD ∨ wait_state = WT_KSEM) :
    Inv kids { k.setPoint (.queue queue) with
      sched := k.sched.wait_current_set queue wait_state, due := true } ∧
    k.Evolves { k.setPoint (.queue queue) with
      sched := k.sched.wait_current_set queue wait_state, due := true } := by
  obtain ⟨hdue, hidle, hplace⟩ := hfree
  have hinv : (k.sched.wait_current_set queue wait_state).Inv k.family.alive _ true :=
    h.sched.wait_current_set (h.unlisted hplace) hidle hwait
  have hprocs : (k.sched.wait_current_set queue wait_state).procs =
    (k.sched.modify k.current fun x => { x with state := .SLEEPING, wait_state }).procs := rfl
  exact h.setCurrent hinv h.ticking rfl rfl rfl
    (fun p hp => by rw [hprocs, Sched.modify_of_ne _ hp]; rfl)
    (by rw [(h.running hdue).1]; exact nofun)
    (by rw [hprocs, Sched.modify_self]; exact nofun) nofun

theorem Inv.not_idle (hplace : k.point k.current ≠ .free) : k.current ≠ k.sched.idleproc := by
  intro heq
  exact hplace (heq ▸ h.sched.idle_point)

variable (hdue : k.due = false)
include hdue

theorem Inv.setFree (hne : k.current ≠ k.sched.idleproc) (hinv : s.Inv k.family.alive k.point k.due)
    (htick : s.Ticking) (hunlisted : s.Unlisted) (hprocs : s.procs = k.sched.procs)
    (hcurrent : s.current = k.sched.current) (hidle : s.idleproc = k.sched.idleproc)
    (hinit : s.initproc = k.sched.initproc) :
    Inv kids { k.setPoint .free with sched := s } ∧
      k.Evolves { k.setPoint .free with sched := s } := by
  have hrun := (h.running hdue).1
  have hset : s.Inv k.family.alive (update k.point k.current .free) k.due := by
    rw [hdue] at hinv ⊢
    have hset := hinv.setFree hunlisted (by rwa [hcurrent, hidle])
    rwa [hcurrent] at hset
  refine h.setCurrent hset htick hcurrent hidle hinit (fun p _ => congrFun hprocs p) ?_ ?_ nofun
  · rw [hrun]
    exact nofun
  · rw [hprocs]
    exact fun hz => by cases hrun.symm.trans hz

theorem Inv.wake_sleep (hplace : k.point k.current = .sleep) :
    Inv kids { k.setPoint .free with sched := k.sched.del_timer k.current } ∧
      k.Evolves { k.setPoint .free with sched := k.sched.del_timer k.current } := by
  have hinv := h.sched.del_timer k.current
  refine h.setFree hdue (h.not_idle (by rw [hplace]; exact nofun)) hinv
    (h.ticking.del_timer k.current) ⟨fun t ht heq => ?_, fun q hmem => ?_⟩ rfl rfl rfl rfl
  · exact Sched.not_mem_del_timer h.sched.waiters k.current t ht
      ((hinv.waiters.timer t ht).1.trans heq)
  · cases hplace.symm.trans (hinv.waiters.queue q _ hmem).2

theorem Inv.wake_queue (hplace : k.point k.current = .queue queue) :
    ∃ s, k.sched.wait_current_del queue = some s ∧ Inv kids { k.setPoint .free with sched := s } ∧
      k.Evolves { k.setPoint .free with sched := s } ∧ k.sched.Appends s := by
  obtain ⟨wait_queues, heq, hinv, hnot⟩ := h.sched.wait_current_del queue
  have hunlisted : Sched.Unlisted { k.sched with wait_queues } := by
    refine ⟨fun t ht heq => ?_, fun q hmem => ?_⟩
    · have hsleep := (hinv.waiters.timer t ht).2.2
      rw [heq] at hsleep
      cases hplace.symm.trans hsleep
    · cases hplace.symm.trans (hinv.waiters.queue q _ hmem).2
      exact hnot hmem
  obtain ⟨hinv', hevolves⟩ := h.setFree hdue (h.not_idle (by rw [hplace]; exact nofun)) hinv
    h.ticking hunlisted rfl rfl rfl rfl
  exact ⟨_, heq, hinv', hevolves, rfl, prefix_rfl⟩

omit hdue in
theorem Inv.do_yield : k.do_yield.Inv kids ∧ k.Evolves k.do_yield := by
  unfold Kernel.do_yield
  have hwakes : Sched.Wakes (fun _ => False) k.sched
      (k.sched.modify k.current fun x => { x with need_resched := true }) :=
    .touch (fun _ => rfl) (fun _ => rfl) fun _ => rfl
  exact h.of_interrupt (h.sched.touch (fun _ => rfl) (fun _ => rfl) fun _ => rfl) h.ticking hwakes
    ⟨rfl, prefix_rfl⟩ (fun _ => False.elim) fun _ _ _ => False.elim

theorem Inv.do_kill (pid : ℤ) :
    ∃ ret s, k.do_kill pid = some (some ⟨ret, none⟩, { k with sched := s }) ∧
      Inv kids { k with sched := s } ∧ k.Evolves { k with sched := s } ∧ k.sched.Appends s := by
  unfold Kernel.do_kill
  cases hfind : k.family.find_proc pid with
  | none => exact ⟨_, k.sched, rfl, h, .refl k, .refl _⟩
  | some proc =>
    have halive : proc ∈ k.family.alive :=
      ((h.family.listed.mem _).mp (h.family.listed.find_proc_eq.mp hfind).1).1
    dsimp only
    split
    · set s := k.sched.modify proc fun x => { x with flags := x.flags ||| PF_EXITING } with hs
      have hinv : s.Inv k.family.alive k.point k.due :=
        h.sched.touch (fun _ => rfl) (fun _ => rfl) fun _ => rfl
      have hwakes : Sched.Wakes (· = proc) k.sched s :=
        .touch (fun _ => rfl) (fun _ => rfl) fun _ => rfl
      have hnew : ∀ {s'}, s'.Inv k.family.alive k.point k.due → s'.Ticking →
          Sched.Wakes (· = proc) k.sched s' →
          Inv kids { k with sched := s' } ∧ k.Evolves { k with sched := s' } :=
        fun hinv' htick hwakes' => h.of_wakes hinv' htick hwakes' (fun p heq _ => heq ▸ halive)
          fun hdue' => by cases hdue.symm.trans hdue'
      by_cases hint : (k.proc proc).wait_state &&& WT_INTERRUPTED ≠ 0
      · have hzombie : (s.procs proc).state ≠ .ZOMBIE := by
          rw [hs, Sched.modify_self]
          intro hz
          have hwait := ((Sched.settled_zombie hz).mp (h.sched.settled proc halive)).1
          rw [Kernel.proc, hwait] at hint
          exact hint rfl
        obtain ⟨s', heq, hinv', hwakes', happends, -, htimers, -⟩ := hinv.wakeup_proc halive hzombie
        have htick : s'.Ticking := by
          unfold Sched.Ticking
          rw [htimers]
          exact h.ticking
        obtain ⟨hinv'', hevolves⟩ := hnew hinv' htick (hwakes.trans hwakes')
        refine ⟨0, s', ?_, hinv'', hevolves, happends⟩
        rw [if_pos hint, heq]
        rfl
      · obtain ⟨hinv', hevolves⟩ := hnew hinv h.ticking hwakes
        refine ⟨0, s, ?_, hinv', hevolves, rfl, prefix_rfl⟩
        rw [if_neg hint]
        rfl
    · exact ⟨_, k.sched, rfl, h, .refl k, .refl _⟩

end ucore.Kernel
