import Mips32S.Kernel.Process.Sched

open Function List

namespace ucore.Sched

/-- The state of a process fits the place where the kernel goes on with it. -/
def Settled (x : proc_struct) (place : Point) : Prop :=
  match x.state with
  | .UNINIT => x.wait_state = 0 ∧ place = .free
  | .SLEEPING =>
    match place with
    | .wait _ _ => x.wait_state = WT_CHILD
    | .sleep => x.wait_state = WT_TIMER
    | .queue _ => x.wait_state = WT_KBD ∨ x.wait_state = WT_KSEM
    | .free | .exit => False
  | .RUNNABLE => x.wait_state = 0 ∧ place ≠ .exit
  | .ZOMBIE => x.wait_state = 0 ∧ place = .exit

theorem settled_runnable {x : proc_struct} {place : Point} (hx : x.state = .RUNNABLE) :
    Settled x place ↔ x.wait_state = 0 ∧ place ≠ .exit := by
  simp only [Settled, hx]

theorem settled_zombie {x : proc_struct} {place : Point} (hx : x.state = .ZOMBIE) :
    Settled x place ↔ x.wait_state = 0 ∧ place = .exit := by
  simp only [Settled, hx]

/-- The run queue holds the runnable processes apart from the current one and `idleproc`. -/
structure RunQueue (alive : Finset ℕ) (s : Sched) : Prop where
  current : s.current ∈ alive
  nodup : s.run_list.Nodup
  mem : ∀ p, p ∈ s.run_list ↔
    p ∈ alive ∧ (s.procs p).state = .RUNNABLE ∧ p ≠ s.current ∧ p ≠ s.idleproc
  rq : ∀ p ∈ s.run_list, (s.procs p).rq
  number : s.proc_num = s.run_list.length
  idle : s.idleproc ∈ alive
  idle_state : (s.procs s.idleproc).state = .RUNNABLE

/-- The timers and the processes that they wake up. -/
def timers (s : Sched) : List (ℕ × ℕ) := s.timer_list.map fun t => (t.addr, t.proc)

/-- The processes with a timer or in a wait queue are those that wait for it. A timer of
`do_sleep` belongs to its process. -/
structure Waiters (alive : Finset ℕ) (point : ℕ → Point) (s : Sched) : Prop where
  timer : ∀ t ∈ s.timers, t.1 = t.2 ∧ t.2 ∈ alive ∧ point t.2 = .sleep
  timer_nodup : (s.timers.map (·.1)).Nodup
  queue : ∀ q, ∀ p ∈ s.wait_queues q, p ∈ alive ∧ point p = .queue q
  queue_nodup : ∀ q, (s.wait_queues q).Nodup

/-- What holds between the operations of the scheduler. The current process is runnable unless
a call of `schedule` is `due`. -/
structure Inv (alive : Finset ℕ) (point : ℕ → Point) (due : Bool) (s : Sched) : Prop where
  runs : s.RunQueue alive
  waiters : s.Waiters alive point
  settled : ∀ p ∈ alive, Settled (s.procs p) (point p)
  idle_point : point s.idleproc = .free
  running : due = false → (s.procs s.current).state = .RUNNABLE

/-- The first timer has not expired. -/
def Ticking (s : Sched) : Prop := ∀ t ∈ s.timer_list.head?, 0 < t.expires

/-- Nothing changes for the processes, apart from their flags and time slices, but that some of
those in `T` have been woken up. -/
structure Wakes (T : ℕ → Prop) (s s' : Sched) : Prop where
  idleproc : s'.idleproc = s.idleproc
  initproc : s'.initproc = s.initproc
  exit_code : ∀ p, (s'.procs p).exit_code = (s.procs p).exit_code
  state : ∀ p, (s'.procs p).state = (s.procs p).state ∧
      (s'.procs p).wait_state = (s.procs p).wait_state ∨
    T p ∧ (s.procs p).state ≠ .ZOMBIE ∧ (s'.procs p).state = .RUNNABLE ∧
      (s'.procs p).wait_state = 0

/-- The current process goes on, and others may have joined the run queue. -/
def Appends (s s' : Sched) : Prop := s'.current = s.current ∧ s.run_list <+: s'.run_list

section
variable {T T' : ℕ → Prop} {s s' s'' : Sched}

theorem Wakes.refl (s : Sched) : Wakes T s s where
  idleproc := rfl
  initproc := rfl
  exit_code _ := rfl
  state _ := .inl ⟨rfl, rfl⟩

section
variable (h : Wakes T s s')
include h

theorem Wakes.trans (h' : Wakes T s' s'') : Wakes T s s'' where
  idleproc := h'.idleproc.trans h.idleproc
  initproc := h'.initproc.trans h.initproc
  exit_code p := (h'.exit_code p).trans (h.exit_code p)
  state p := by
    rcases h.state p with ⟨hstate, hwait⟩ | ⟨hT, hz, hstate, hwait⟩
    · rw [← hstate, ← hwait]
      exact h'.state p
    · refine .inr ⟨hT, hz, ?_⟩
      rcases h'.state p with ⟨hstate', hwait'⟩ | ⟨_, _, hstate', hwait'⟩
      · exact ⟨hstate'.trans hstate, hwait'.trans hwait⟩
      · exact ⟨hstate', hwait'⟩

theorem Wakes.mono (hT : ∀ p, T p → T' p) : Wakes T' s s' :=
  ⟨h.idleproc, h.initproc, h.exit_code, fun p =>
    (h.state p).imp_right fun hwoken => ⟨hT p hwoken.1, hwoken.2⟩⟩

theorem Wakes.relist {timer_list : List timer} {wait_queues : ℕ → List ℕ} :
    Wakes T s { s' with timer_list, wait_queues } :=
  ⟨h.idleproc, h.initproc, h.exit_code, h.state⟩

theorem Wakes.zombie (p : ℕ) : (s'.procs p).state = .ZOMBIE ↔ (s.procs p).state = .ZOMBIE := by
  rcases h.state p with ⟨hstate, _⟩ | ⟨_, hz, hstate, _⟩
  · rw [hstate]
  · rw [hstate]
    exact iff_of_false nofun hz

theorem Wakes.sleeping {p : ℕ} (hp : (s'.procs p).state = .SLEEPING) :
    (s.procs p).state = .SLEEPING := by
  rcases h.state p with ⟨hstate, _⟩ | ⟨_, _, hstate, _⟩
  · exact hstate.symm.trans hp
  · cases hstate.symm.trans hp

end

theorem Appends.refl (s : Sched) : s.Appends s := ⟨rfl, prefix_rfl⟩

theorem Appends.trans (h : s.Appends s') (h' : s'.Appends s'') : s.Appends s'' :=
  ⟨h'.1.trans h.1, h.2.trans h'.2⟩

end

section
variable {alive : Finset ℕ} {point : ℕ → Point} {due : Bool} {s s' : Sched} {proc p : ℕ}
  {x : proc_struct} {g : proc_struct → proc_struct}

@[simp]
theorem modify_self (g : proc_struct → proc_struct) :
    (s.modify proc g).procs proc = g (s.procs proc) := update_self _ _ _

@[simp]
theorem modify_of_ne (g : proc_struct → proc_struct) (hne : p ≠ proc) :
    (s.modify proc g).procs p = s.procs p := update_of_ne hne _ _

theorem sched_class_enqueue_eq (s : Sched) (proc : ℕ) (hqueue : proc ∉ s.run_list)
    (hidle : proc ≠ s.idleproc) :
    ∃ slice, s.sched_class_enqueue proc = some { s with
      procs := Function.update s.procs proc { s.procs proc with time_slice := slice, rq := true }
      run_list := s.run_list ++ [proc]
      proc_num := s.proc_num + 1 } := by
  refine ⟨if (s.procs proc).time_slice = 0 ∨ (s.procs proc).time_slice > MAX_TIME_SLICE then
    MAX_TIME_SLICE else (s.procs proc).time_slice, ?_⟩
  simp [sched_class_enqueue, hidle, RR_enqueue, hqueue, modify]

theorem wakeup_proc_effect (h : s.wakeup_proc p = some s') :
    (s'.procs p).state = .RUNNABLE ∧ (∀ q ≠ p, s'.procs q = s.procs q) ∧
      s'.timer_list = s.timer_list ∧ (∀ q ≠ p, q ∈ s'.run_list → q ∈ s.run_list) ∧
      ((s'.procs p).wait_state = 0 ∨ s' = s) := by
  obtain ⟨-, -, h⟩ := Option.bind_eq_some_iff.mp h
  split at h
  · dsimp only at h
    split at h
    · unfold sched_class_enqueue at h
      split at h
      · obtain ⟨-, -, h⟩ := Option.bind_eq_some_iff.mp h
        cases h
        simp +contextual [modify]
      · cases h
        simp +contextual [modify]
    · cases h
      simp +contextual [modify]
  · rename_i hrunnable
    cases h
    exact ⟨not_not.mp hrunnable, fun _ _ => rfl, rfl, fun _ _ hq => hq, .inr rfl⟩

theorem RunQueue.append (h : s.RunQueue alive) (hproc : proc ∈ alive) (hcurrent : proc ≠ s.current)
    (hidle : proc ≠ s.idleproc) (hqueue : proc ∉ s.run_list) (hstate : x.state = .RUNNABLE)
    (hrq : x.rq) :
    RunQueue alive { s with
      procs := Function.update s.procs proc x
      run_list := s.run_list ++ [proc]
      proc_num := s.proc_num + 1 } where
  current := h.current
  nodup := by
    exact h.nodup.append (nodup_singleton proc) (disjoint_singleton.mpr hqueue)
  mem p := by
    dsimp only
    rw [mem_append, mem_singleton]
    rcases eq_or_ne p proc with rfl | hp
    · simp [hproc, hcurrent, hidle, hstate]
    · rw [or_iff_left hp, h.mem p, update_of_ne hp]
  rq p hp := by
    dsimp only
    rcases eq_or_ne p proc with rfl | hne
    · rwa [update_self]
    · rw [update_of_ne hne]
      exact h.rq p ((mem_append.mp hp).resolve_right (by simpa using hne))
  number := by simp [h.number]
  idle := h.idle
  idle_state := by
    dsimp only
    rw [update_of_ne hidle.symm]
    exact h.idle_state

theorem RunQueue.update (h : s.RunQueue alive) (hqueue : proc ∉ s.run_list)
    (hidle : proc ≠ s.idleproc) (hstate : x.state = .RUNNABLE → proc = s.current) :
    RunQueue alive { s with procs := Function.update s.procs proc x } where
  current := h.current
  nodup := h.nodup
  mem p := by
    dsimp only
    rcases eq_or_ne p proc with rfl | hp
    · rw [update_self]
      exact iff_of_false hqueue fun hand => hand.2.2.1 (hstate hand.2.1)
    · rw [update_of_ne hp]
      exact h.mem p
  rq p hp := by
    have hne : p ≠ proc := fun heq => hqueue (heq ▸ hp)
    dsimp only
    rw [update_of_ne hne]
    exact h.rq p hp
  number := h.number
  idle := h.idle
  idle_state := by
    dsimp only
    rw [update_of_ne hidle.symm]
    exact h.idle_state

/-- A process that sleeps or is new becomes runnable, and joins the run queue unless it is the
current process. -/
theorem RunQueue.wakeup_proc (h : s.RunQueue alive) (hproc : proc ∈ alive)
    (hzombie : (s.procs proc).state ≠ .ZOMBIE) (hrun : (s.procs proc).state ≠ .RUNNABLE) :
    ∃ x run_list proc_num, s.wakeup_proc proc =
        some { s with procs := Function.update s.procs proc x, run_list, proc_num } ∧
      x.state = .RUNNABLE ∧ x.wait_state = 0 ∧
      x.exit_code = (s.procs proc).exit_code ∧ s.run_list <+: run_list ∧
      RunQueue alive { s with procs := Function.update s.procs proc x, run_list, proc_num } := by
  have hidle : proc ≠ s.idleproc := fun heq => hrun (heq ▸ h.idle_state)
  have hqueue : proc ∉ s.run_list := fun hmem => hrun ((h.mem proc).mp hmem).2.1
  by_cases hcurrent : proc = s.current
  · refine ⟨{ s.procs proc with state := .RUNNABLE, wait_state := 0 }, s.run_list, s.proc_num, ?_,
      rfl, rfl, rfl, prefix_rfl, h.update hqueue hidle fun _ => hcurrent⟩
    subst hcurrent
    simp [Sched.wakeup_proc, hzombie, hrun, modify]
  · obtain ⟨slice, henqueue⟩ := sched_class_enqueue_eq
      (s.modify proc fun x => { x with state := .RUNNABLE, wait_state := 0 }) proc hqueue hidle
    refine ⟨⟨.RUNNABLE, (s.procs proc).need_resched, (s.procs proc).flags,
      (s.procs proc).exit_code, 0, true, slice⟩, s.run_list ++ [proc], s.proc_num + 1, ?_,
      rfl, rfl, rfl, prefix_append _ _, h.append hproc hcurrent hidle hqueue rfl rfl⟩
    simp only [modify, update_self, update_idem] at henqueue
    simp only [Sched.wakeup_proc, hzombie, hrun, hcurrent, ne_eq, not_false_eq_true, guard_true,
      if_true, modify, henqueue]
    rfl

theorem Waiters.congr (h : s.Waiters alive point) (htimers : s'.timers = s.timers)
    (hqueues : s'.wait_queues = s.wait_queues) : s'.Waiters alive point := by
  obtain ⟨htimer, htimer_nodup, hqueue, hqueue_nodup⟩ := h
  exact ⟨by rwa [htimers], by rwa [htimers], by rwa [hqueues], by rwa [hqueues]⟩

theorem Inv.wakeup_proc (h : s.Inv alive point due) (hproc : proc ∈ alive)
    (hzombie : (s.procs proc).state ≠ .ZOMBIE) :
    ∃ s', s.wakeup_proc proc = some s' ∧ s'.Inv alive point due ∧ Wakes (· = proc) s s' ∧
      s.Appends s' ∧ (s'.procs proc).state = .RUNNABLE ∧ s'.timer_list = s.timer_list ∧
      s'.wait_queues = s.wait_queues := by
  by_cases hrun : (s.procs proc).state = .RUNNABLE
  · exact ⟨s, by simp [Sched.wakeup_proc, hrun], h, .refl s, .refl s, hrun, rfl, rfl⟩
  · have hplace : point proc ≠ .exit := by
      have hsettled := h.settled proc hproc
      unfold Settled at hsettled
      intro heq
      cases hstate : (s.procs proc).state <;> simp_all
    obtain ⟨x, run_list, proc_num, heq, hx, hwait, hcode, hrunlist, hruns⟩ :=
      h.runs.wakeup_proc hproc hzombie hrun
    refine ⟨_, heq, ⟨hruns, h.waiters.congr rfl rfl, fun p hp => ?_, h.idle_point, fun hdue => ?_⟩,
      ⟨rfl, rfl, fun p => ?_, fun p => ?_⟩, ⟨rfl, hrunlist⟩, ?_, rfl, rfl⟩
    all_goals dsimp only
    · rcases eq_or_ne p proc with rfl | hne
      · rw [update_self, settled_runnable hx]
        exact ⟨hwait, hplace⟩
      · rw [update_of_ne hne]
        exact h.settled p hp
    · rcases eq_or_ne s.current proc with heq' | hne
      · rw [heq', update_self, hx]
      · rw [update_of_ne hne]
        exact h.running hdue
    · rcases eq_or_ne p proc with rfl | hne
      · rw [update_self, hcode]
      · rw [update_of_ne hne]
    · rcases eq_or_ne p proc with rfl | hne
      · rw [update_self]
        exact .inr ⟨rfl, hzombie, hx, hwait⟩
      · rw [update_of_ne hne]
        exact .inl ⟨rfl, rfl⟩
    · rw [update_self, hx]

theorem Inv.touch (h : s.Inv alive point due) (hstate : ∀ x, (g x).state = x.state)
    (hwait : ∀ x, (g x).wait_state = x.wait_state) (hrq : ∀ x, (g x).rq = x.rq) :
    (s.modify proc g).Inv alive point due := by
  have hsame : ∀ p, ((s.modify proc g).procs p).state = (s.procs p).state ∧
      ((s.modify proc g).procs p).wait_state = (s.procs p).wait_state ∧
      ((s.modify proc g).procs p).rq = (s.procs p).rq := by
    intro p
    rcases eq_or_ne p proc with rfl | hne
    · rw [modify_self]
      exact ⟨hstate _, hwait _, hrq _⟩
    · rw [modify_of_ne g hne]
      exact ⟨rfl, rfl, rfl⟩
  refine ⟨⟨h.runs.current, h.runs.nodup, fun p => ?_, fun p hp => ?_, h.runs.number, h.runs.idle, ?_⟩,
    h.waiters.congr rfl rfl, fun p hp => ?_, h.idle_point, fun hdue => ?_⟩
  · rw [(hsame p).1]
    exact h.runs.mem p
  · rw [(hsame p).2.2]
    exact h.runs.rq p hp
  · rw [(hsame _).1]
    exact h.runs.idle_state
  · have hsettled := h.settled p hp
    unfold Settled at hsettled ⊢
    rwa [(hsame p).1, (hsame p).2.1]
  · rw [(hsame _).1]
    exact h.running hdue

theorem Wakes.touch {T : ℕ → Prop} (hcode : ∀ x, (g x).exit_code = x.exit_code)
    (hstate : ∀ x, (g x).state = x.state) (hwait : ∀ x, (g x).wait_state = x.wait_state) :
    Wakes T s (s.modify proc g) := by
  refine ⟨rfl, rfl, fun p => ?_, fun p => .inl ?_⟩ <;>
    rcases eq_or_ne p proc with rfl | hne <;> simp [*]

end

variable {alive : Finset ℕ} {point : ℕ → Point} {due : Bool} {s s' : Sched}

/-- The processes among which `schedule` chooses, in the order of their turns. -/
def turns (s : Sched) : List ℕ :=
  s.run_list ++
    if (s.procs s.current).state = .RUNNABLE ∧ s.current ≠ s.idleproc then [s.current] else []

theorem RunQueue.turns_nodup (h : s.RunQueue alive) : s.turns.Nodup := by
  unfold turns
  split
  · refine h.nodup.append (nodup_singleton _) (disjoint_singleton.mpr fun hmem => ?_)
    exact ((h.mem _).mp hmem).2.2.1 rfl
  · rw [append_nil]
    exact h.nodup

theorem RunQueue.mem_turns (h : s.RunQueue alive) (p : ℕ) :
    p ∈ s.turns ↔ p ∈ alive ∧ (s.procs p).state = .RUNNABLE ∧ p ≠ s.idleproc := by
  unfold turns
  rw [mem_append, h.mem p]
  rcases eq_or_ne p s.current with rfl | hp
  · by_cases hrun : (s.procs s.current).state = .RUNNABLE ∧ s.current ≠ s.idleproc
    · rw [if_pos hrun]
      exact iff_of_true (.inr mem_cons_self) ⟨h.current, hrun⟩
    · rw [if_neg hrun]
      simp only [ne_eq, not_true_eq_false, false_and, and_false, not_mem_nil, or_self, false_iff]
      exact fun hand => hrun hand.2
  · have hnot : p ∉ if (s.procs s.current).state = .RUNNABLE ∧ s.current ≠ s.idleproc then
        [s.current] else [] := by
      split <;> simp [hp]
    rw [or_iff_left hnot]
    exact and_congr_right fun _ => and_congr_right fun _ => and_iff_right hp

/-- The fields of a process that `schedule` leaves alone. -/
def SameFields (x y : proc_struct) : Prop :=
  y.state = x.state ∧ y.wait_state = x.wait_state ∧ y.exit_code = x.exit_code

theorem RunQueue.requeue (h : s.RunQueue alive) :
    ∃ procs, s.requeue = some { s with procs, run_list := s.turns, proc_num := s.turns.length } ∧
      (∀ p, SameFields (s.procs p) (procs p)) ∧ ∀ p ∈ s.turns, (procs p).rq := by
  have hsame : ∀ {x : proc_struct}, SameFields (s.procs s.current) x →
      ∀ p, SameFields (s.procs p) (Function.update s.procs s.current x p) := by
    intro x hx p
    rcases eq_or_ne p s.current with rfl | hp
    · rwa [update_self]
    · rw [update_of_ne hp]
      exact ⟨rfl, rfl, rfl⟩
  have hrq : ∀ {x : proc_struct}, ∀ p ∈ s.run_list, (Function.update s.procs s.current x p).rq := by
    intro x p hp
    rw [update_of_ne ((h.mem p).mp hp).2.2.1]
    exact h.rq p hp
  by_cases hturn : (s.procs s.current).state = .RUNNABLE ∧ s.current ≠ s.idleproc
  · have hqueue : s.current ∉ s.run_list := fun hmem => ((h.mem _).mp hmem).2.2.1 rfl
    obtain ⟨slice, henqueue⟩ := sched_class_enqueue_eq
      (s.modify s.current fun x => { x with need_resched := false }) s.current hqueue hturn.2
    simp only [modify, update_self, update_idem] at henqueue
    have hturns : s.turns = s.run_list ++ [s.current] := by rw [turns, if_pos hturn]
    refine ⟨_, ?_, hsame (x := ⟨(s.procs s.current).state, false, (s.procs s.current).flags,
      (s.procs s.current).exit_code, (s.procs s.current).wait_state, true, slice⟩)
      ⟨rfl, rfl, rfl⟩, fun p hp => ?_⟩
    · simp only [hturn.1, h.number] at henqueue
      simp only [Sched.requeue, modify, update_self, hturn.1, if_true, h.number, henqueue,
        hturns, length_append, length_singleton]
    · rw [hturns, mem_append, mem_singleton] at hp
      rcases hp with hp | rfl
      · exact hrq p hp
      · rw [update_self]
  · have hturns : s.turns = s.run_list := by rw [turns, if_neg hturn, append_nil]
    refine ⟨_, ?_, hsame (x := { s.procs s.current with need_resched := false })
      ⟨rfl, rfl, rfl⟩, fun p hp => hrq p (hturns ▸ hp)⟩
    rw [hturns, ← h.number]
    by_cases hrun : (s.procs s.current).state = .RUNNABLE
    · have hidle : s.current = s.idleproc := by
        by_contra hne
        exact hturn ⟨hrun, hne⟩
      simp [Sched.requeue, modify, sched_class_enqueue, hidle]
    · simp [Sched.requeue, modify, hrun]

/-- `schedule` gives the turn to the first process that waits for one, and to `idleproc` if
there is none. -/
theorem RunQueue.schedule (h : s.RunQueue alive) :
    ∃ procs next rest, s.schedule = some { s with
        procs, current := next, run_list := rest, proc_num := rest.length } ∧
      (∀ p, SameFields (s.procs p) (procs p)) ∧ (∀ p ∈ rest, (procs p).rq) ∧
      (s.turns = next :: rest ∨ s.turns = [] ∧ next = s.idleproc ∧ rest = []) := by
  obtain ⟨procs, hrequeue, hsame, hrq⟩ := h.requeue
  cases hturns : s.turns with
  | nil =>
    refine ⟨procs, s.idleproc, [], ?_, hsame, nofun, .inr ⟨rfl, rfl, rfl⟩⟩
    rw [hturns] at hrequeue
    simp [Sched.schedule, hrequeue, RR_pick_next]
  | cons next rest =>
    rw [hturns] at hrequeue hrq
    refine ⟨procs, next, rest, ?_, hsame, fun p hp => hrq p (mem_cons_of_mem next hp), .inl rfl⟩
    simp [Sched.schedule, hrequeue, RR_pick_next, RR_dequeue, hrq next mem_cons_self]

theorem Inv.schedule (h : s.Inv alive point due) :
    ∃ s', s.schedule = some s' ∧ s'.Inv alive point false ∧ Wakes (fun _ => False) s s' ∧
      s'.timer_list = s.timer_list ∧
      (s.turns = s'.current :: s'.run_list ∨
        s.turns = [] ∧ s'.current = s.idleproc ∧ s'.run_list = []) := by
  obtain ⟨procs, next, rest, heq, hsame, hrq, hnext⟩ := h.runs.schedule
  have hmem : ∀ p, p ∈ s.turns ↔ p ∈ rest ∨ p = next ∧ p ≠ s.idleproc := by
    intro p
    rcases hnext with hturns | ⟨hturns, rfl, rfl⟩
    · rw [hturns, mem_cons, or_comm, and_iff_left_of_imp]
      rintro rfl
      exact ((h.runs.mem_turns p).mp (hturns ▸ mem_cons_self)).2.2
    · simp [hturns]
  have hnodup : next ∉ rest ∧ rest.Nodup := by
    rcases hnext with hturns | ⟨-, -, rfl⟩
    · exact nodup_cons.mp (hturns ▸ h.runs.turns_nodup)
    · exact ⟨not_mem_nil, nodup_nil⟩
  have hnext_run : next ∈ alive ∧ (s.procs next).state = .RUNNABLE := by
    rcases hnext with hturns | ⟨-, rfl, -⟩
    · have hrun := (h.runs.mem_turns next).mp (hturns ▸ mem_cons_self)
      exact ⟨hrun.1, hrun.2.1⟩
    · exact ⟨h.runs.idle, h.runs.idle_state⟩
  refine ⟨_, heq, ⟨⟨hnext_run.1, hnodup.2, fun p => ?_, hrq, rfl, h.runs.idle, ?_⟩,
    h.waiters.congr rfl rfl, fun p hp => ?_, h.idle_point, fun _ => ?_⟩,
    ⟨rfl, rfl, fun p => (hsame p).2.2, fun p => .inl ⟨(hsame p).1, (hsame p).2.1⟩⟩, rfl, hnext⟩
  · dsimp only
    rw [(hsame p).1]
    have hturn := h.runs.mem_turns p
    rw [hmem p] at hturn
    constructor
    · intro hp
      obtain ⟨halive, hrun, hne⟩ := hturn.mp (.inl hp)
      exact ⟨halive, hrun, fun heq => hnodup.1 (heq ▸ hp), hne⟩
    · rintro ⟨halive, hrun, hp, hne⟩
      exact (hturn.mpr ⟨halive, hrun, hne⟩).resolve_right fun hand => hp hand.1
  · rw [(hsame _).1]
    exact h.runs.idle_state
  · have hsettled := h.settled p hp
    unfold Settled at hsettled ⊢
    rwa [(hsame p).1, (hsame p).2.1]
  · rw [(hsame _).1]
    exact hnext_run.2

end ucore.Sched
