import Mips32S.Kernel.Process.History

open linked Option List

namespace ucore.Kernel

variable {k k' : Kernel} {kids : ℕ → List ℕ} {a : Action} {r : Option Reply} {w z n : ℕ} {pid : ℤ}
  {store : Bool} {rest acts : List Action}

/-- After `n` calls of `schedule` it is the turn of `w`. -/
def Turn (k : Kernel) (w n : ℕ) : Prop :=
  (w = k.current ∧ n = 0) ∨
  (w ≠ k.current ∧ w ∈ k.sched.run_list ∧ n = k.sched.run_list.idxOf w + 1)

theorem Queues.turn (h : Queues a k k') (hw : w ≠ k.current) (hmem : w ∈ k.sched.run_list) :
    ∃ n, k'.Turn w n ∧
      k.sched.run_list.idxOf w + 1 = if a = .schedule then n + 1 else n := by
  have hturns : k.sched.turns.idxOf w = k.sched.run_list.idxOf w := idxOf_append_of_mem hmem
  unfold Queues at h
  split at h
  · rename_i ha
    have hin : w ∈ k.sched.turns := mem_append_left _ hmem
    simp only [if_pos ha]
    rcases h with heq | ⟨hnil, -, -⟩
    · rw [heq] at hin hturns
      rcases eq_or_ne w k'.current with hself | hself
      · rw [← hself, idxOf_cons_self] at hturns
        exact ⟨0, .inl ⟨hself, rfl⟩, by omega⟩
      · have hrest := (mem_cons.mp hin).resolve_left hself
        rw [idxOf_cons_ne _ hself.symm] at hturns
        exact ⟨_, .inr ⟨hself, hrest, rfl⟩, by omega⟩
    · rw [hnil] at hin
      cases hin
  · rename_i ha
    obtain ⟨hcurrent, added, hlist⟩ := h
    simp only [if_neg ha]
    refine ⟨_, .inr ⟨fun hself => hw (hself.trans hcurrent), ?_, rfl⟩, ?_⟩
    · rw [← hlist]
      exact mem_append_left _ hmem
    · rw [← hlist, idxOf_append_of_mem hmem]

/-- `w` is inside `do_wait`, and `z` is a child it waits for that has exited. -/
@[mk_iff]
structure Served (k : Kernel) (w z : ℕ) (pid : ℤ) (store : Bool) : Prop where
  waiter : w ∈ k.family.alive
  point : k.point w = .wait pid store
  child : z ∈ k.family.alive
  parent : (k.family.links z).parent = some w
  awaited : k.Awaited pid z
  zombie : (k.proc z).state = .ZOMBIE

section
variable (hserved : k.Served w z pid store) (h : k.Inv kids)
include hserved h

theorem Served.runnable : (k.proc w).state = .RUNNABLE := by
  have hkid := (h.family.tree.mem w hserved.waiter z).mpr ⟨hserved.child, hserved.parent⟩
  have hsettled := h.sched.settled w hserved.waiter
  have hpoint := hserved.point
  cases hstate : (k.proc w).state with
  | RUNNABLE => rfl
  | SLEEPING =>
    exact absurd hserved.zombie
      ((h.waiting w hserved.waiter pid store hpoint hstate).2 z hkid hserved.awaited)
  | UNINIT =>
    simp only [Sched.Settled, show (k.sched.procs w).state = .UNINIT from hstate] at hsettled
    cases hpoint.symm.trans hsettled.2
  | ZOMBIE =>
    cases hpoint.symm.trans ((Sched.settled_zombie hstate).mp hsettled).2

theorem Served.turn : ∃ n ≤ k.sched.run_list.length, k.Turn w n := by
  by_cases hw : w = k.current
  · exact ⟨0, Nat.zero_le _, .inl ⟨hw, rfl⟩⟩
  · have hidle : w ≠ k.sched.idleproc := by
      rintro rfl
      cases h.sched.idle_point.symm.trans hserved.point
    have hmem := (h.sched.runs.mem w).mpr ⟨hserved.waiter, hserved.runnable h, hw, hidle⟩
    exact ⟨_, idxOf_lt_length_of_mem hmem, .inr ⟨hw, hmem, rfl⟩⟩

theorem Served.current_step (hw : w = k.current) (hstep : Step a r k k') :
    k.due = false ∧ (a = .resume ∨
      a ≠ .schedule ∧ k'.family = k.family ∧ k'.point = k.point ∧ k'.current = k.current) := by
  subst hw
  have hpoint := hserved.point
  have hdue : k.due = false := by
    cases hdue : k.due with
    | false => rfl
    | true => cases (hserved.runnable h).symm.trans (h.asleep hdue pid store hpoint)
  refine ⟨hdue, ?_⟩
  have hfree : ¬k.Free := fun hfree => by cases hpoint.symm.trans hfree.2.2
  obtain ⟨hallowed, hexec⟩ := hstep
  obtain ⟨kids', -, -, -, hqueues⟩ := h.of_step ⟨hallowed, hexec⟩
  cases a with
  | resume => exact .inl rfl
  | schedule =>
    rcases hallowed with hdue' | ⟨hfree', -⟩
    · cases hdue.symm.trans hdue'
    · cases hpoint.symm.trans hfree'
  | run_timer_list =>
    obtain ⟨s, -, heq⟩ := map_eq_some_iff.mp hexec
    cases heq
    exact .inr ⟨nofun, rfl, rfl, hqueues.1⟩
  | wakeup_first queue del =>
    obtain ⟨s, -, heq⟩ := map_eq_some_iff.mp hexec
    cases heq
    exact .inr ⟨nofun, rfl, rfl, hqueues.1⟩
  | wakeup_queue queue del =>
    obtain ⟨s, -, heq⟩ := map_eq_some_iff.mp hexec
    cases heq
    exact .inr ⟨nofun, rfl, rfl, hqueues.1⟩
  | _ => exact absurd hallowed.1 hfree

/-- A step of another process, or an interrupt: the child is kept, and the turn comes nearer
with `schedule`. -/
theorem Served.step (hturn : k.Turn w n) (hstep : Step a r k k') :
    (n = 0 ∧ a = .resume) ∨ k'.Served w z pid store ∧
      ∃ n', k'.Turn w n' ∧ n = if a = .schedule then n' + 1 else n' := by
  obtain ⟨kids', hinv', hevolves, -, hqueues⟩ := h.of_step hstep
  have hfrees := h.freesExited hstep
  rcases hturn with ⟨hw, rfl⟩ | ⟨hw, hmem, rfl⟩
  · obtain ⟨-, rfl | ⟨ha, hfamily, hpoint, hcurrent⟩⟩ := hserved.current_step h hw hstep
    · exact .inl ⟨rfl, rfl⟩
    · refine .inr ⟨⟨?_, ?_, ?_, ?_, ?_, ?_⟩, 0, .inl ⟨hw.trans hcurrent.symm, rfl⟩,
        by rw [if_neg ha]⟩
      · exact hfamily ▸ hserved.waiter
      · exact hpoint ▸ hserved.point
      · exact hfamily ▸ hserved.child
      · exact hfamily ▸ hserved.parent
      · intro hpid
        rw [hfamily]
        exact hserved.awaited hpid
      · exact (hevolves.zombie z hserved.child hserved.zombie).1
  · obtain ⟨n', hturn', hn⟩ := hqueues.turn hw hmem
    have hother : (k.family.links z).parent ≠ some k.current := fun hup =>
      hw (some_inj.mp (hserved.parent.symm.trans hup))
    obtain ⟨hz', hpid, hup⟩ := hevolves.alive z hserved.child hother
    refine .inr ⟨⟨?_, ?_, hz', hup.trans hserved.parent,
      fun hne => hpid.trans (hserved.awaited hne),
      (hevolves.zombie z hserved.child hserved.zombie).1⟩, n', hturn', hn⟩
    · rcases hfrees w hserved.waiter with ⟨hw', -⟩ | ⟨-, hz, -⟩
      · exact hw'
      · cases (hserved.runnable h).symm.trans hz
    · exact (hevolves.point w hserved.waiter hw).trans hserved.point

end

theorem Step.run (hstep : Step a r k k') : k.run (a :: rest) = k'.run rest := by
  rw [Kernel.run, if_pos hstep.1, hstep.2]
  rfl

/-- In a run with enough calls of `schedule` the waiting process goes on in `do_wait`. -/
theorem Served.resumes (hserved : k.Served w z pid store) (h : k.Inv kids) (hturn : k.Turn w n)
    (hrun : k.run acts = some k') (hn : n < acts.count .schedule) :
    ∃ before after k1 kids1, acts = before ++ .resume :: after ∧ k.run before = some k1 ∧
      k1.Inv kids1 ∧ k1.Served w z pid store ∧ k1.current = w ∧ k1.due = false := by
  -- along the run; the measure falls with every `schedule`
  induction acts generalizing k kids n with
  | nil => exact absurd hn (Nat.not_lt_zero n)
  | cons a rest ih =>
    obtain ⟨r, k1, hstep, hrest⟩ := run_cons hrun
    rcases hserved.step h hturn hstep with ⟨rfl, rfl⟩ | ⟨hserved1, n1, hturn1, hn1⟩
    · obtain ⟨hw, -⟩ := hturn.resolve_right fun hor => by
        omega
      exact ⟨[], rest, k, kids, rfl, rfl, h, hserved, hw.symm, (hserved.current_step h hw hstep).1⟩
    · obtain ⟨kids1, hinv1, -, -, -⟩ := h.of_step hstep
      have hcount : n1 < rest.count .schedule := by
        by_cases ha : a = .schedule
        · subst ha
          rw [if_pos rfl] at hn1
          rw [count_cons_self] at hn
          omega
        · rw [if_neg ha] at hn1
          rw [count_cons_of_ne ha] at hn
          omega
      obtain ⟨before, after, k2, kids2, rfl, hbefore, hrest⟩ :=
        ih hserved1 hinv1 hturn1 hrest hcount
      exact ⟨a :: before, after, k2, kids2, rfl, hstep.run.trans hbefore, hrest⟩

/-- `c` is the first child in the list of `w` that it waits for and that has exited. -/
def FirstServed (k : Kernel) (w c : ℕ) (pid : ℤ) : Prop :=
  ∃ children, Linked (fun p => (k.family.links p).yptr) (fun p => (k.family.links p).optr) none
      (k.family.links w).cptr children ∧
    children.find? (fun p => k.Awaited pid p ∧ (k.proc p).state = .ZOMBIE) = some c

/-- Going on in `do_wait`, a process that has not been killed frees the first child it waits for
that has exited, and returns its exit code. -/
theorem Served.reaps (hserved : k.Served w z pid store) (h : k.Inv kids) (hw : k.current = w)
    (hdue : k.due = false) (hflags : (k.proc w).flags &&& PF_EXITING = 0) :
    ∃ c k', k.Served w c pid store ∧ k.FirstServed w c pid ∧ (pid ≠ 0 → c = z) ∧
      k.exec .resume = some (some ⟨0, if store then some (k.proc c).exit_code else none⟩, k') ∧
      k'.family.alive = k.family.alive.erase c := by
  subst hw
  have hkid := (h.family.tree.mem _ hserved.waiter z).mpr ⟨hserved.child, hserved.parent⟩
  obtain ⟨r, k', -, heq, -, -, -, hcase⟩ := h.round (h.inWait hdue hserved.point) pid store
  cases hfirst : k.firstExited kids pid with
  | none =>
    exact absurd (decide_eq_true ⟨hserved.awaited, hserved.zombie⟩) (find?_eq_none.mp hfirst z hkid)
  | some c =>
    have htest := find?_some hfirst
    obtain ⟨hawaited, hzombie⟩ := of_decide_eq_true htest
    obtain ⟨hc, hup⟩ := (h.family.tree.mem _ hserved.waiter c).mp (mem_of_find?_eq_some hfirst)
    rw [hfirst] at hcase
    obtain ⟨rfl, halive, -⟩ := hcase
    refine ⟨c, k', ⟨hserved.waiter, hserved.point, hc, hup, hawaited, hzombie⟩,
      ⟨kids k.current, h.family.tree.linked _ hserved.waiter, hfirst⟩, fun hpid => ?_, ?_, halive⟩
    · have hself := h.firstExited_pid hkid hserved.zombie
      rw [hserved.awaited hpid, hfirst] at hself
      exact some_inj.mp hself
    · simp only [exec, Kernel.resume, hserved.point, hflags, ne_eq, not_true_eq_false, if_false]
      exact heq

variable {idleproc initproc : ℕ}

/-- No exit of a child is lost. A process in `do_wait` one of whose children has exited can run,
and in every run with enough calls of `schedule` it goes on and frees the first such child in its
list, unless it has been killed itself. A process sleeps in `do_wait` only with a child to wait
for; without one the call fails at once. -/
theorem no_lost_exit (hne : idleproc ≠ initproc) (h : Reach idleproc initproc k) :
    (∀ w z pid store, k.Served w z pid store →
      (k.proc w).state = .RUNNABLE ∧
      ∀ acts k', k.run acts = some k' → k.sched.run_list.length < acts.count .schedule →
        ∃ before after k1, acts = before ++ .resume :: after ∧ k.run before = some k1 ∧
          k1.Served w z pid store ∧ k1.current = w ∧
          ((k1.proc w).flags &&& PF_EXITING = 0 → ∃ c k2, k1.Served w c pid store ∧
            k1.FirstServed w c pid ∧ (pid ≠ 0 → c = z) ∧
            k1.exec .resume =
              some (some ⟨0, if store then some (k1.proc c).exit_code else none⟩, k2) ∧
            k2.family.alive = k1.family.alive.erase c)) ∧
    (∀ w ∈ k.family.alive, ∀ pid store, k.point w = .wait pid store →
      (k.proc w).state = .SLEEPING →
      ∃ c ∈ k.family.alive, (k.family.links c).parent = some w ∧ k.Awaited pid c) ∧
    ∀ pid store checked, k.Free → k.forking k.current = none →
      (∀ c ∈ k.family.alive, (k.family.links c).parent = some k.current → ¬k.Awaited pid c) →
      ∃ ret k', k.exec (.do_wait pid store checked) = some (some ⟨ret, none⟩, k') ∧ ret < 0 ∧
        k'.sched = k.sched := by
  obtain ⟨⟨kids, hinv⟩, -, -⟩ := h.inv hne
  have htree := hinv.family.tree
  refine ⟨fun w z pid store hserved => ⟨hserved.runnable hinv, fun acts k' hrun hcount => ?_⟩,
    fun w hw pid store hpoint hsleep => ?_, fun pid store checked hfree hfork hno => ?_⟩
  · obtain ⟨n, hn, hturn⟩ := hserved.turn hinv
    obtain ⟨before, after, k1, kids1, hacts, hbefore, hinv1, hserved1, hw, hdue⟩ :=
      hserved.resumes hinv hturn hrun (hn.trans_lt hcount)
    exact ⟨before, after, k1, hacts, hbefore, hserved1, hw, hserved1.reaps hinv1 hw hdue⟩
  · obtain ⟨⟨c, hc, hawaited⟩, -⟩ := hinv.waiting w hw pid store hpoint hsleep
    obtain ⟨hc', hup⟩ := (htree.mem w hw c).mp hc
    exact ⟨c, hc', hup, hawaited⟩
  · by_cases hstore : store ∧ ¬checked
    · exact ⟨_, k, by simp only [exec, Kernel.do_wait, if_pos hstore]; rfl, by decide, rfl⟩
    · have hkids : ∀ c ∈ kids k.current, ¬k.Awaited pid c := fun c hc => by
        obtain ⟨hc', hup⟩ := (htree.mem _ hinv.sched.runs.current c).mp hc
        exact hno c hc' hup
      obtain ⟨r, k', -, heq, -, -, -, hcase⟩ := hinv.round (hfree.inWait hfork) pid store
      cases hfirst : k.firstExited kids pid with
      | some c =>
        have htest := find?_some hfirst
        exact absurd (of_decide_eq_true htest).1 (hkids c (mem_of_find?_eq_some hfirst))
      | none =>
        rw [hfirst] at hcase
        obtain ⟨rfl, hsched⟩ := hcase.2 hkids
        exact ⟨_, k', by simp only [exec, Kernel.do_wait, if_neg hstore]; exact heq, by decide,
          hsched⟩

instance (k : Kernel) (w z : ℕ) (pid : ℤ) (store : Bool) : Decidable (k.Served w z pid store) :=
  decidable_of_iff _ (served_iff k w z pid store).symm

/-- `initproc` waits, and its child exits. -/
theorem no_lost_exit_initproc : ∃ k, Reach 0 1 k ∧ k.Served 1 2 0 true ∧
    (k.proc 1).state = .RUNNABLE := by
  obtain ⟨k, hreach, hserved⟩ := exists_reach [.schedule, .do_fork (some 2), .fork_finish true,
    .do_wait 0 true true, .schedule, .do_exit 7] (·.Served 1 2 0 true) (by decide +kernel)
  exact ⟨k, hreach, hserved, ((no_lost_exit (by decide) hreach).1 1 2 0 true hserved).1⟩

/-- A process that is killed while it waits exits without freeing the child it waits for. -/
theorem killed_waiter_exits : ∃ k, Reach 0 1 k ∧ k.Served 2 3 3 true ∧ k.current = 2 ∧
    (k.exec .resume).any fun r =>
      r.1 = none ∧ (r.2.proc 2).state = .ZOMBIE ∧ 3 ∈ r.2.family.alive := by
  refine exists_reach [.schedule, .do_fork (some 2), .fork_finish true, .do_wait 0 false true,
    .schedule, .do_fork (some 3), .fork_finish true, .do_wait 3 true true, .schedule, .do_kill 2,
    .do_exit 7, .schedule] _ (by decide +kernel)

end ucore.Kernel
