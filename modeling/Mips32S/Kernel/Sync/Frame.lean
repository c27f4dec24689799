import Mips32S.Kernel.Process.History

open Function Option List

namespace ucore

namespace Sched

variable {q queue p : ℕ} {P : ℕ → Prop} {s s' s'' : Sched}

/-- The wait queue and the processes `P` are left as they are. -/
structure Keeps (q : ℕ) (P : ℕ → Prop) (s s' : Sched) : Prop where
  queue : s'.wait_queues q = s.wait_queues q
  procs : ∀ p, P p → (s'.procs p).state = (s.procs p).state ∧
    (s'.procs p).wait_state = (s.procs p).wait_state

theorem Keeps.refl (s : Sched) : Keeps q P s s := ⟨rfl, fun _ _ => ⟨rfl, rfl⟩⟩

theorem Keeps.trans (h : Keeps q P s s') (h' : Keeps q P s' s'') : Keeps q P s s'' :=
  ⟨h'.queue.trans h.queue, fun p hp =>
    ⟨(h'.procs p hp).1.trans (h.procs p hp).1, (h'.procs p hp).2.trans (h.procs p hp).2⟩⟩

theorem Keeps.modify {g : proc_struct → proc_struct}
    (hg : P p → (g (s.procs p)).state = (s.procs p).state ∧
      (g (s.procs p)).wait_state = (s.procs p).wait_state) : Keeps q P s (s.modify p g) := by
  refine ⟨rfl, fun x hx => ?_⟩
  rcases eq_or_ne x p with rfl | hne
  · rw [modify_self]
    exact hg hx
  · rw [modify_of_ne g hne]
    exact ⟨rfl, rfl⟩

theorem Keeps.sched_class_enqueue (h : s.sched_class_enqueue p = some s') : Keeps q P s s' := by
  unfold Sched.sched_class_enqueue at h
  split at h
  · obtain ⟨_, -, h⟩ := bind_eq_some_iff.mp h
    cases h
    have hkeeps : Keeps q P s (s.modify p fun x => { x with
        time_slice := if x.time_slice = 0 ∨ x.time_slice > MAX_TIME_SLICE then MAX_TIME_SLICE
          else x.time_slice
        rq := true }) := .modify fun _ => ⟨rfl, rfl⟩
    exact ⟨hkeeps.queue, hkeeps.procs⟩
  · cases h
    exact .refl s

theorem Keeps.wakeup_proc (h : s.wakeup_proc p = some s')
    (hp : P p → (s.procs p).state = .RUNNABLE) : Keeps q P s s' := by
  obtain ⟨_, -, h⟩ := bind_eq_some_iff.mp h
  split at h
  · rename_i hrun
    have hkeeps : Keeps q P s (s.modify p fun x => { x with state := .RUNNABLE, wait_state := 0 }) :=
      .modify fun hP => absurd (hp hP) hrun
    dsimp only at h
    split at h
    · exact hkeeps.trans (.sched_class_enqueue h)
    · cases h
      exact hkeeps
  · cases h
    exact .refl s

theorem Keeps.schedule (h : s.schedule = some s') : Keeps q P s s' := by
  obtain ⟨s1, hrequeue, h⟩ := bind_eq_some_iff.mp h
  have hkeeps : Keeps q P s s1 := by
    have htouch : Keeps q P s (s.modify s.current fun x => { x with need_resched := false }) :=
      .modify fun _ => ⟨rfl, rfl⟩
    unfold requeue at hrequeue
    dsimp only at hrequeue
    split at hrequeue
    · exact htouch.trans (.sched_class_enqueue hrequeue)
    · cases hrequeue
      exact htouch
  split at h
  · obtain ⟨s2, hdequeue, h⟩ := bind_eq_some_iff.mp h
    obtain ⟨_, -, hdequeue⟩ := bind_eq_some_iff.mp hdequeue
    cases hdequeue
    cases h
    exact ⟨hkeeps.queue, hkeeps.procs⟩
  · cases h
    exact ⟨hkeeps.queue, hkeeps.procs⟩

section
variable {l : List timer}

theorem Keeps.expire (h : run_timer_list.expire l s = some s')
    (hl : ∀ t ∈ l, P t.proc → False) : Keeps q P s s' := by
  induction l generalizing s with
  | nil =>
    cases h
    exact .refl _
  | cons t rest ih =>
    unfold run_timer_list.expire at h
    split at h
    · obtain ⟨_, -, h⟩ := bind_eq_some_iff.mp h
      obtain ⟨s1, hwakeup, h⟩ := bind_eq_some_iff.mp h
      have hkeeps : Keeps q P s s1 := .wakeup_proc hwakeup fun hP => (hl t mem_cons_self hP).elim
      have hrest := ih h fun u hu => hl u (mem_cons_of_mem t hu)
      exact hkeeps.trans ⟨hrest.queue, hrest.procs⟩
    · cases h
      exact .refl _

theorem Keeps.tick (s : Sched) (p : ℕ) : Keeps q P s (s.sched_class_proc_tick p) := by
  unfold sched_class_proc_tick RR_proc_tick
  split <;> exact .modify fun _ => ⟨rfl, rfl⟩

theorem Keeps.run_timer_list (h : s.run_timer_list = some s') (hl : ∀ t ∈ s.timers, ¬P t.2) :
    Keeps q P s s' := by
  have hlist : ∀ t ∈ s.timer_list, ¬P t.proc := fun t ht =>
    hl (t.addr, t.proc) (List.mem_map.mpr ⟨t, ht, rfl⟩)
  unfold Sched.run_timer_list at h
  cases htimers : s.timer_list with
  | nil =>
    rw [htimers] at h
    cases h
    exact .tick s _
  | cons t rest =>
    rw [htimers] at h hlist
    obtain ⟨_, -, h⟩ := bind_eq_some_iff.mp h
    obtain ⟨s1, hexpire, h⟩ := bind_eq_some_iff.mp h
    cases h
    have hkeeps : Keeps q P
        { s with timer_list := { t with expires := t.expires - 1 } :: rest } s1 := by
      refine .expire hexpire fun u hu => ?_
      rcases mem_cons.mp hu with rfl | hu'
      · exact hlist t mem_cons_self
      · exact hlist u (mem_cons_of_mem t hu')
    have hsame : Keeps q P s s1 := ⟨hkeeps.queue, hkeeps.procs⟩
    exact hsame.trans (.tick s1 _)

end

variable {del : Bool}

theorem Keeps.wait_queue_del (h : s.wait_queue_del queue p = some s') (hne : queue ≠ q) :
    Keeps q P s s' := by
  obtain ⟨_, -, h⟩ := bind_eq_some_iff.mp h
  cases h
  exact ⟨update_of_ne hne.symm _ _, fun _ _ => ⟨rfl, rfl⟩⟩

theorem Keeps.wait_current_del (h : s.wait_current_del queue = some s') (hne : queue ≠ q) :
    Keeps q P s s' := by
  unfold Sched.wait_current_del at h
  split at h
  · exact .wait_queue_del h hne
  · cases h
    exact .refl s

theorem Keeps.wakeup_wait (h : s.wakeup_wait queue p del = some s') (hne : queue ≠ q)
    (hp : ¬P p) : Keeps q P s s' := by
  unfold Sched.wakeup_wait at h
  cases del with
  | false => exact .wakeup_proc h fun hP => absurd hP hp
  | true =>
    obtain ⟨s1, hdel, h⟩ := bind_eq_some_iff.mp h
    exact (Keeps.wait_queue_del hdel hne).trans (.wakeup_proc h fun hP => absurd hP hp)

theorem Keeps.wakeup_first (h : s.wakeup_first queue del = some s') (hne : queue ≠ q)
    (hp : ∀ p ∈ s.wait_queues queue, ¬P p) : Keeps q P s s' := by
  unfold Sched.wakeup_first at h
  cases hqueue : s.wait_queues queue with
  | nil =>
    rw [hqueue] at h
    cases h
    exact .refl _
  | cons p rest =>
    rw [hqueue] at h hp
    exact .wakeup_wait h hne (hp p mem_cons_self)

theorem Keeps.wakeup_queue (h : s.wakeup_queue queue del = some s') (hne : queue ≠ q)
    (hp : ∀ p ∈ s.wait_queues queue, ¬P p) : Keeps q P s s' := by
  unfold Sched.wakeup_queue at h
  generalize s.wait_queues queue = l at h hp
  induction l generalizing s with
  | nil =>
    cases h
    exact .refl _
  | cons p rest ih =>
    obtain ⟨s1, hwakeup, h⟩ := bind_eq_some_iff.mp h
    exact (Keeps.wakeup_wait hwakeup hne (hp p mem_cons_self)).trans
      (ih h fun x hx => hp x (mem_cons_of_mem p hx))

end Sched

namespace Kernel

variable {q p fuel : ℕ} {P : ℕ → Prop} {s s' : Sched} {k k' : Kernel} {kids : ℕ → List ℕ}
  {a : Action} {r : Option Reply}

/-- None of the processes waits for a child. -/
def NoChildWait (P : ℕ → Prop) (s : Sched) : Prop := ∀ p, P p → (s.procs p).wait_state ≠ WT_CHILD

theorem NoChildWait.keeps (h : NoChildWait P s) (hkeeps : Sched.Keeps q P s s') :
    NoChildWait P s' := fun p hp => (hkeeps.procs p hp).2 ▸ h p hp

theorem NoChildWait.wakeup (h : NoChildWait P s) (heq : do_exit.wakeup p s = some s') :
    Sched.Keeps q P s s' := by
  unfold do_exit.wakeup at heq
  split at heq
  · rename_i hwait
    exact .wakeup_proc heq fun hP => absurd hwait (h p hP)
  · cases heq
    exact .refl _

theorem NoChildWait.reparent {f f' : Family} (h : NoChildWait P s)
    (heq : do_exit.reparent fuel f s = some (f', s')) : Sched.Keeps q P s s' := by
  induction fuel generalizing f s with
  | zero =>
    unfold do_exit.reparent at heq
    split at heq <;> cases heq
    exact .refl _
  | succ fuel ih =>
    unfold do_exit.reparent at heq
    split at heq
    · cases heq
      exact .refl _
    · obtain ⟨s1, hinherit, heq⟩ := bind_eq_some_iff.mp heq
      have hkeeps : Sched.Keeps q P s s1 := by
        unfold do_exit.inherit at hinherit
        split at hinherit
        · exact h.wakeup hinherit
        · cases hinherit
          exact .refl _
      exact hkeeps.trans (ih (h.keeps hkeeps) heq)

theorem NoChildWait.do_exit {error_code : ℤ} (h : NoChildWait P k.sched)
    (heq : k.do_exit error_code = some k') (hcurrent : ¬P k.current) :
    k.sched.Keeps q P k'.sched ∧ k'.point k.current = .exit := by
  simp only [Kernel.do_exit, bind_eq_bind, bind_eq_some_iff] at heq
  obtain ⟨_, -, _, -, parent, -, s1, hwakeup, ⟨f, s2⟩, hreparent, heq⟩ := heq
  cases heq
  have hzombie : k.sched.Keeps q P (k.sched.modify k.current fun x =>
      { x with state := .ZOMBIE, exit_code := error_code }) :=
    .modify fun hP => absurd hP hcurrent
  have hwoken := hzombie.trans ((h.keeps hzombie).wakeup hwakeup)
  exact ⟨hwoken.trans ((h.keeps hwoken).reparent hreparent), update_self _ _ _⟩

theorem round_keeps {pid : ℤ} {store : Bool} (heq : do_wait.round k pid store = some (r, k'))
    (hcurrent : ¬P k.current) :
    k.sched.Keeps q P k'.sched ∧ k'.point k.current ≠ .queue q := by
  obtain ⟨⟨haskid, found⟩, -, heq⟩ := bind_eq_some_iff.mp heq
  have hpoint : ∀ place, (k.setPoint place).point k.current = place :=
    fun place => update_self _ _ _
  cases found with
  | some proc =>
    obtain ⟨_, -, heq⟩ := bind_eq_some_iff.mp heq
    obtain ⟨f, -, heq⟩ := bind_eq_some_iff.mp heq
    cases heq
    exact ⟨.refl _, by simp [hpoint]⟩
  | none =>
    cases haskid with
    | true =>
      cases heq
      have hkeeps : k.sched.Keeps q P (k.sched.modify k.current fun x =>
          { x with state := .SLEEPING, wait_state := WT_CHILD }) := .modify fun hP => absurd hP hcurrent
      exact ⟨hkeeps, by simp [hpoint]⟩
    | false =>
      cases heq
      exact ⟨.refl _, by simp [hpoint]⟩

theorem Inv.new_free (h : k.Inv kids) (hstep : Step a r k k') (hp : p ∈ k'.family.alive)
    (hnew : p ∉ k.family.alive) : k'.point p = .free := by
  obtain ⟨kids', -, -, hturnover, -⟩ := h.of_step hstep
  rcases hturnover with halive | ⟨rfl, c, hfork, -, halive⟩ | ⟨-, c, -, -, -, halive⟩
  · exact absurd (halive ▸ hp) hnew
  · have hpc : p = c := (Finset.mem_insert.mp (halive ▸ hp)).resolve_right hnew
    obtain ⟨c', -, hexec⟩ := bind_eq_some_iff.mp hstep.2
    obtain ⟨⟨pid, f⟩, -, hexec⟩ := bind_eq_some_iff.mp hexec
    obtain ⟨s, -, hexec⟩ := bind_eq_some_iff.mp hexec
    cases hexec
    exact hpc ▸ (h.forks.fresh _ c hfork).2.2.2.2
  · exact absurd (Finset.mem_of_mem_erase (halive ▸ hp)) hnew

/-- The action uses the wait queue. -/
def Uses (k : Kernel) (q : ℕ) : Action → Prop
  | .wait_current_set queue _ | .wakeup_first queue _ | .wakeup_queue queue _ => queue = q
  | .resume => k.point k.current = .queue q
  | _ => False

instance (k : Kernel) (q : ℕ) (a : Action) : Decidable (k.Uses q a) := by
  unfold Uses
  split <;> infer_instance

/-- The process waits in the queue, or has been woken up and not gone on yet. -/
def AtQueue (k : Kernel) (q p : ℕ) : Prop := p ∈ k.family.alive ∧ k.point p = .queue q

instance (k : Kernel) (q p : ℕ) : Decidable (k.AtQueue q p) := inferInstanceAs (Decidable (_ ∧ _))

/-- The wait queue, and the processes that wait in it, are left as they are, and the current
process does not come to it. -/
def Frame (q : ℕ) (k k' : Kernel) : Prop :=
  k.sched.Keeps q (k.AtQueue q) k'.sched ∧
    (k'.point k.current = .queue q ↔ k.point k.current = .queue q)

theorem Frame.refl (k : Kernel) : Frame q k k := ⟨.refl _, .rfl⟩

theorem Free.not_atQueue (h : k.Free) : ¬k.AtQueue q k.current := fun hat => by
  cases h.2.2.symm.trans hat.2

theorem Frame.of_leave (hkeeps : k.sched.Keeps q (k.AtQueue q) k'.sched)
    (hcurrent : k.current ∈ k.family.alive) (hbefore : ¬k.AtQueue q k.current)
    (hafter : k'.point k.current ≠ .queue q) : Frame q k k' :=
  ⟨hkeeps, iff_of_false hafter fun hpoint => hbefore ⟨hcurrent, hpoint⟩⟩

theorem setPoint_ne {place : Point} (hplace : place ≠ .queue q) :
    (k.setPoint place).point k.current ≠ .queue q := by
  rwa [show (k.setPoint place).point k.current = place from update_self _ _ _]

theorem NoChildWait.of_uninterrupted
    (hwait : ∀ p, k.AtQueue q p → (k.proc p).wait_state &&& WT_INTERRUPTED = 0) :
    NoChildWait (k.AtQueue q) k.sched := fun p hp heq => by
  have hzero := hwait p hp
  rw [show (k.proc p).wait_state = WT_CHILD from heq] at hzero
  exact absurd hzero (by decide)

section
variable (h : k.Inv kids)
include h

theorem Inv.do_fork_frame {alloc : Option ℕ} (hallowed : k.Allowed (.do_fork alloc))
    (hexec : k.do_fork alloc = some (r, k')) : Frame q k k' := by
  unfold Kernel.do_fork at hexec
  split at hexec
  · cases hexec
    exact .refl k
  · cases alloc with
    | none =>
      cases hexec
      exact .refl k
    | some proc =>
      obtain ⟨_, -, hexec⟩ := bind_eq_some_iff.mp hexec
      cases hexec
      have hnew : proc ∉ k.family.alive := (hallowed.2.2 proc rfl).1
      have hkeeps : k.sched.Keeps q (k.AtQueue q) (k.sched.alloc_proc proc) :=
        .modify fun hat => absurd hat.1 hnew
      have hne : k.current ≠ proc := fun heq => hnew (heq ▸ h.sched.runs.current)
      exact ⟨hkeeps, iff_of_eq (congrArg (· = _) (update_of_ne hne _ _))⟩

theorem Inv.fork_finish_frame {copied : Bool} (hexec : do_fork.finish k copied = some (r, k')) :
    Frame q k k' := by
  obtain ⟨c, hfork, hexec⟩ := bind_eq_some_iff.mp hexec
  have hnew := (h.forks.fresh _ c hfork).1
  cases copied with
  | true =>
    obtain ⟨⟨pid, f⟩, -, hexec⟩ := bind_eq_some_iff.mp hexec
    obtain ⟨s, hwakeup, hexec⟩ := bind_eq_some_iff.mp hexec
    cases hexec
    exact ⟨.wakeup_proc hwakeup fun hat => absurd hat.1 hnew, .rfl⟩
  | false =>
    cases hexec
    exact ⟨.refl _, .rfl⟩

theorem Inv.do_exit_frame {error_code : ℤ} (hchild : NoChildWait (k.AtQueue q) k.sched)
    (hcurrent : ¬k.AtQueue q k.current) (hexec : k.do_exit error_code = some k') :
    Frame q k k' := by
  obtain ⟨hkeeps, hpoint⟩ := hchild.do_exit hexec hcurrent
  exact .of_leave hkeeps h.sched.runs.current hcurrent fun hat => by cases hpoint.symm.trans hat

theorem Inv.round_frame {pid : ℤ} {store : Bool} (hcurrent : ¬k.AtQueue q k.current)
    (hexec : do_wait.round k pid store = some (r, k')) : Frame q k k' := by
  obtain ⟨hkeeps, hpoint⟩ := round_keeps hexec hcurrent
  exact .of_leave hkeeps h.sched.runs.current hcurrent hpoint

theorem Inv.do_sleep_frame {time : ℕ} (hfree : k.Free) (hexec : k.do_sleep time = some (r, k')) :
    Frame q k k' := by
  unfold Kernel.do_sleep at hexec
  split at hexec
  · cases hexec
    exact .refl k
  · obtain ⟨s, hadd, hexec⟩ := bind_eq_some_iff.mp hexec
    obtain ⟨_, -, hadd⟩ := bind_eq_some_iff.mp hadd
    obtain ⟨_, -, hadd⟩ := bind_eq_some_iff.mp hadd
    cases hadd
    cases hexec
    have hkeeps : k.sched.Keeps q (k.AtQueue q) (k.sched.modify k.current fun x =>
        { x with state := .SLEEPING, wait_state := WT_TIMER }) :=
      .modify fun hat => absurd hat hfree.not_atQueue
    exact .of_leave ⟨hkeeps.queue, hkeeps.procs⟩ h.sched.runs.current hfree.not_atQueue
      (setPoint_ne (by simp))

theorem Inv.resume_frame (hchild : NoChildWait (k.AtQueue q) k.sched)
    (ha : k.point k.current ≠ .queue q) (hexec : k.resume = some (r, k')) : Frame q k k' := by
  have hcurrent : ¬k.AtQueue q k.current := fun hat => ha hat.2
  have halive := h.sched.runs.current
  unfold Kernel.resume at hexec
  split at hexec
  · split at hexec
    · obtain ⟨k1, hexit, hexec⟩ := bind_eq_some_iff.mp hexec
      cases hexec
      exact h.do_exit_frame hchild hcurrent hexit
    · exact h.round_frame hcurrent hexec
  · cases hexec
    exact .of_leave ⟨rfl, fun _ _ => ⟨rfl, rfl⟩⟩ halive hcurrent (setPoint_ne (by simp))
  · rename_i queue hplace
    obtain ⟨s, hdel, hexec⟩ := bind_eq_some_iff.mp hexec
    cases hexec
    have hne : queue ≠ q := fun heq => ha (heq ▸ hplace)
    exact .of_leave (.wait_current_del hdel hne) halive hcurrent (setPoint_ne (by simp))
  · cases hexec
  · cases hexec

end

theorem do_kill_frame {pid : ℤ}
    (hwait : ∀ p, k.AtQueue q p → (k.proc p).wait_state &&& WT_INTERRUPTED = 0)
    (hexec : k.do_kill pid = some (r, k')) : Frame q k k' := by
  unfold Kernel.do_kill at hexec
  split at hexec
  · rename_i proc _
    split at hexec
    · have hkeeps : k.sched.Keeps q (k.AtQueue q)
          (k.sched.modify proc fun x => { x with flags := x.flags ||| PF_EXITING }) :=
        .modify fun _ => ⟨rfl, rfl⟩
      split at hexec
      · rename_i hinterrupted
        obtain ⟨s, hwakeup, hexec⟩ := bind_eq_some_iff.mp hexec
        cases hexec
        exact ⟨hkeeps.trans (.wakeup_proc hwakeup fun hat => absurd (hwait proc hat) hinterrupted),
          .rfl⟩
      · cases hexec
        exact ⟨hkeeps, .rfl⟩
    · cases hexec
      exact .refl k
  · cases hexec
    exact .refl k

/-- A step that does not use the wait queue leaves it as it is, and the processes that wait in
it without being interruptible. -/
theorem Inv.keeps (h : k.Inv kids) (hstep : Step a r k k') (ha : ¬k.Uses q a)
    (hwait : ∀ p, k.AtQueue q p → (k.proc p).wait_state &&& WT_INTERRUPTED = 0) :
    Frame q k k' := by
  obtain ⟨hallowed, hexec⟩ := hstep
  have hchild := NoChildWait.of_uninterrupted hwait
  -- nobody in the queue `q` is in another queue
  have hother : ∀ queue ≠ q, ∀ p ∈ k.sched.wait_queues queue, ¬k.AtQueue q p :=
    fun queue hne p hp hat =>
      hne (Point.queue.inj ((h.sched.waiters.queue queue p hp).2.symm.trans hat.2))
  cases a with
  | do_fork alloc => exact h.do_fork_frame hallowed hexec
  | fork_finish copied => exact h.fork_finish_frame hexec
  | do_exit error_code =>
    obtain ⟨k1, hexit, heq⟩ := map_eq_some_iff.mp hexec
    cases heq
    exact h.do_exit_frame hchild hallowed.1.not_atQueue hexit
  | do_wait pid store checked =>
    simp only [exec, Kernel.do_wait] at hexec
    split at hexec
    · cases hexec
      exact .refl k
    · exact h.round_frame hallowed.1.not_atQueue hexec
  | do_kill pid => exact do_kill_frame hwait hexec
  | do_yield =>
    cases hexec
    have hkeeps : k.sched.Keeps q (k.AtQueue q)
        (k.sched.modify k.current fun x => { x with need_resched := true }) :=
      .modify fun _ => ⟨rfl, rfl⟩
    exact ⟨hkeeps, .rfl⟩
  | do_sleep time => exact h.do_sleep_frame hallowed.1 hexec
  | wait_current_set queue wait_state =>
    cases hexec
    have hkeeps : k.sched.Keeps q (k.AtQueue q) (k.sched.modify k.current fun x =>
        { x with state := .SLEEPING, wait_state }) :=
      .modify fun hat => absurd hat hallowed.1.not_atQueue
    exact .of_leave ⟨update_of_ne (Ne.symm ha) _ _, hkeeps.procs⟩ h.sched.runs.current
      hallowed.1.not_atQueue (setPoint_ne fun heq => ha (Point.queue.inj heq))
  | resume => exact h.resume_frame hchild ha hexec
  | schedule =>
    obtain ⟨s, hschedule, heq⟩ := map_eq_some_iff.mp hexec
    cases heq
    exact ⟨.schedule hschedule, .rfl⟩
  | run_timer_list =>
    obtain ⟨s, htick, heq⟩ := map_eq_some_iff.mp hexec
    cases heq
    refine ⟨.run_timer_list htick fun t ht hat => ?_, .rfl⟩
    cases hat.2.symm.trans (h.sched.waiters.timer t ht).2.2
  | wakeup_first queue del =>
    obtain ⟨s, hwakeup, heq⟩ := map_eq_some_iff.mp hexec
    cases heq
    exact ⟨.wakeup_first hwakeup ha (hother queue ha), .rfl⟩
  | wakeup_queue queue del =>
    obtain ⟨s, hwakeup, heq⟩ := map_eq_some_iff.mp hexec
    cases heq
    exact ⟨.wakeup_queue hwakeup ha (hother queue ha), .rfl⟩

end Kernel

end ucore
