import Mips32S.Kernel.Process.RunQueue

open Function List
open Finset (mem_erase mem_insert mem_insert_of_mem)

namespace ucore.Sched

variable {alive : Finset ℕ} {point point' : ℕ → Point} {due due' del : Bool} {s s' : Sched}
  {proc : ℕ}

/-- The current process has neither a timer nor a place in a wait queue. -/
structure Unlisted (s : Sched) : Prop where
  timer : ∀ t ∈ s.timers, t.2 ≠ s.current
  queue : ∀ q, s.current ∉ s.wait_queues q

theorem Waiters.unlisted (h : s.Waiters alive point) (hsleep : point s.current ≠ .sleep)
    (hqueue : ∀ q, point s.current ≠ .queue q) : s.Unlisted where
  timer t ht heq := hsleep (heq ▸ (h.timer t ht).2.2)
  queue q hmem := hqueue q (h.queue q _ hmem).2

theorem Inv.setCurrent {g : proc_struct → proc_struct} {place : Point} (h : s.Inv alive point due)
    (hunlisted : s.Unlisted) (hidle : s.current ≠ s.idleproc)
    (hsettled : Settled (g (s.procs s.current)) place)
    (hrunning : due' = false → (g (s.procs s.current)).state = .RUNNABLE) :
    (s.modify s.current g).Inv alive (update point s.current place) due' := by
  have hqueue : s.current ∉ s.run_list := fun hmem => ((h.runs.mem _).mp hmem).2.2.1 rfl
  refine ⟨h.runs.update hqueue hidle fun _ => rfl, ⟨fun t ht => ?_, h.waiters.timer_nodup,
    fun q p hp => ?_, h.waiters.queue_nodup⟩, fun p hp => ?_, ?_, fun hdue => ?_⟩
  · rw [update_of_ne (hunlisted.timer t ht)]
    exact h.waiters.timer t ht
  · have hne : p ≠ s.current := fun heq => hunlisted.queue q (heq ▸ hp)
    rw [update_of_ne hne]
    exact h.waiters.queue q p hp
  · rcases eq_or_ne p s.current with rfl | hne
    · rwa [update_self, modify_self]
    · rw [update_of_ne hne, modify_of_ne g hne]
      exact h.settled p hp
  · exact (update_of_ne hidle.symm _ _).trans h.idle_point
  · exact (congrArg _ (modify_self g)).trans (hrunning hdue)

theorem Inv.setFree (h : s.Inv alive point false) (hunlisted : s.Unlisted)
    (hidle : s.current ≠ s.idleproc) :
    s.Inv alive (update point s.current .free) false := by
  have hrun := h.running rfl
  have hwait := ((settled_runnable hrun).mp (h.settled _ h.runs.current)).1
  have hset : (s.modify s.current id).Inv alive (update point s.current .free) false :=
    h.setCurrent hunlisted hidle ((settled_runnable hrun).mpr ⟨hwait, nofun⟩) fun _ => hrun
  have hid : s.modify s.current id = s := by simp [modify]
  rwa [hid] at hset

theorem Inv.outside {procs : ℕ → proc_struct} (h : s.Inv alive point due)
    (hprocs : ∀ p ∈ alive, procs p = s.procs p) (hpoint : ∀ p ∈ alive, point' p = point p) :
    Inv alive point' due { s with procs } := by
  refine ⟨⟨h.runs.current, h.runs.nodup, fun p => ?_, fun p hp => ?_, h.runs.number, h.runs.idle,
    ?_⟩, ⟨fun t ht => ?_, h.waiters.timer_nodup, fun q p hp => ?_, h.waiters.queue_nodup⟩,
    fun p hp => ?_, ?_, fun hdue => ?_⟩
  · rw [h.runs.mem p]
    refine and_congr_right fun hp => ?_
    dsimp only
    rw [hprocs p hp]
  · dsimp only
    rw [hprocs p ((h.runs.mem p).mp hp).1]
    exact h.runs.rq p hp
  · dsimp only
    rw [hprocs _ h.runs.idle]
    exact h.runs.idle_state
  · obtain ⟨haddr, halive, hsleep⟩ := h.waiters.timer t ht
    exact ⟨haddr, halive, (hpoint _ halive).trans hsleep⟩
  · obtain ⟨halive, hqueue⟩ := h.waiters.queue q p hp
    exact ⟨halive, (hpoint p halive).trans hqueue⟩
  · dsimp only
    rw [hprocs p hp, hpoint p hp]
    exact h.settled p hp
  · exact (hpoint _ h.runs.idle).trans h.idle_point
  · dsimp only
    rw [hprocs _ h.runs.current]
    exact h.running hdue

theorem Inv.insert (h : s.Inv alive point due) (hproc : proc ∉ alive)
    (hstate : (s.procs proc).state = .UNINIT) (hwait : (s.procs proc).wait_state = 0)
    (hplace : point proc = .free) : s.Inv (Insert.insert proc alive) point due where
  runs :=
    { h.runs with
      current := mem_insert_of_mem h.runs.current
      mem p := by
        rw [h.runs.mem p, mem_insert]
        refine ⟨fun hand => ⟨.inr hand.1, hand.2⟩, ?_⟩
        rintro ⟨rfl | hp, hand⟩
        · cases hstate.symm.trans hand.1
        · exact ⟨hp, hand⟩
      idle := mem_insert_of_mem h.runs.idle }
  waiters :=
    { h.waiters with
      timer t ht :=
        ⟨(h.waiters.timer t ht).1, mem_insert_of_mem (h.waiters.timer t ht).2.1,
          (h.waiters.timer t ht).2.2⟩
      queue q p hp := ⟨mem_insert_of_mem (h.waiters.queue q p hp).1, (h.waiters.queue q p hp).2⟩ }
  settled p hp := by
    rcases mem_insert.mp hp with rfl | hp'
    · simp only [Settled, hstate]
      exact ⟨hwait, hplace⟩
    · exact h.settled p hp'
  idle_point := h.idle_point
  running := h.running

theorem Inv.erase (h : s.Inv alive point false) (hproc : proc ∈ alive)
    (hstate : (s.procs proc).state = .ZOMBIE) : s.Inv (alive.erase proc) point false := by
  have hne : ∀ {p}, (s.procs p).state = .RUNNABLE → p ≠ proc := by
    rintro p hp rfl
    cases hp.symm.trans hstate
  have hexit : point proc = .exit := ((settled_zombie hstate).mp (h.settled proc hproc)).2
  refine ⟨{ h.runs with current := ?_, mem := fun p => ?_, idle := ?_ },
    { h.waiters with timer := fun t ht => ?_, queue := fun q p hp => ?_ }, fun p hp => ?_,
    h.idle_point, h.running⟩
  · exact mem_erase.mpr ⟨hne (h.running rfl), h.runs.current⟩
  · rw [h.runs.mem p, mem_erase]
    exact ⟨fun hand => ⟨⟨hne hand.2.1, hand.1⟩, hand.2⟩, fun hand => ⟨hand.1.2, hand.2⟩⟩
  · exact mem_erase.mpr ⟨hne h.runs.idle_state, h.runs.idle⟩
  · obtain ⟨haddr, halive, hsleep⟩ := h.waiters.timer t ht
    refine ⟨haddr, mem_erase.mpr ⟨?_, halive⟩, hsleep⟩
    rintro rfl
    cases hexit.symm.trans hsleep
  · obtain ⟨halive, hqueue⟩ := h.waiters.queue q p hp
    refine ⟨mem_erase.mpr ⟨?_, halive⟩, hqueue⟩
    rintro rfl
    cases hexit.symm.trans hqueue
  · exact h.settled p (Finset.mem_of_mem_erase hp)

section
variable {t : timer} {l timer_list : List timer}

theorem Inv.relist {wait_queues : ℕ → List ℕ} (h : s.Inv alive point due)
    (hwaiters : Waiters alive point { s with timer_list, wait_queues }) :
    Inv alive point due { s with timer_list, wait_queues } where
  runs := ⟨h.runs.current, h.runs.nodup, h.runs.mem, h.runs.rq, h.runs.number, h.runs.idle,
    h.runs.idle_state⟩
  waiters := hwaiters
  settled := h.settled
  idle_point := h.idle_point
  running := h.running

theorem insert_perm : ((add_timer.insert t l).map fun t => (t.addr, t.proc)).Perm
    ((t.addr, t.proc) :: l.map fun t => (t.addr, t.proc)) := by
  induction l generalizing t with
  | nil => exact .refl _
  | cons next rest ih =>
    unfold add_timer.insert
    split
    · exact .refl _
    · exact (ih.cons (next.addr, next.proc)).trans (.swap _ _ _)

theorem remove_eq (addr : ℕ) : ((del_timer.remove addr l).map fun t => (t.addr, t.proc)) =
    (l.map fun t => (t.addr, t.proc)).eraseP (·.1 = addr) := by
  induction l with
  | nil => rfl
  | cons t rest ih =>
    unfold del_timer.remove
    rw [map_cons, eraseP_cons]
    by_cases haddr : t.addr = addr
    · simp only [haddr, if_true, decide_true, cond_true]
      cases rest <;> rfl
    · simp only [haddr, if_false, decide_false, cond_false, map_cons, ih]

theorem Ticking.insert (h : s.Ticking) (ht : 0 < t.expires) :
    Ticking { s with timer_list := add_timer.insert t s.timer_list } := by
  unfold Ticking at h ⊢
  cases hl : s.timer_list with
  | nil => simpa [add_timer.insert] using ht
  | cons next rest =>
    unfold add_timer.insert
    split
    · simpa using ht
    · simpa [hl] using h

theorem Inv.add_timer (h : s.Inv alive point due) (ht : 0 < t.expires) (haddr : t.addr = t.proc)
    (hproc : t.proc ∈ alive) (hplace : point t.proc = .sleep)
    (hnew : ∀ t' ∈ s.timers, t'.2 ≠ t.proc) (htick : s.Ticking) :
    ∃ l, s.add_timer t = some { s with timer_list := l } ∧
      Inv alive point due { s with timer_list := l } ∧ Ticking { s with timer_list := l } := by
  have hnot : t.addr ∉ s.timers.map (·.1) := by
    intro hmem
    obtain ⟨t', ht', heq⟩ := mem_map.mp hmem
    exact hnew t' ht' ((h.waiters.timer t' ht').1.symm.trans (heq.trans haddr))
  have hguard : t.addr ∉ s.timer_list.map (·.addr) := by
    simpa [timers, comp_def] using hnot
  have heq : s.add_timer t = some { s with timer_list := add_timer.insert t s.timer_list } := by
    simp only [Sched.add_timer, guard, if_pos ht, if_pos hguard]
    rfl
  refine ⟨add_timer.insert t s.timer_list, heq,
    h.relist ⟨fun t' ht' => ?_, ?_, h.waiters.queue, h.waiters.queue_nodup⟩, ?_⟩
  · rcases mem_cons.mp (insert_perm.mem_iff.mp ht') with rfl | ht'
    · exact ⟨haddr, hproc, hplace⟩
    · exact h.waiters.timer t' ht'
  · exact (insert_perm.map (·.1)).nodup_iff.mpr (nodup_cons.mpr ⟨hnot, h.waiters.timer_nodup⟩)
  · exact htick.insert ht

theorem Inv.del_timer (h : s.Inv alive point due) (addr : ℕ) :
    (s.del_timer addr).Inv alive point due := by
  have hprocs : (s.del_timer addr).timers = s.timers.eraseP (·.1 = addr) := remove_eq addr
  refine h.relist ⟨fun t ht => ?_, ?_, h.waiters.queue, h.waiters.queue_nodup⟩
  · replace ht : t ∈ (s.del_timer addr).timers := ht
    rw [hprocs] at ht
    exact h.waiters.timer t (mem_of_mem_eraseP ht)
  · change ((s.del_timer addr).timers.map (·.1)).Nodup
    rw [hprocs]
    exact h.waiters.timer_nodup.sublist ((eraseP_sublist).map _)

theorem not_mem_del_timer (h : s.Waiters alive point) (addr : ℕ) :
    ∀ t ∈ (s.del_timer addr).timers, t.1 ≠ addr := by
  have hprocs : (s.del_timer addr).timers = s.timers.eraseP (·.1 = addr) := remove_eq addr
  have hnodup := h.timer_nodup
  rw [hprocs]
  generalize s.timers = l at hnodup
  induction l with
  | nil => exact nofun
  | cons t rest ih =>
    rw [map_cons, nodup_cons] at hnodup
    intro t' ht' heq
    rw [eraseP_cons] at ht'
    by_cases hfirst : t.1 = addr
    · rw [decide_eq_true hfirst] at ht'
      exact hnodup.1 (mem_map.mpr ⟨t', ht', heq.trans hfirst.symm⟩)
    · rw [decide_eq_false hfirst] at ht'
      rcases mem_cons.mp ht' with rfl | ht'
      · exact hfirst heq
      · exact ih hnodup.2 t' ht' heq

theorem Ticking.del_timer (h : s.Ticking) (addr : ℕ) : (s.del_timer addr).Ticking := by
  unfold Ticking at h ⊢
  simp only [Sched.del_timer]
  cases hl : s.timer_list with
  | nil => exact nofun
  | cons t rest =>
    rw [hl] at h
    have ht : 0 < t.expires := h t rfl
    unfold del_timer.remove
    split
    · cases rest with
      | nil => exact nofun
      | cons next rest =>
        intro t' ht'
        cases ht'
        exact Nat.add_pos_right _ ht
    · exact h

section
variable (h : s.Inv alive point due)
include h

/-- A process with a timer has not exited, and if it sleeps it may be interrupted. -/
theorem Inv.sleeper (hproc : proc ∈ alive) (hplace : point proc = .sleep) :
    (s.procs proc).state ≠ .ZOMBIE ∧
      ((s.procs proc).wait_state ≠ 0 → (s.procs proc).wait_state &&& WT_INTERRUPTED ≠ 0) := by
  have hsettled := h.settled proc hproc
  unfold Settled at hsettled
  rw [hplace] at hsettled
  cases hstate : (s.procs proc).state with
  | UNINIT => simp [hstate] at hsettled
  | SLEEPING =>
    simp only [hstate] at hsettled
    exact ⟨nofun, fun _ => by rw [hsettled]; decide⟩
  | RUNNABLE =>
    simp only [hstate] at hsettled
    exact ⟨nofun, fun hne => absurd hsettled.1 hne⟩
  | ZOMBIE => simp [hstate] at hsettled

theorem Inv.expire (hl : s.timer_list = l) :
    ∃ s', run_timer_list.expire l s = some s' ∧ s'.Inv alive point due ∧ s'.Ticking ∧
      Wakes (fun p => point p = .sleep) s s' ∧ s.Appends s' := by
  induction l generalizing s with
  | nil => exact ⟨s, rfl, h, by simp [Ticking, hl], .refl s, .refl s⟩
  | cons t rest ih =>
    unfold run_timer_list.expire
    split
    · rename_i hexpired
      have hmem : (t.addr, t.proc) ∈ s.timers := by simp [timers, hl]
      obtain ⟨-, halive, hplace⟩ := h.waiters.timer _ hmem
      obtain ⟨hzombie, hinterrupted⟩ := h.sleeper halive hplace
      obtain ⟨s1, heq, hinv, hwakes, happends, -, htimers, -⟩ := h.wakeup_proc halive hzombie
      have hrest : (s1.del_timer t.addr).timer_list = rest := by
        simp only [Sched.del_timer, htimers, hl, del_timer.remove, if_true, hexpired, Nat.add_zero]
        cases rest <;> rfl
      obtain ⟨s', hexpire, hinv', htick, hwakes', happends'⟩ := ih (hinv.del_timer t.addr) hrest
      refine ⟨s', ?_, hinv', htick, (hwakes.mono ?_).relist.trans hwakes', happends.trans happends'⟩
      · simp only [guard, if_pos hinterrupted, heq, Option.pure_def, Option.bind_eq_bind,
          Option.bind_some, hexpire]
      · rintro p rfl
        exact hplace
    · rename_i hpos
      exact ⟨s, rfl, h, by simpa [Ticking, hl] using Nat.pos_of_ne_zero hpos, .refl s, .refl s⟩

theorem Inv.tick (proc : ℕ) :
    (s.sched_class_proc_tick proc).Inv alive point due ∧
      Wakes (fun p => point p = .sleep) s (s.sched_class_proc_tick proc) := by
  unfold sched_class_proc_tick RR_proc_tick
  split
  · exact ⟨h.touch (fun _ => rfl) (fun _ => rfl) fun _ => rfl,
      .touch (fun _ => rfl) (fun _ => rfl) fun _ => rfl⟩
  · exact ⟨h.touch (fun _ => rfl) (fun _ => rfl) fun _ => rfl,
      .touch (fun _ => rfl) (fun _ => rfl) fun _ => rfl⟩

end

theorem tick_lists (s : Sched) (proc : ℕ) :
    (s.sched_class_proc_tick proc).timer_list = s.timer_list ∧
      s.Appends (s.sched_class_proc_tick proc) := by
  unfold sched_class_proc_tick
  split <;> exact ⟨rfl, rfl, prefix_rfl⟩

theorem Inv.run_timer_list (h : s.Inv alive point due) (htick : s.Ticking) :
    ∃ s', s.run_timer_list = some s' ∧ s'.Inv alive point due ∧ s'.Ticking ∧
      Wakes (fun p => point p = .sleep) s s' ∧ s.Appends s' := by
  have hend : ∀ {s1 : Sched}, s1.Inv alive point due → s1.Ticking →
      Wakes (fun p => point p = .sleep) s s1 → s.Appends s1 →
      (s1.sched_class_proc_tick s1.current).Inv alive point due ∧
        (s1.sched_class_proc_tick s1.current).Ticking ∧
        Wakes (fun p => point p = .sleep) s (s1.sched_class_proc_tick s1.current) ∧
        s.Appends (s1.sched_class_proc_tick s1.current) := by
    intro s1 hinv htick' hwakes happends
    obtain ⟨htimers, happends'⟩ := tick_lists s1 s1.current
    obtain ⟨hinv', hwakes'⟩ := hinv.tick s1.current
    refine ⟨hinv', ?_, hwakes.trans hwakes', happends.trans happends'⟩
    unfold Ticking
    rwa [htimers]
  unfold Sched.run_timer_list
  cases hl : s.timer_list with
  | nil => exact ⟨_, rfl, hend h htick (.refl s) (.refl s)⟩
  | cons t rest =>
    have ht : t.expires ≠ 0 := Nat.pos_iff_ne_zero.mp (htick t (by rw [hl]; rfl))
    have hinv : Inv alive point due
        { s with timer_list := { t with expires := t.expires - 1 } :: rest } :=
      h.relist (h.waiters.congr (by simp [Sched.timers, hl]) rfl)
    obtain ⟨s1, hexpire, hinv1, htick', hwakes, happends⟩ := hinv.expire rfl
    have hwakes' : Wakes (fun p => point p = .sleep) s s1 := (Wakes.refl s).relist.trans hwakes
    refine ⟨_, ?_, hend hinv1 htick' hwakes' happends⟩
    simp only [guard, if_pos ht, hexpire, Option.pure_def, Option.bind_eq_bind, Option.bind_some]

end

variable {queue : ℕ} {wait_state : BitVec 32}
variable (h : s.Inv alive point due)
include h

theorem Inv.wait_current_set (hunlisted : s.Unlisted) (hidle : s.current ≠ s.idleproc)
    (hwait : wait_state = WT_KBD ∨ wait_state = WT_KSEM) :
    (s.wait_current_set queue wait_state).Inv alive
      (update point s.current (.queue queue)) true := by
  have hset : (s.modify s.current fun x => { x with state := .SLEEPING, wait_state }).Inv alive
      (update point s.current (.queue queue)) true :=
    h.setCurrent hunlisted hidle (by simpa [Settled] using hwait) nofun
  refine hset.relist ⟨hset.waiters.timer, hset.waiters.timer_nodup, fun q p hp => ?_, fun q => ?_⟩
  · dsimp only at hp
    rcases eq_or_ne q queue with rfl | hq
    · rw [update_self, mem_append, mem_singleton] at hp
      rcases hp with hp | rfl
      · exact hset.waiters.queue q p hp
      · exact ⟨h.runs.current, update_self _ _ _⟩
    · rw [update_of_ne hq] at hp
      exact hset.waiters.queue q p hp
  · dsimp only
    rcases eq_or_ne q queue with rfl | hq
    · rw [update_self]
      exact (h.waiters.queue_nodup q).append (nodup_singleton _)
        (disjoint_singleton.mpr (hunlisted.queue q))
    · rw [update_of_ne hq]
      exact h.waiters.queue_nodup q

theorem Inv.wait_queue_del (hmem : proc ∈ s.wait_queues queue) :
    ∃ wait_queues, s.wait_queue_del queue proc = some { s with wait_queues } ∧
      Inv alive point due { s with wait_queues } ∧
      wait_queues queue = (s.wait_queues queue).erase proc := by
  refine ⟨update s.wait_queues queue ((s.wait_queues queue).erase proc),
    by simp [Sched.wait_queue_del, hmem], h.relist ⟨h.waiters.timer, h.waiters.timer_nodup,
    fun q p hp => ?_, fun q => ?_⟩, update_self _ _ _⟩
  · dsimp only at hp
    rcases eq_or_ne q queue with rfl | hq
    · rw [update_self] at hp
      exact h.waiters.queue q p (mem_of_mem_erase hp)
    · rw [update_of_ne hq] at hp
      exact h.waiters.queue q p hp
  · dsimp only
    rcases eq_or_ne q queue with rfl | hq
    · rw [update_self]
      exact (h.waiters.queue_nodup q).erase proc
    · rw [update_of_ne hq]
      exact h.waiters.queue_nodup q

theorem Inv.wait_current_del (queue : ℕ) :
    ∃ wait_queues, s.wait_current_del queue = some { s with wait_queues } ∧
      Inv alive point due { s with wait_queues } ∧ s.current ∉ wait_queues queue := by
  unfold Sched.wait_current_del
  by_cases hmem : s.current ∈ s.wait_queues queue
  · rw [if_pos hmem]
    obtain ⟨wait_queues, heq, hinv, herase⟩ := h.wait_queue_del hmem
    refine ⟨wait_queues, heq, hinv, ?_⟩
    rw [herase, (h.waiters.queue_nodup queue).mem_erase_iff]
    exact fun hand => hand.1 rfl
  · rw [if_neg hmem]
    exact ⟨s.wait_queues, rfl, h, hmem⟩

theorem Inv.wakeup_wait
    (hmem : if del then proc ∈ s.wait_queues queue else proc ∈ alive ∧ point proc = .queue queue) :
    ∃ s', s.wakeup_wait queue proc del = some s' ∧ s'.Inv alive point due ∧
      Wakes (fun p => point p = .queue queue) s s' ∧ s.Appends s' ∧
      s'.timer_list = s.timer_list ∧
      (del → s'.wait_queues queue = (s.wait_queues queue).erase proc) := by
  have hplace : proc ∈ alive ∧ point proc = .queue queue := by
    split at hmem
    · exact h.waiters.queue queue proc hmem
    · exact hmem
  have hzombie : ∀ {s1 : Sched}, s1.Inv alive point due → (s1.procs proc).state ≠ .ZOMBIE := by
    intro s1 hinv hstate
    have hexit := ((settled_zombie hstate).mp (hinv.settled proc hplace.1)).2
    cases hexit.symm.trans hplace.2
  have hmono : ∀ p, p = proc → point p = .queue queue := by
    rintro p rfl
    exact hplace.2
  cases del with
  | false =>
    obtain ⟨s', heq, hinv, hwakes, happends, -, htimers, -⟩ := h.wakeup_proc hplace.1 (hzombie h)
    exact ⟨s', by simpa [Sched.wakeup_wait] using heq, hinv, hwakes.mono hmono, happends, htimers,
      nofun⟩
  | true =>
    obtain ⟨wait_queues, hdel, hinv1, herase⟩ := h.wait_queue_del hmem
    obtain ⟨s', heq, hinv, hwakes, happends, -, htimers, hqueues⟩ :=
      hinv1.wakeup_proc hplace.1 (hzombie hinv1)
    refine ⟨s', by simpa [Sched.wakeup_wait, hdel] using heq, hinv,
      (Wakes.refl s).relist.trans (hwakes.mono hmono), happends, htimers, fun _ => ?_⟩
    rwa [hqueues]

theorem Inv.wakeup_first (queue : ℕ) (del : Bool) :
    ∃ s', s.wakeup_first queue del = some s' ∧ s'.Inv alive point due ∧
      Wakes (fun p => point p = .queue queue) s s' ∧ s.Appends s' ∧
      s'.timer_list = s.timer_list := by
  unfold Sched.wakeup_first
  cases hqueue : s.wait_queues queue with
  | nil => exact ⟨s, rfl, h, .refl s, .refl s, rfl⟩
  | cons proc rest =>
    have hmem : proc ∈ s.wait_queues queue := hqueue ▸ mem_cons_self
    have hcond : if del then proc ∈ s.wait_queues queue
        else proc ∈ alive ∧ point proc = .queue queue := by
      split
      · exact hmem
      · exact h.waiters.queue queue proc hmem
    obtain ⟨s', heq, hinv, hwakes, happends, htimers, -⟩ := h.wakeup_wait hcond
    exact ⟨s', heq, hinv, hwakes, happends, htimers⟩

theorem Inv.wakeup_queue (queue : ℕ) (del : Bool) :
    ∃ s', s.wakeup_queue queue del = some s' ∧ s'.Inv alive point due ∧
      Wakes (fun p => point p = .queue queue) s s' ∧ s.Appends s' ∧
      s'.timer_list = s.timer_list := by
  -- when the processes leave the queue, the rest of the loop is what is left in the queue
  have hloop : ∀ (l : List ℕ) {s1 : Sched}, s1.Inv alive point due →
      (∀ p ∈ l, p ∈ alive ∧ point p = .queue queue) → (del → s1.wait_queues queue = l) →
      ∃ s', l.foldlM (fun s proc => s.wakeup_wait queue proc del) s1 = some s' ∧
        s'.Inv alive point due ∧ Wakes (fun p => point p = .queue queue) s1 s' ∧ s1.Appends s' ∧
        s'.timer_list = s1.timer_list := by
    intro l
    induction l with
    | nil => exact fun {s1} hinv _ _ => ⟨s1, rfl, hinv, .refl s1, .refl s1, rfl⟩
    | cons proc rest ih =>
      intro s1 hinv hall hqueue
      have hcond : if del then proc ∈ s1.wait_queues queue
          else proc ∈ alive ∧ point proc = .queue queue := by
        split
        · rename_i hdel
          rw [hqueue hdel]
          exact mem_cons_self
        · exact hall proc mem_cons_self
      obtain ⟨s2, heq, hinv2, hwakes, happends, htimers, herase⟩ := hinv.wakeup_wait hcond
      have hqueue2 : del → s2.wait_queues queue = rest := by
        intro hdel
        rw [herase hdel, hqueue hdel, erase_cons_head]
      obtain ⟨s', heq', hinv', hwakes', happends', htimers'⟩ :=
        ih hinv2 (fun p hp => hall p (mem_cons_of_mem proc hp)) hqueue2
      refine ⟨s', ?_, hinv', hwakes.trans hwakes', happends.trans happends', htimers'.trans htimers⟩
      rwa [foldlM_cons, heq]
  exact hloop _ h (h.waiters.queue queue) fun _ => rfl

end ucore.Sched
