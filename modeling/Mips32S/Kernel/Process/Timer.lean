import Mips32S.Kernel.Process.Sleep

open List

namespace ucore

namespace Sched

variable {s s' : Sched} {t : timer} {l : List timer} {addr a p : ℕ}

/-- The number of ticks until the timer goes off. -/
def left (addr : ℕ) : List timer → Option ℕ
  | [] => none
  | t :: rest => if t.addr = addr then some t.expires else (left addr rest).map (t.expires + ·)

theorem left_eq_none_iff : left addr l = none ↔ addr ∉ l.map (·.addr) := by
  induction l with
  | nil => simp [left]
  | cons t rest ih =>
    by_cases haddr : t.addr = addr
    · simp [left, haddr]
    · simp [left, haddr, Ne.symm haddr, ih]

theorem left_shift (addr d : ℕ) (t : timer) (l : List timer) :
    left addr ({ t with expires := t.expires + d } :: l) =
    (left addr (t :: l)).map (d + ·) := by
  unfold left
  split
  · simp [Nat.add_comm]
  · simp [Function.comp_def, Nat.add_comm, Nat.add_left_comm]

theorem left_insert_self (hnew : t.addr ∉ l.map (·.addr)) :
    left t.addr (add_timer.insert t l) = some t.expires := by
  induction l generalizing t with
  | nil => simp [add_timer.insert, left]
  | cons next rest ih =>
    rw [map_cons, mem_cons, not_or] at hnew
    unfold add_timer.insert
    split
    · simp [left]
    · rename_i hlater
      have hrest := ih (t := { t with expires := t.expires - next.expires }) hnew.2
      rw [left, if_neg (Ne.symm hnew.1), hrest, Option.map_some]
      congr 1
      dsimp only
      omega

theorem left_insert_of_ne (ha : a ≠ t.addr) : left a (add_timer.insert t l) = left a l := by
  induction l generalizing t with
  | nil => simp [add_timer.insert, left, ha.symm]
  | cons next rest ih =>
    unfold add_timer.insert
    split
    · rename_i hsooner
      have hshift := left_shift a t.expires { next with expires := next.expires - t.expires } rest
      simp only [Nat.sub_add_cancel hsooner.le] at hshift
      rw [left, if_neg ha.symm, hshift]
    · rw [left, left, ih (t := { t with expires := t.expires - next.expires }) ha]

theorem left_remove_of_ne (ha : a ≠ addr) : left a (del_timer.remove addr l) = left a l := by
  induction l with
  | nil => rfl
  | cons t rest ih =>
    unfold del_timer.remove
    split
    · rename_i haddr
      rw [left, if_neg fun h => ha (h.symm.trans haddr)]
      cases rest with
      | nil => rfl
      | cons next rest => exact left_shift a t.expires next rest
    · rw [left, left, ih]

/-- The timers that have no ticks left, at the front of the list. -/
def expired (l : List timer) : List timer := l.takeWhile (·.expires = 0)

theorem expire_effect (hl : s.timer_list = l) (h : run_timer_list.expire l s = some s') :
    s'.timer_list = l.dropWhile (·.expires = 0) ∧
    (∀ p, (∃ t ∈ expired l, t.proc = p) ∨ (s.procs p).state = .RUNNABLE →
      (s'.procs p).state = .RUNNABLE) ∧
    ∀ p, (∀ t ∈ expired l, t.proc ≠ p) → s'.procs p = s.procs p := by
  induction l generalizing s with
  | nil =>
    cases h
    simp [hl, expired]
  | cons t rest ih =>
    unfold run_timer_list.expire at h
    split at h
    · rename_i hexpired
      obtain ⟨-, -, h⟩ := Option.bind_eq_some_iff.mp h
      obtain ⟨s1, hwakeup, h⟩ := Option.bind_eq_some_iff.mp h
      obtain ⟨hrunnable, hothers, htimers, -, -⟩ := wakeup_proc_effect hwakeup
      have hrest : (s1.del_timer t.addr).timer_list = rest := by
        simp only [Sched.del_timer, htimers, hl, del_timer.remove, if_true, hexpired, Nat.add_zero]
        cases rest <;> rfl
      obtain ⟨hlist, hwoken, hsame⟩ := ih hrest h
      have hcons : expired (t :: rest) = t :: expired rest := by simp [expired, hexpired]
      refine ⟨by simp [hlist, hexpired], fun p hp => ?_, fun p hp => ?_⟩
      · refine hwoken p ?_
        rcases eq_or_ne p t.proc with rfl | hne
        · exact .inr hrunnable
        · rcases hp with ⟨t', ht', hproc⟩ | hstate
          · rw [hcons] at ht'
            rcases mem_cons.mp ht' with rfl | ht''
            · exact absurd hproc.symm hne
            · exact .inl ⟨t', ht'', hproc⟩
          · refine .inr ?_
            change (s1.procs p).state = .RUNNABLE
            rwa [hothers p hne]
      · rw [hcons] at hp
        have hne : p ≠ t.proc := (hp t mem_cons_self).symm
        exact (hsame p fun t' ht' => hp t' (mem_cons_of_mem t ht')).trans (hothers p hne)
    · rename_i hrunning
      cases h
      simp [hl, expired, hrunning]

/-- A timer may wake up the process: it has not exited, may be interrupted if it waits, and is not
in the run queue if it sleeps. -/
structure Wakeable (s : Sched) (p : ℕ) : Prop where
  state : (s.procs p).state ≠ .ZOMBIE
  wait_state : (s.procs p).wait_state ≠ 0 → (s.procs p).wait_state &&& WT_INTERRUPTED ≠ 0
  queue : (s.procs p).state ≠ .RUNNABLE → p ∉ s.run_list

theorem Wakeable.wakeup_proc (h : s.Wakeable p) :
    ∃ s', s.wakeup_proc p = some s' ∧ ∀ q, s.Wakeable q → s'.Wakeable q := by
  have hsome : (s.wakeup_proc p).isSome := by
    by_cases hrun : (s.procs p).state = .RUNNABLE
    · simp [Sched.wakeup_proc, guard, hrun]
    · simp only [Sched.wakeup_proc, sched_class_enqueue, RR_enqueue, modify, guard, h.state, hrun,
        h.queue hrun, ne_eq, not_false_eq_true, if_true, Option.pure_def, Option.bind_eq_bind,
        Option.bind_some, apply_ite Option.isSome, Option.isSome_some, ite_self]
  obtain ⟨s', heq⟩ := Option.isSome_iff_exists.mp hsome
  obtain ⟨hrunnable, hothers, -, hlist, hwait⟩ := wakeup_proc_effect heq
  refine ⟨s', heq, fun q hq => ?_⟩
  rcases eq_or_ne q p with rfl | hne
  · refine ⟨by simp [hrunnable], ?_, fun hnot => absurd hrunnable hnot⟩
    rcases hwait with hzero | rfl
    · exact fun hnot => absurd hzero hnot
    · exact hq.wait_state
  · have hother := hothers q hne
    refine ⟨hother ▸ hq.state, hother ▸ hq.wait_state, fun hnot hmem => ?_⟩
    rw [hother] at hnot
    exact hq.queue hnot (hlist q hne hmem)

theorem expire_isSome (hw : ∀ t ∈ expired l, s.Wakeable t.proc) :
    ∃ s', run_timer_list.expire l s = some s' := by
  induction l generalizing s with
  | nil => exact ⟨s, rfl⟩
  | cons t rest ih =>
    unfold run_timer_list.expire
    split
    · rename_i hexpired
      have hcons : expired (t :: rest) = t :: expired rest := by simp [expired, hexpired]
      rw [hcons] at hw
      have ht := hw t mem_cons_self
      obtain ⟨s1, heq, hkept⟩ := ht.wakeup_proc
      obtain ⟨s', hend⟩ := ih (s := s1.del_timer t.addr) fun u hu => by
        have hu' := hkept _ (hw u (mem_cons_of_mem t hu))
        exact ⟨hu'.state, hu'.wait_state, hu'.queue⟩
      refine ⟨s', ?_⟩
      simp only [guard, if_pos ht.wait_state, heq]
      exact hend
    · exact ⟨s, rfl⟩

theorem left_dropWhile (hnodup : (l.map (·.addr)).Nodup) :
    left a (l.dropWhile (·.expires = 0)) =
      (left a l).bind fun n => if n = 0 then none else some n := by
  induction l with
  | nil => rfl
  | cons t rest ih =>
    obtain ⟨hnot, hrest⟩ := nodup_cons.mp hnodup
    by_cases hexpired : t.expires = 0
    · rw [dropWhile_cons_of_pos (by simpa using hexpired), ih hrest, left]
      split
      · rename_i haddr
        rw [← haddr, left_eq_none_iff.mpr hnot]
        simp [hexpired]
      · simp [hexpired]
    · rw [dropWhile_cons_of_neg (by simpa using hexpired)]
      cases hleft : left a (t :: rest) with
      | none => rfl
      | some n =>
        have hpos : n ≠ 0 := by
          unfold left at hleft
          split at hleft
          · cases hleft
            exact hexpired
          · obtain ⟨m, -, hsum⟩ := Option.map_eq_some_iff.mp hleft
            omega
        simp [hpos]

theorem mem_expired_iff (hnodup : (l.map (·.addr)).Nodup) :
    t ∈ expired l ↔ t ∈ l ∧ left t.addr l = some 0 := by
  induction l with
  | nil => simp [expired]
  | cons u rest ih =>
    obtain ⟨hnot, hrest⟩ := nodup_cons.mp hnodup
    have haddr : ∀ {t}, t ∈ rest → u.addr ≠ t.addr := fun ht heq =>
      hnot (mem_map.mpr ⟨_, ht, heq.symm⟩)
    by_cases hexpired : u.expires = 0
    · have hcons : expired (u :: rest) = u :: expired rest := by simp [expired, hexpired]
      rw [hcons, mem_cons, mem_cons, ih hrest]
      constructor
      · rintro (rfl | ⟨ht, hleft⟩)
        · exact ⟨.inl rfl, by simp [left, hexpired]⟩
        · exact ⟨.inr ht, by simp [left, haddr ht, hexpired, hleft]⟩
      · rintro ⟨rfl | ht, hleft⟩
        · exact .inl rfl
        · exact .inr ⟨ht, by simpa [left, haddr ht, hexpired] using hleft⟩
    · have hnil : expired (u :: rest) = [] := by simp [expired, hexpired]
      rw [hnil]
      refine iff_of_false not_mem_nil ?_
      rintro ⟨ht, hleft⟩
      rcases mem_cons.mp ht with rfl | ht'
      · simp [left, hexpired] at hleft
      · simp [left, haddr ht', hexpired] at hleft

theorem tick_state (s : Sched) (proc p : ℕ) :
    ((s.sched_class_proc_tick proc).procs p).state = (s.procs p).state := by
  unfold sched_class_proc_tick RR_proc_tick modify
  rcases eq_or_ne p proc with rfl | hne
  · split <;> simp
  · split <;> simp [hne]

/-- In the list whose first timer has had a tick more, timers with one tick left have expired. -/
theorem left_first (hpos : 0 < t.expires) (a : ℕ) :
    left a (t :: l) = (left a ({ t with expires := t.expires - 1 } :: l)).map (1 + ·) := by
  have hshift := left_shift a 1 { t with expires := t.expires - 1 } l
  simpa only [Nat.sub_add_cancel hpos] using hshift

variable (hnodup : (s.timer_list.map (·.addr)).Nodup) (htick : s.Ticking)
include hnodup htick

theorem run_timer_list_isSome
    (hw : ∀ t ∈ s.timer_list, left t.addr s.timer_list = some 1 → s.Wakeable t.proc) :
    ∃ s', s.run_timer_list = some s' := by
  unfold Ticking at htick
  unfold Sched.run_timer_list
  cases hl : s.timer_list with
  | nil => exact ⟨_, rfl⟩
  | cons t rest =>
    rw [hl] at htick hnodup hw
    have hpos : 0 < t.expires := htick t rfl
    set first : timer := { t with expires := t.expires - 1 } with hfirst
    have hnodup1 : ((first :: rest).map (·.addr)).Nodup := hnodup
    have hwake : ∀ u ∈ expired (first :: rest), s.Wakeable u.proc := fun u hu => by
      obtain ⟨hmem, hleft⟩ := (mem_expired_iff hnodup1).mp hu
      have hone : left u.addr (t :: rest) = some 1 := by
        rw [left_first hpos, hleft]
        rfl
      rcases mem_cons.mp hmem with rfl | hu'
      · exact hw t mem_cons_self hone
      · exact hw u (mem_cons_of_mem _ hu') hone
    obtain ⟨s1, hexpire⟩ := expire_isSome (s := { s with timer_list := first :: rest })
      fun u hu => ⟨(hwake u hu).state, (hwake u hu).wait_state, (hwake u hu).queue⟩
    refine ⟨s1.sched_class_proc_tick s1.current, ?_⟩
    simp only [guard, if_pos hpos.ne', ← hfirst, hexpire, Option.pure_def, Option.bind_eq_bind,
      Option.bind_some]

/-- What a tick does: every timer has a tick less, and those that had one left go off. -/
theorem run_timer_list_effect (h : s.run_timer_list = some s') :
    (∀ a, left a s'.timer_list =
      (left a s.timer_list).bind fun n => if n = 1 then none else some (n - 1)) ∧
    s'.timers.Sublist s.timers ∧ s'.Ticking ∧
    (∀ t ∈ s.timer_list, left t.addr s.timer_list = some 1 → (s'.procs t.proc).state = .RUNNABLE) ∧
    ∀ p, (∀ t ∈ s.timer_list, left t.addr s.timer_list = some 1 → t.proc ≠ p) →
      (s'.procs p).state = (s.procs p).state := by
  unfold Ticking at htick ⊢
  unfold Sched.run_timer_list at h
  unfold timers
  cases hl : s.timer_list with
  | nil =>
    rw [hl] at h
    cases h
    simp only [(tick_lists s s.current).1, tick_state]
    simp [hl, left]
  | cons t rest =>
    rw [hl] at h htick hnodup
    have hpos : 0 < t.expires := htick t rfl
    obtain ⟨-, -, h⟩ := Option.bind_eq_some_iff.mp h
    obtain ⟨s1, hexpire, h⟩ := Option.bind_eq_some_iff.mp h
    cases h
    simp only [(tick_lists s1 s1.current).1, tick_state]
    -- the list in which the first timer has a tick less
    set first : timer := { t with expires := t.expires - 1 }
    obtain ⟨hlist1, hwoken, hsame⟩ := expire_effect (l := first :: rest) rfl hexpire
    have hnodup1 : ((first :: rest).map (·.addr)).Nodup := hnodup
    have hshift : ∀ a, left a (t :: rest) = (left a (first :: rest)).map (1 + ·) := left_first hpos
    have hdue : ∀ a, left a (t :: rest) = some 1 ↔ left a (first :: rest) = some 0 := fun a => by
      rw [hshift a]
      cases left a (first :: rest) <;> simp
    refine ⟨fun a => ?_, ?_, fun u hu => ?_, fun u hu hleft => ?_, fun p hp => ?_⟩
    · rw [hlist1, left_dropWhile hnodup1, hshift a]
      cases left a (first :: rest) <;> simp
    · rw [hlist1]
      exact (dropWhile_sublist _).map _
    · rw [hlist1] at hu
      have hhead := head?_dropWhile_not (fun u : timer => decide (u.expires = 0)) (first :: rest)
      rw [hu] at hhead
      exact Nat.pos_of_ne_zero (of_decide_eq_false hhead)
    · refine hwoken _ (.inl ?_)
      rcases mem_cons.mp hu with rfl | hu'
      · exact ⟨first, (mem_expired_iff hnodup1).mpr ⟨mem_cons_self, (hdue _).mp hleft⟩, rfl⟩
      · exact ⟨u, (mem_expired_iff hnodup1).mpr ⟨mem_cons_of_mem _ hu', (hdue _).mp hleft⟩, rfl⟩
    · refine congrArg _ (hsame p fun u hu => ?_)
      obtain ⟨hmem, hleft⟩ := (mem_expired_iff hnodup1).mp hu
      rcases mem_cons.mp hmem with rfl | hu'
      · exact hp t mem_cons_self ((hdue t.addr).mpr hleft)
      · exact hp u (mem_cons_of_mem _ hu') ((hdue u.addr).mpr hleft)

end Sched

/-- The calls that change the list of timers, and everything else that happens in between. -/
inductive TimerEvent where
  | add_timer (t : timer)
  | del_timer (addr : ℕ)
  | run_timer_list
  | other
  deriving DecidableEq

namespace TimerEvent

open Sched
variable {e : TimerEvent} {es : List TimerEvent} {s s' : Sched} {t : timer} {a p n m : ℕ}

def Step : TimerEvent → Sched → Sched → Prop
  | .add_timer t, s, s' => s.add_timer t = some s'
  | .del_timer addr, s, s' => s' = s.del_timer addr
  | .run_timer_list, s, s' => s.run_timer_list = some s'
  | .other, s, s' => s'.timer_list = s.timer_list

/-- The events lead from a state of the scheduler to another. -/
inductive Timed : List TimerEvent → Sched → Sched → Prop
  | nil (s : Sched) : Timed [] s s
  | cons {e : TimerEvent} {es : List TimerEvent} {s s' s'' : Sched} : e.Step s s' →
      Timed es s' s'' → Timed (e :: es) s s''

/-- No timer is twice in the list, and the first one has not expired. -/
structure Counting (s : Sched) : Prop where
  nodup : (s.timers.map (·.1)).Nodup
  ticking : s.Ticking

theorem Counting.addrs (h : Counting s) : (s.timer_list.map (·.addr)).Nodup := by
  simpa [timers, Function.comp_def] using h.nodup

theorem add_timer_eq (h : s.add_timer t = some s') : 0 < t.expires ∧
    t.addr ∉ s.timer_list.map (·.addr) ∧
    s' = { s with timer_list := add_timer.insert t s.timer_list } := by
  obtain ⟨_, hpos, h⟩ := Option.bind_eq_some_iff.mp h
  obtain ⟨_, hnew, h⟩ := Option.bind_eq_some_iff.mp h
  cases h
  exact ⟨(Option.guard_eq_some' _).mp hpos, (Option.guard_eq_some' _).mp hnew, rfl⟩

theorem Counting.step (h : Counting s) (hstep : e.Step s s') : Counting s' := by
  cases e with
  | add_timer t =>
    obtain ⟨hpos, hnew, rfl⟩ := add_timer_eq hstep
    refine ⟨(insert_perm.map (·.1)).nodup_iff.mpr (nodup_cons.mpr ⟨?_, h.nodup⟩),
      h.ticking.insert hpos⟩
    simpa [Function.comp_def] using hnew
  | del_timer addr =>
    cases hstep
    refine ⟨h.nodup.sublist (Sublist.map _ ?_), h.ticking.del_timer addr⟩
    rw [timers, Sched.del_timer, remove_eq addr]
    exact eraseP_sublist
  | run_timer_list =>
    obtain ⟨-, hsub, htick, -⟩ := run_timer_list_effect h.addrs h.ticking hstep
    exact ⟨h.nodup.sublist (hsub.map _), htick⟩
  | other =>
    have hlist : s'.timer_list = s.timer_list := hstep
    refine ⟨?_, ?_⟩
    · rw [timers, hlist]
      exact h.nodup
    · rw [Ticking, hlist]
      exact h.ticking

theorem Timed.counting (h : Counting s) (hrun : Timed es s s') : Counting s' := by
  induction hrun with
  | nil _ => exact h
  | cons hstep _ ih => exact ih (h.step hstep)

/-- The timer at `a` will wake up `p` with the `n`-th tick from now. -/
structure Armed (a p n : ℕ) (s : Sched) : Prop where
  mem : (a, p) ∈ s.timers
  left : left a s.timer_list = some n

section
variable (h : Armed a p n s) (hs : Counting s)
include h hs

theorem Armed.of_sublist (hsub : s'.timers.Sublist s.timers)
    (hleft : Sched.left a s'.timer_list = some m) : Armed a p m s' := by
  refine ⟨?_, hleft⟩
  have hmem : a ∈ s'.timer_list.map (·.addr) := by
    by_contra hnot
    cases (left_eq_none_iff.mpr hnot).symm.trans hleft
  obtain ⟨t, ht, rfl⟩ := mem_map.mp hmem
  have ht' : (t.addr, t.proc) ∈ s'.timers := mem_map.mpr ⟨t, ht, rfl⟩
  obtain rfl := congrArg Prod.snd (inj_on_of_nodup_map hs.nodup (hsub.subset ht') h.mem rfl)
  exact ht'

/-- One call: only a tick brings the end of a timer nearer, and only its own deletion stops it. -/
theorem Armed.step (hstep : e.Step s s') (hdel : e ≠ .del_timer a)
    (hn : e = .run_timer_list → n ≠ 1) :
    Armed a p (if e = .run_timer_list then n - 1 else n) s' := by
  cases e with
  | add_timer t =>
    obtain ⟨-, hnew, rfl⟩ := add_timer_eq hstep
    have ha : a ≠ t.addr := by
      rintro rfl
      cases (left_eq_none_iff.mpr hnew).symm.trans h.left
    exact ⟨insert_perm.mem_iff.mpr (mem_cons_of_mem _ h.mem), (left_insert_of_ne ha).trans h.left⟩
  | del_timer addr =>
    cases hstep
    have ha : a ≠ addr := fun heq => hdel (heq ▸ rfl)
    refine h.of_sublist hs ?_ ((left_remove_of_ne ha).trans h.left)
    rw [timers, Sched.del_timer, remove_eq addr]
    exact eraseP_sublist
  | run_timer_list =>
    obtain ⟨hleft, hsub, -⟩ := run_timer_list_effect hs.addrs hs.ticking hstep
    refine h.of_sublist hs hsub ?_
    rw [hleft a, h.left, Option.bind_some, if_neg (hn rfl), if_pos rfl]
  | other =>
    have hlist : s'.timer_list = s.timer_list := hstep
    refine h.of_sublist hs ?_ ?_
    · rw [timers, hlist]
      exact .refl _
    · rw [hlist]
      exact h.left

theorem Armed.run (hrun : Timed es s s') (hdel : .del_timer a ∉ es)
    (hn : es.count .run_timer_list < n) : Armed a p (n - es.count .run_timer_list) s' := by
  induction hrun generalizing n with
  | nil _ => exact h
  | @cons e es s s1 s' hstep _ ih =>
    rw [mem_cons, not_or] at hdel
    by_cases he : e = .run_timer_list
    · subst he
      rw [count_cons_self] at hn ⊢
      have harmed := h.step hs hstep (Ne.symm hdel.1) (fun _ => by omega)
      rw [if_pos rfl] at harmed
      have hend := ih harmed (hs.step hstep) hdel.2 (by omega)
      rwa [show n - 1 - es.count .run_timer_list = n - (es.count .run_timer_list + 1) by omega]
        at hend
    · rw [count_cons_of_ne he] at hn ⊢
      have harmed := h.step hs hstep (Ne.symm hdel.1) (fun heq => absurd heq he)
      rw [if_neg he] at harmed
      exact ih harmed (hs.step hstep) hdel.2 hn

end

/-- A timer that is started with `n` ticks wakes up its process with the `n`-th tick unless it is
deleted before, whatever timers are started and deleted in between. A tick wakes up the
processes of all timers whose last tick it is, and no others. -/
theorem timers_go_off {s0 s1 s2 : Sched} {before after : List TimerEvent}
    (hstart : s0.timer_list = []) (hbefore : Timed before s0 s) (hadd : s.add_timer t = some s1)
    (hafter : Timed after s1 s2) (hdel : .del_timer t.addr ∉ after) :
    (after.count .run_timer_list < t.expires →
      Armed t.addr t.proc (t.expires - after.count .run_timer_list) s2) ∧
    (∀ s3, s2.run_timer_list = some s3 → after.count .run_timer_list + 1 = t.expires →
      (s3.procs t.proc).state = .RUNNABLE ∧ left t.addr s3.timer_list = none) ∧
    (∀ s3, s2.run_timer_list = some s3 →
      (∀ a p, Armed a p 1 s2 → (s3.procs p).state = .RUNNABLE) ∧
      ∀ p, (∀ a, ¬Armed a p 1 s2) → (s3.procs p).state = (s2.procs p).state) ∧
    ((∀ a p, Armed a p 1 s2 → s2.Wakeable p) → ∃ s3, s2.run_timer_list = some s3) ∧
    ∀ a b, a ≠ b → left a (s2.del_timer b).timer_list = left a s2.timer_list := by
  have hs0 : Counting s0 := ⟨by simp [timers, hstart], by simp [Ticking, hstart]⟩
  have hs := hbefore.counting hs0
  have hs1 : Counting s1 := hs.step (e := .add_timer t) hadd
  have hs2 := hafter.counting hs1
  have harmed : Armed t.addr t.proc t.expires s1 := by
    obtain ⟨-, hnew, rfl⟩ := add_timer_eq hadd
    exact ⟨insert_perm.mem_iff.mpr mem_cons_self, left_insert_self hnew⟩
  have hrun := harmed.run hs1 hafter hdel
  have heffect : ∀ s3, s2.run_timer_list = some s3 →
      (∀ a p, Armed a p 1 s2 → (s3.procs p).state = .RUNNABLE ∧ left a s3.timer_list = none) ∧
      ∀ p, (∀ a, ¬Armed a p 1 s2) → (s3.procs p).state = (s2.procs p).state := by
    intro s3 htick
    obtain ⟨hleft, -, -, hwoken, hsame⟩ := run_timer_list_effect hs2.addrs hs2.ticking htick
    refine ⟨fun a p ha => ⟨?_, ?_⟩, fun p hp => hsame p fun u hu hlast heq => ?_⟩
    · obtain ⟨u, hu, heq⟩ := mem_map.mp ha.mem
      cases heq
      exact hwoken u hu ha.left
    · rw [hleft a, ha.left]
      rfl
    · exact hp u.addr ⟨mem_map.mpr ⟨u, hu, by rw [heq]⟩, hlast⟩
  refine ⟨hrun, fun s3 htick hn => ?_, fun s3 htick => ⟨fun a p ha => ?_, (heffect s3 htick).2⟩,
    fun hw => run_timer_list_isSome hs2.addrs hs2.ticking fun u hu hleft =>
      hw u.addr u.proc ⟨mem_map.mpr ⟨u, hu, rfl⟩, hleft⟩,
    fun a b hab => left_remove_of_ne hab⟩
  · have hlast := hrun (by omega)
    rw [show t.expires - after.count .run_timer_list = 1 by omega] at hlast
    exact (heffect s3 htick).1 _ _ hlast
  · exact ((heffect s3 htick).1 a p ha).1

/-- Two timers with two ticks each, behind one with a single tick that is deleted: the second tick
wakes up both processes, and not the third. -/
theorem timers_go_off_together :
    ∃ s0 s s1 s2 s3 : Sched, s0.timer_list = [] ∧
      Timed [.add_timer ⟨5, 1, 5⟩, .add_timer ⟨6, 2, 6⟩] s0 s ∧ s.add_timer ⟨7, 2, 7⟩ = some s1 ∧
      Timed [.del_timer 5, .run_timer_list] s1 s2 ∧ s2.run_timer_list = some s3 ∧
      (s3.procs 7).state = .RUNNABLE ∧ (s3.procs 6).state = .RUNNABLE ∧
      (s3.procs 5).state = .SLEEPING := by
  set s0 : Sched :=
    ⟨fun _ => ⟨.SLEEPING, false, 0, 0, WT_TIMER, false, 0⟩, 0, 0, 1, [], 0, [], fun _ => []⟩
  have hrun : ((s0.add_timer ⟨5, 1, 5⟩).bind fun s' => (s'.add_timer ⟨6, 2, 6⟩).bind fun s =>
      (s.add_timer ⟨7, 2, 7⟩).bind fun s1 => (s1.del_timer 5).run_timer_list.bind fun s2 =>
      s2.run_timer_list.bind fun _ => guard (s2.timer_list = [⟨6, 1, 6⟩, ⟨7, 0, 7⟩] ∧
        (s2.procs 5).state = .SLEEPING)) = some () := by decide +kernel
  simp only [Option.bind_eq_some_iff, Option.guard_eq_some'] at hrun
  obtain ⟨s', hadd5, s, hadd6, s1, hadd7, s2, htick, s3, htick', hlist, hsleep⟩ := hrun
  have hbefore : Timed [.add_timer ⟨5, 1, 5⟩, .add_timer ⟨6, 2, 6⟩] s0 s :=
    .cons hadd5 (.cons hadd6 (.nil _))
  have hafter : Timed [.del_timer 5, .run_timer_list] s1 s2 := .cons rfl (.cons htick (.nil _))
  obtain ⟨-, hseven, hall, -⟩ := timers_go_off rfl hbefore hadd7 hafter (by decide)
  obtain ⟨hwoken, hothers⟩ := hall s3 htick'
  have hsix : Armed 6 6 1 s2 := ⟨by simp [timers, hlist], by simp [left, hlist]⟩
  have hfive (a : ℕ) : ¬Armed a 5 1 s2 := fun h => by simpa [timers, hlist] using h.mem
  exact ⟨s0, s, s1, s2, s3, rfl, hbefore, hadd7, hafter, htick', (hseven s3 htick' rfl).1,
    hwoken 6 6 hsix, (hothers 5 hfive).trans hsleep⟩

end TimerEvent

end ucore
