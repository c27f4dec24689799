import Mips32S.Kernel.Process.WaitProgress
import Mips32S.Kernel.Sync.Frame

open Function List Bool

namespace ucore

/-- The kernel with a semaphore: its value, and the `wakeup_flags` of the `wait_t` that each
process has on its stack. -/
structure Sem where
  kernel : Kernel
  value : ℤ
  wakeup_flags : ℕ → BitVec 32

namespace Sem

variable (q : ℕ) (s : Sem)

def current : ℕ := s.kernel.current

def queue : List ℕ := s.kernel.sched.wait_queues q

def proc (p : ℕ) : proc_struct := s.kernel.proc p

/-- What the calls on the semaphore have done, with the processes that made them. -/
inductive Event where
  | acquired (p : ℕ)
  | blocked (p : ℕ)
  | released (p : ℕ)
  | handed (p waiter : ℕ)
  | returned (p : ℕ)
  | other
  deriving DecidableEq

/-- `__up`: a process that waits gets the semaphore. -/
def up : Option (Event × Sem) :=
  match s.queue q with
  | [] => some (.released s.current, { s with value := s.value + 1 })
  | waiter :: _ => do
    guard ((s.proc waiter).wait_state = WT_KSEM)
    let sched ← s.kernel.sched.wakeup_wait q waiter true
    return (.handed s.current waiter, { s with
      kernel := { s.kernel with sched }
      wakeup_flags := update s.wakeup_flags waiter WT_KSEM })

/-- `down` until it returns or calls `schedule`. -/
def down : Option (Event × Sem) :=
  if s.value > 0 then some (.acquired s.current, { s with value := s.value - 1 })
  else do
    let (_, kernel) ← s.kernel.exec (.wait_current_set q WT_KSEM)
    return (.blocked s.current, { s with
      kernel
      wakeup_flags := update s.wakeup_flags s.current WT_INTERRUPTED })

/-- What `__down` returns for the flags. -/
def down.result (wakeup_flags : BitVec 32) : BitVec 32 :=
  if wakeup_flags ≠ WT_KSEM then wakeup_flags else 0

/-- `down` from its call of `schedule` on. -/
def down.finish : Option (Event × Sem) := do
  let (_, kernel) ← s.kernel.exec .resume
  guard (down.result (s.wakeup_flags s.current) = 0)
  return (.returned s.current, { s with kernel })

def try_down : Option (Event × Sem) :=
  if s.value > 0 then some (.acquired s.current, { s with value := s.value - 1 })
  else some (.other, s)

/-- What can happen next: a call on the semaphore, its end, or anything else in the kernel. -/
inductive Call where
  | up
  | down
  | down_finish
  | try_down
  | kernel (a : Kernel.Action)

def exec : Call → Option (Event × Sem)
  | .up => s.up q
  | .down => s.down q
  | .down_finish => down.finish s
  | .try_down => s.try_down
  | .kernel a => (s.kernel.exec a).map fun r => (.other, { s with kernel := r.2 })

/-- `up` may also be called by an interrupt. -/
def Allowed : Call → Prop
  | .up => True
  | .down | .try_down => s.kernel.Free
  | .down_finish => s.kernel.Allowed .resume ∧ s.kernel.point s.current = .queue q
  | .kernel a => s.kernel.Allowed a ∧ ¬s.kernel.Uses q a

def Step (c : Call) (e : Event) (s s' : Sem) : Prop := s.Allowed q c ∧ s.exec q c = some (e, s')

variable {q s} {s' : Sem} {c : Call} {e : Event} {kids : ℕ → List ℕ} {p waiter : ℕ}

/-- A process that waits for the semaphore sleeps in its queue, or has been given it by `up`. -/
def Waiting (q : ℕ) (s : Sem) (p : ℕ) : Prop :=
  (p ∈ s.queue q ∧ (s.proc p).state = .SLEEPING ∧ (s.proc p).wait_state = WT_KSEM) ∨
  (p ∉ s.queue q ∧ (s.proc p).state = .RUNNABLE ∧ s.wakeup_flags p = WT_KSEM)

theorem Waiting.congr (h : s.Waiting q p) (hmem : p ∈ s'.queue q ↔ p ∈ s.queue q)
    (hstate : (s'.proc p).state = (s.proc p).state)
    (hwait : (s'.proc p).wait_state = (s.proc p).wait_state)
    (hflags : s'.wakeup_flags p = s.wakeup_flags p) : s'.Waiting q p := by
  rwa [Waiting, hmem, hstate, hwait, hflags]

/-- 1 for a process that has been given the semaphore by `up` and has not returned from `down`
yet. -/
def granted (q : ℕ) (s : Sem) (p : ℕ) : ℕ :=
  if s.kernel.AtQueue q p ∧ p ∉ s.queue q then 1 else 0

theorem granted_congr (hat : s'.kernel.AtQueue q p ↔ s.kernel.AtQueue q p)
    (hqueue : p ∈ s'.queue q ↔ p ∈ s.queue q) : s'.granted q p = s.granted q p :=
  if_congr (and_congr hat (not_congr hqueue)) rfl rfl

/-- The invariant of the semaphore. -/
structure Inv (q : ℕ) (kids : ℕ → List ℕ) (s : Sem) : Prop where
  kernel : s.kernel.Inv kids
  value : 0 ≤ s.value
  empty : 0 < s.value → s.queue q = []
  waiting : ∀ p, s.kernel.AtQueue q p → s.Waiting q p

section
variable (h : Inv q kids s)
include h

theorem Inv.uninterrupted (hp : s.kernel.AtQueue q p) :
    (s.kernel.proc p).wait_state &&& WT_INTERRUPTED = 0 := by
  rcases h.waiting p hp with ⟨-, -, hwait⟩ | ⟨-, hrun, -⟩
  · rw [show (s.kernel.proc p).wait_state = WT_KSEM from hwait]
    decide
  · have hsettled := h.kernel.sched.settled p hp.1
    rw [show (s.kernel.proc p).wait_state = 0 from ((Sched.settled_runnable hrun).mp hsettled).1]
    decide

theorem Inv.of_kernel {a : Kernel.Action} {r : Option Reply} {k : Kernel}
    (hstep : Kernel.Step a r s.kernel k) (ha : ¬s.kernel.Uses q a) :
    (∃ kids', Inv q kids' { s with kernel := k }) ∧ k.sched.wait_queues q = s.queue q ∧
      ∀ p, k.AtQueue q p ↔ s.kernel.AtQueue q p := by
  obtain ⟨kids', hinv, hevolves, -, -⟩ := h.kernel.of_step hstep
  obtain ⟨hkeeps, hcurrent⟩ := h.kernel.keeps hstep ha fun p => h.uninterrupted
  have hpoint : ∀ p ∈ s.kernel.family.alive,
      (k.point p = .queue q ↔ s.kernel.point p = .queue q) := fun p hp => by
    rcases eq_or_ne p s.kernel.current with rfl | hne
    · exact hcurrent
    · rw [hevolves.point p hp hne]
  have hat : ∀ p, k.AtQueue q p ↔ s.kernel.AtQueue q p := fun p => by
    constructor
    · rintro ⟨halive, hplace⟩
      by_cases hold : p ∈ s.kernel.family.alive
      · exact ⟨hold, (hpoint p hold).mp hplace⟩
      · cases (h.kernel.new_free hstep halive hold).symm.trans hplace
    · intro hp
      refine ⟨?_, (hpoint p hp.1).mpr hp.2⟩
      rcases h.kernel.freesExited hstep p hp.1 with ⟨halive, -⟩ | ⟨-, hz, -⟩
      · exact halive
      · rcases h.waiting p hp with ⟨-, hstate, -⟩ | ⟨-, hstate, -⟩ <;> cases hz.symm.trans hstate
  refine ⟨⟨kids', hinv, h.value, fun hpos => hkeeps.queue.trans (h.empty hpos), fun p hp => ?_⟩,
    hkeeps.queue, hat⟩
  obtain ⟨hstate, hwait⟩ := hkeeps.procs p ((hat p).mp hp)
  refine (h.waiting p ((hat p).mp hp)).congr ?_ hstate hwait rfl
  rw [queue, hkeeps.queue, queue]

theorem Inv.block (hfree : s.kernel.Free) (hvalue : ¬s.value > 0) :
    ∃ s', s.down q = some (.blocked s.current, s') ∧ Inv q kids s' ∧ s'.value = s.value ∧
      s'.queue q = s.queue q ++ [s.current] ∧ ∀ p, s'.granted q p = s.granted q p := by
  set k : Kernel := { s.kernel.setPoint (.queue q) with
    sched := s.kernel.sched.wait_current_set q WT_KSEM, due := true } with hk
  obtain ⟨hinv, hevolves⟩ : k.Inv kids ∧ s.kernel.Evolves k :=
    h.kernel.wait_current_set hfree (.inr rfl)
  have hqueue : k.sched.wait_queues q = s.queue q ++ [s.current] := update_self _ _ _
  have hnew : k.proc s.current =
      { s.proc s.current with state := .SLEEPING, wait_state := WT_KSEM } :=
    update_self _ _ _
  have hothers : ∀ p ≠ s.current, k.proc p = s.proc p := fun p hp => update_of_ne hp _ _
  have hmem : ∀ p ≠ s.current, (p ∈ k.sched.wait_queues q ↔ p ∈ s.queue q) := fun p hp => by
    rw [hqueue, mem_append, mem_singleton, or_iff_left hp]
  refine ⟨{ s with
      kernel := k
      wakeup_flags := update s.wakeup_flags s.current WT_INTERRUPTED }, ?_,
    ⟨hinv, h.value, fun hpos => absurd hpos hvalue, fun p hp => ?_⟩, rfl, hqueue, fun p => ?_⟩
  · simp only [down, if_neg hvalue]
    rfl
  · rcases eq_or_ne p s.current with rfl | hne
    · refine .inl ⟨?_, ?_, ?_⟩
      · change s.current ∈ k.sched.wait_queues q
        rw [hqueue]
        exact mem_append_right _ mem_cons_self
      · exact congrArg proc_struct.state hnew
      · exact congrArg proc_struct.wait_state hnew
    · have hold : s.kernel.AtQueue q p := by
        refine ⟨hp.1, ?_⟩
        exact (hevolves.point p hp.1 hne).symm.trans hp.2
      have hsame := hothers p hne
      exact (h.waiting p hold).congr (hmem p hne) (congrArg _ hsame) (congrArg _ hsame)
        (update_of_ne hne _ _)
  · rcases eq_or_ne p s.current with rfl | hne
    · have hin : s.current ∈ k.sched.wait_queues q := hqueue ▸ mem_append_right _ mem_cons_self
      have hbefore : ¬s.kernel.AtQueue q s.current := hfree.not_atQueue
      exact (if_neg fun hand => hand.2 hin).trans (if_neg fun hand => hbefore hand.1).symm
    · refine granted_congr (and_congr_right fun _ => ?_) (hmem p hne)
      rw [show k.point p = s.kernel.point p from update_of_ne hne _ _]

theorem Inv.finish (hdue : s.kernel.due = false)
    (hpoint : s.kernel.point s.kernel.current = .queue q) :
    down.finish s = some (.returned s.current, { s with kernel := s.kernel.setPoint .free }) ∧
      Inv q kids { s with kernel := s.kernel.setPoint .free } ∧ s.granted q s.current = 1 ∧
      ∀ p, s.granted q p =
        [s.current].count p + { s with kernel := s.kernel.setPoint .free }.granted q p := by
  have hcurrent : s.kernel.current ∈ s.kernel.family.alive := h.kernel.sched.runs.current
  have hrun := (h.kernel.running hdue).1
  obtain ⟨hout, -, hflags⟩ := (h.waiting _ ⟨hcurrent, hpoint⟩).resolve_left fun hin => by
    cases hrun.symm.trans hin.2.1
  obtain ⟨sched, hdel, hinv, hevolves, -⟩ := h.kernel.wake_queue hdue hpoint
  have hsched : s.kernel.sched.wait_current_del q = some s.kernel.sched := if_neg hout
  cases hdel.symm.trans hsched
  have hone : s.granted q s.current = 1 := if_pos ⟨⟨hcurrent, hpoint⟩, hout⟩
  refine ⟨?_, ⟨hinv, h.value, h.empty, fun p hp => ?_⟩, hone, fun p => ?_⟩
  · simp only [down.finish, Kernel.exec, Kernel.resume, hpoint, hsched, down.result, hflags, current]
    rfl
  · have hne : p ≠ s.kernel.current := by
      rintro rfl
      cases (update_self _ _ _).symm.trans hp.2
    exact h.waiting p ⟨hp.1, (hevolves.point p hp.1 hne).symm.trans hp.2⟩
  · rcases eq_or_ne p s.current with rfl | hne
    · have hafter : ¬(s.kernel.setPoint .free).AtQueue q s.current := fun hat =>
        Kernel.setPoint_ne (by simp) hat.2
      rw [hone, count_singleton_self, granted, if_neg fun hand => hafter hand.1]
    · rw [count_eq_zero_of_not_mem (by simpa using hne), zero_add]
      refine Eq.symm (granted_congr ?_ .rfl)
      refine and_congr_right fun _ => ?_
      rw [show (s.kernel.setPoint .free).point p = s.kernel.point p from update_of_ne hne _ _]

/-- `up` gives the semaphore to the first process that waits for it. -/
theorem Inv.hand {rest : List ℕ} (hqueue : s.queue q = waiter :: rest) :
    ∃ s', s.up q = some (.handed s.current waiter, s') ∧ Inv q kids s' ∧ s'.value = s.value ∧
      s'.queue q = rest ∧ (s'.proc waiter).state = .RUNNABLE ∧
      (∀ p ≠ waiter, s'.proc p = s.proc p) ∧
      ∀ p, [waiter].count p + s.granted q p = s'.granted q p := by
  have hlinks : s.kernel.sched.wait_queues q = waiter :: rest := hqueue
  have hmem : waiter ∈ s.kernel.sched.wait_queues q := hlinks ▸ mem_cons_self
  have hat : s.kernel.AtQueue q waiter := h.kernel.sched.waiters.queue q waiter hmem
  obtain ⟨-, -, hksem⟩ := (h.waiting waiter hat).resolve_right fun hout => hout.1 hmem
  have hcond : if true then waiter ∈ s.kernel.sched.wait_queues q
      else waiter ∈ s.kernel.family.alive ∧ s.kernel.point waiter = .queue q := hmem
  obtain ⟨sched, heq, hinv, hwakes, happends, htimers, hlist⟩ := h.kernel.sched.wakeup_wait hcond
  obtain ⟨hkernel, -⟩ := h.kernel.of_queue hinv hwakes happends htimers
  obtain ⟨hrunnable, hothers⟩ : (sched.procs waiter).state = .RUNNABLE ∧
      ∀ p ≠ waiter, sched.procs p = s.proc p := by
    obtain ⟨s1, hdel, hwakeup⟩ := Option.bind_eq_some_iff.mp heq
    obtain ⟨_, -, hdel⟩ := Option.bind_eq_some_iff.mp hdel
    cases hdel
    obtain ⟨hrunnable, hothers, -, -, -⟩ := Sched.wakeup_proc_effect hwakeup
    exact ⟨hrunnable, hothers⟩
  have hrest : sched.wait_queues q = rest := by
    rw [hlist rfl, hlinks, erase_cons_head]
  have hnodup := h.kernel.sched.waiters.queue_nodup q
  rw [hlinks, nodup_cons] at hnodup
  refine ⟨{ s with
      kernel := { s.kernel with sched }
      wakeup_flags := update s.wakeup_flags waiter WT_KSEM }, ?_,
    ⟨hkernel, h.value, fun hpos => ?_, fun p hp => ?_⟩, rfl, hrest, hrunnable, hothers, fun p => ?_⟩
  · simp only [up, hqueue, guard, if_pos hksem, heq]
    rfl
  · cases hqueue.symm.trans (h.empty hpos)
  · rcases eq_or_ne p waiter with rfl | hne
    · refine .inr ⟨fun hin => hnodup.1 ?_, hrunnable, update_self _ _ _⟩
      rwa [← hrest]
    · have hin : p ∈ sched.wait_queues q ↔ p ∈ s.queue q := by
        rw [hrest, hqueue, mem_cons, or_iff_right hne]
      have hsame := hothers p hne
      exact (h.waiting p hp).congr hin (congrArg _ hsame) (congrArg _ hsame) (update_of_ne hne _ _)
  · rcases eq_or_ne p waiter with rfl | hne
    · have hbefore : s.granted q p = 0 := if_neg fun hand => hand.2 hmem
      have hafter : p ∉ sched.wait_queues q := hrest ▸ hnodup.1
      rw [hbefore, count_singleton_self, granted, if_pos ⟨hat, hafter⟩]
    · rw [count_eq_zero_of_not_mem (by simpa using hne), zero_add]
      refine Eq.symm (granted_congr .rfl ?_)
      rw [queue, hrest, hqueue, mem_cons, or_iff_right hne]

end

/-- The calls of `up` that have been completed. -/
@[simp]
def Event.isUp : Event → Bool
  | .released _ | .handed _ _ => true
  | _ => false

/-- The calls of `down` and `try_down` that have got the semaphore. An `up` that gives it to a
process that waits is both. -/
@[simp]
def Event.isDown : Event → Bool
  | .acquired _ | .handed _ _ => true
  | _ => false

def Event.blocked? : Event → Option ℕ
  | .blocked p => some p
  | _ => none

def Event.woken? : Event → Option ℕ
  | .handed _ waiter => some waiter
  | _ => none

def Event.returned? : Event → Option ℕ
  | .returned p => some p
  | _ => none

/-- What an event does to the value and to the queue, and who may return from `down`. -/
structure Accounts (q : ℕ) (e : Event) (s s' : Sem) : Prop where
  value : s'.value = s.value + e.isUp.toNat - e.isDown.toNat
  queue : s.queue q ++ e.blocked?.toList = e.woken?.toList ++ s'.queue q
  woken : ∀ p ∈ e.woken?, (s'.proc p).state = .RUNNABLE
  granted : ∀ p, e.woken?.toList.count p + s.granted q p =
    e.returned?.toList.count p + s'.granted q p

/-- The event of each call: an `up` releases a unit or hands it to the first process that waits,
a `down` takes a unit or blocks, and goes on only when it has been given one. -/
def Reports (q : ℕ) (s : Sem) (e : Event) : Call → Prop
  | .up => e = (s.queue q).head?.elim (.released s.current) (.handed s.current)
  | .down => e = if s.value > 0 then .acquired s.current else .blocked s.current
  | .down_finish => e = .returned s.current ∧ s.granted q s.current = 1
  | .try_down => e = if s.value > 0 then .acquired s.current else .other
  | .kernel _ => e = .other

theorem Inv.step (h : Inv q kids s) (hallowed : s.Allowed q c)
    (hpanic : ∀ a, c = .kernel a → ¬s.kernel.Panics a) :
    ∃ e s' kids', s.exec q c = some (e, s') ∧ s.Reports q e c ∧ Inv q kids' s' ∧
      Accounts q e s s' := by
  have hacquire : s.value > 0 → Inv q kids { s with value := s.value - 1 } ∧
      Accounts q (.acquired s.current) s { s with value := s.value - 1 } := fun hpos =>
    ⟨⟨h.kernel, by dsimp only; omega, fun _ => h.empty hpos, h.waiting⟩,
      by simp, append_nil _, nofun, fun _ => rfl⟩
  cases c with
  | up =>
    cases hqueue : s.queue q with
    | nil =>
      refine ⟨.released s.current, { s with value := s.value + 1 }, kids, ?_,
        by simp [Reports, hqueue], ⟨h.kernel, ?_, fun _ => hqueue, h.waiting⟩, by simp,
        append_nil _, nofun, fun _ => rfl⟩
      · simp only [exec, up, hqueue]
      · have := h.value
        dsimp only
        omega
    | cons waiter rest =>
      obtain ⟨s', heq, hinv, hvalue, hrest, hrun, -, hgranted⟩ := h.hand hqueue
      refine ⟨.handed s.current waiter, s', kids, heq, by simp [Reports, hqueue], hinv,
        by simp [hvalue], ?_, fun p hp => ?_,
        fun p => (hgranted p).trans (zero_add _).symm⟩
      · rw [hqueue, hrest]
        exact append_nil _
      · cases hp
        exact hrun
  | down =>
    by_cases hpos : s.value > 0
    · refine ⟨.acquired s.current, _, kids, ?_, (if_pos hpos).symm, hacquire hpos⟩
      simp only [exec, down, if_pos hpos]
    · obtain ⟨s', heq, hinv, hvalue, hqueue, hgranted⟩ := h.block hallowed hpos
      exact ⟨.blocked s.current, s', kids, heq, (if_neg hpos).symm, hinv,
        by simp [hvalue], hqueue.symm, nofun,
        fun p => congrArg (0 + ·) (hgranted p).symm⟩
  | down_finish =>
    obtain ⟨heq, hinv, hone, hgranted⟩ := h.finish hallowed.1.1 hallowed.2
    exact ⟨.returned s.current, _, kids, heq, ⟨rfl, hone⟩, hinv, by simp,
      append_nil _, nofun, fun p => (zero_add _).trans (hgranted p)⟩
  | try_down =>
    by_cases hpos : s.value > 0
    · refine ⟨.acquired s.current, _, kids, ?_, (if_pos hpos).symm, hacquire hpos⟩
      simp only [exec, try_down, if_pos hpos]
    · refine ⟨.other, s, kids, ?_, (if_neg hpos).symm, h, by simp,
        append_nil _, nofun, fun _ => rfl⟩
      simp only [exec, try_down, if_neg hpos]
  | kernel a =>
    obtain ⟨r, k, -, heq, -⟩ := h.kernel.step hallowed.1 (hpanic a rfl)
    obtain ⟨⟨kids', hinv⟩, hqueue, hat⟩ := h.of_kernel ⟨hallowed.1, heq⟩ hallowed.2
    have hexec : s.exec q (.kernel a) = some (.other, { s with kernel := k }) := by
      simp only [exec, heq]
      rfl
    refine ⟨.other, { s with kernel := k }, kids', hexec, rfl, hinv,
      by simp, (append_nil _).trans hqueue.symm, nofun, fun p => ?_⟩
    refine congrArg (0 + ·) (granted_congr (hat p) ?_).symm
    rw [queue, hqueue]

theorem Inv.of_step (h : Inv q kids s) (hstep : Step q c e s s') :
    s.Reports q e c ∧ (∃ kids', Inv q kids' s') ∧ Accounts q e s s' := by
  have hpanic : ∀ a, c = .kernel a → ¬s.kernel.Panics a := by
    rintro a rfl hpanic
    have hnone : s.exec q (.kernel a) = none := by
      simp only [exec, Kernel.exec_panics hpanic]
      rfl
    cases hnone.symm.trans hstep.2
  obtain ⟨e', s'', kids', heq, hreports, hinv, haccounts⟩ := h.step hstep.1 hpanic
  cases hstep.2.symm.trans heq
  exact ⟨hreports, ⟨kids', hinv⟩, haccounts⟩

/-- The processes between their `down` and their `up`. -/
def hold (holders : List ℕ) : Event → List ℕ
  | .acquired p => p :: holders
  | .released p => holders.erase p
  | .handed p waiter => waiter :: holders.erase p
  | .blocked _ | .returned _ | .other => holders

def holders (events : List Event) : List ℕ := events.foldl hold []

/-- The process that calls `up`. -/
def Event.caller? : Event → Option ℕ
  | .released p | .handed p _ => some p
  | _ => none

/-- Every `up` is made by a process that is between its `down` and its `up`. -/
def UsedAsLock (events : List Event) : Prop :=
  ∀ before e after, events = before ++ e :: after → ∀ p ∈ e.caller?, p ∈ holders before

/-- The runs of the kernel with a semaphore from `sem_init` with the value `v` on, with the events
so far. -/
inductive Reach (idleproc initproc q : ℕ) (v : ℤ) : List Event → Sem → Prop
  | sem_init {k : Kernel} {wakeup_flags : ℕ → BitVec 32} : Kernel.Reach idleproc initproc k →
      (∀ p, ¬k.AtQueue q p) → Reach idleproc initproc q v [] ⟨k, v, wakeup_flags⟩
  | step {events : List Event} {s s' : Sem} {c : Call} {e : Event} :
      Reach idleproc initproc q v events s → Step q c e s s' →
      Reach idleproc initproc q v (events ++ [e]) s'

variable {idleproc initproc : ℕ} {v : ℤ} {events : List Event}

theorem queue_eq_nil {k : Kernel} (h : k.Inv kids) (hnone : ∀ p, ¬k.AtQueue q p) :
    k.sched.wait_queues q = [] :=
  eq_nil_iff_forall_not_mem.mpr fun p hp => hnone p (h.sched.waiters.queue q p hp)

section
variable (hne : idleproc ≠ initproc) (hv : 0 ≤ v) (h : Reach idleproc initproc q v events s)
include hne hv h

theorem Reach.inv : ∃ kids, Inv q kids s := by
  induction h with
  | @sem_init k flags hreach hnone =>
    obtain ⟨⟨kids, hinv⟩, -, -⟩ := hreach.inv hne
    exact ⟨kids, hinv, hv, fun _ => queue_eq_nil hinv hnone, fun p hp => absurd hp (hnone p)⟩
  | step _ hstep ih =>
    obtain ⟨kids, hinv⟩ := ih
    exact (hinv.of_step hstep).2.1

/-- What the events so far say about the value, the queue, and who may return from `down`. -/
theorem Reach.accounts : s.value = v + events.countP Event.isUp - events.countP Event.isDown ∧
    events.filterMap Event.blocked? = events.filterMap Event.woken? ++ s.queue q ∧
    ∀ p, (events.filterMap Event.woken?).count p =
      (events.filterMap Event.returned?).count p + s.granted q p := by
  induction h with
  | @sem_init k flags hreach hnone =>
    obtain ⟨⟨kids, hinv⟩, -, -⟩ := hreach.inv hne
    exact ⟨by simp, by simp [queue, queue_eq_nil hinv hnone], fun p => by simp [granted, hnone p]⟩
  | @step events s s' c e hreach hstep ih =>
    obtain ⟨kids, hinv⟩ := hreach.inv hne hv
    obtain ⟨hvalue, hqueue, hgranted⟩ := ih
    have haccounts := (hinv.of_step hstep).2.2
    have hone : ∀ f : Event → Option ℕ, [e].filterMap f = (f e).toList := fun f => by
      cases hf : f e <;> simp [hf]
    have hcount : ∀ f : Event → Bool, ([e].countP f : ℤ) = (f e).toNat := fun f => by
      cases hf : f e <;> simp [hf]
    simp only [countP_append, filterMap_append, hone, Nat.cast_add, hcount]
    refine ⟨?_, ?_, fun p => ?_⟩
    · have := haccounts.value
      omega
    · rw [hqueue, append_assoc, haccounts.queue, append_assoc]
    · have hstep := haccounts.granted p
      have hbefore := hgranted p
      rw [count_append, count_append]
      omega

end

theorem UsedAsLock.of_append (h : UsedAsLock (events ++ [e])) : UsedAsLock events :=
  fun before e' after heq p hp => h before e' (after ++ [e]) (by rw [heq]; simp) p hp

/-- The semaphore and the processes that hold it share its units. -/
theorem Reach.holders (hne : idleproc ≠ initproc) (hv : 0 ≤ v)
    (h : Reach idleproc initproc q v events s) (hlock : UsedAsLock events) :
    ((holders events).length : ℤ) + s.value = v := by
  induction h with
  | sem_init => simp [Sem.holders]
  | @step events s s' c e hreach hstep ih =>
    obtain ⟨kids, hinv⟩ := hreach.inv hne hv
    have hbefore := ih hlock.of_append
    have hvalue := (hinv.of_step hstep).2.2.value
    have hcaller : ∀ p ∈ e.caller?, p ∈ Sem.holders events := hlock events e [] rfl
    have hrelease : ∀ p ∈ e.caller?,
        ((Sem.holders events).erase p).length + 1 = (Sem.holders events).length := fun p hp => by
      have hpos := length_pos_of_mem (hcaller p hp)
      rw [length_erase_of_mem (hcaller p hp)]
      omega
    have hholders : Sem.holders (events ++ [e]) = hold (Sem.holders events) e := by
      simp [Sem.holders]
    rw [hholders]
    cases e with
    | acquired p =>
      simp only [Event.isUp, Event.isDown, toNat_true, toNat_false] at hvalue
      simp only [hold, length_cons]
      omega
    | released p =>
      have hlength := hrelease p rfl
      simp only [Event.isUp, Event.isDown, toNat_true, toNat_false] at hvalue
      simp only [hold]
      omega
    | handed p waiter =>
      have hlength := hrelease p rfl
      simp only [Event.isUp, Event.isDown, toNat_true] at hvalue
      simp only [hold, length_cons]
      omega
    | blocked p | returned p | other =>
      simp only [Event.isUp, Event.isDown, toNat_false] at hvalue
      simp only [hold]
      omega

/-- A semaphore in every run of the kernel: its value is that of the completed calls and never
negative, `up` wakes up the first process that waits for it and no other, a `down` that has
blocked returns once for each time it is woken up so, and with one unit it is a lock. No assertion
fails. -/
theorem semaphore_correct (hne : idleproc ≠ initproc) (hv : 0 ≤ v)
    (h : Reach idleproc initproc q v events s) :
    0 ≤ s.value ∧ (0 < s.value → s.queue q = []) ∧
    v + events.countP Event.isUp - events.countP Event.isDown = s.value ∧
    events.filterMap Event.blocked? = events.filterMap Event.woken? ++ s.queue q ∧
    (∀ p, (events.filterMap Event.woken?).count p =
      (events.filterMap Event.returned?).count p + s.granted q p) ∧
    (∀ p ∈ s.queue q, (s.proc p).state = .SLEEPING) ∧
    (∀ c e s', Step q c e s s' → s.Reports q e c) ∧
    (∀ e s', Step q .up e s s' → ∀ p, if (s.queue q).head? = some p
      then (s'.proc p).state = .RUNNABLE else s'.proc p = s.proc p) ∧
    (∀ c, s.Allowed q c → (∀ a, c = .kernel a → ¬s.kernel.Panics a) →
      ∃ e s', s.exec q c = some (e, s')) ∧
    (v = 1 → UsedAsLock events → (holders events).length ≤ 1) := by
  obtain ⟨kids, hinv⟩ := h.inv hne hv
  obtain ⟨hvalue, hqueue, hgranted⟩ := h.accounts hne hv
  refine ⟨hinv.value, hinv.empty, hvalue.symm, hqueue, hgranted, fun p hp => ?_,
    fun c e s' hstep => (hinv.of_step hstep).1, fun e s' hstep p => ?_,
    fun c hallowed hpanic => ?_, fun hone hlock => ?_⟩
  · have hat := hinv.kernel.sched.waiters.queue q p hp
    exact ((hinv.waiting p hat).resolve_right fun hout => hout.1 hp).2.1
  · cases hlist : s.queue q with
    | nil =>
      have hup : s.exec q .up = some (.released s.current, { s with value := s.value + 1 }) := by
        simp only [exec, up, hlist]
      cases hup.symm.trans hstep.2
      exact rfl
    | cons waiter rest =>
      obtain ⟨s'', heq, -, -, -, hrun, hothers, -⟩ := hinv.hand hlist
      cases heq.symm.trans hstep.2
      by_cases hp : waiter = p
      · rwa [if_pos (by simp [hp]), ← hp]
      · rw [if_neg (by simp [hp])]
        exact hothers p (Ne.symm hp)
  · obtain ⟨e, s', -, heq, -⟩ := hinv.step hallowed hpanic
    exact ⟨e, s', heq⟩
  · have hshare := h.holders hne hv hlock
    have hpos := hinv.value
    omega

instance (q : ℕ) (s : Sem) : (c : Call) → Decidable (s.Allowed q c)
  | .up => inferInstanceAs (Decidable True)
  | .down | .try_down => inferInstanceAs (Decidable s.kernel.Free)
  | .down_finish | .kernel _ => inferInstanceAs (Decidable (_ ∧ _))

/-- The events and the end of the calls. -/
def run (q : ℕ) : List Call → Sem → Option (List Event × Sem)
  | [], s => some ([], s)
  | c :: rest, s => do
    guard (s.Allowed q c)
    let (e, s) ← s.exec q c
    let (events, s) ← run q rest s
    return (e :: events, s)

theorem Reach.run {calls : List Call} {after : List Event}
    (h : Reach idleproc initproc q v events s) (hrun : run q calls s = some (after, s')) :
    Reach idleproc initproc q v (events ++ after) s' := by
  induction calls generalizing s events after with
  | nil =>
    cases hrun
    exact (append_nil events).symm ▸ h
  | cons c rest ih =>
    simp only [Sem.run, Option.bind_eq_bind, Option.bind_eq_some_iff] at hrun
    obtain ⟨_, hguard, ⟨e, s1⟩, hexec, ⟨later, s2⟩, hrest, hrun⟩ := hrun
    cases hrun
    rw [show events ++ e :: later = events ++ [e] ++ later by simp]
    exact ih (h.step ⟨(Option.guard_eq_some' _).mp hguard, hexec⟩) hrest

theorem UsedAsLock.of_take (h : ∀ i < events.length, ∀ p ∈ events[i]?.bind Event.caller?,
    p ∈ Sem.holders (events.take i)) : UsedAsLock events := by
  rintro before e after rfl p hp
  have hi := h before.length (by simp) p (by simpa using hp)
  rwa [take_left] at hi

/-- `initproc` takes a lock, its child waits for it, gets it from `up` and goes on. -/
theorem semaphore_correct_hand : ∃ events s,
    events = [.acquired 1, .other, .blocked 2, .other, .handed 1 2, .other, .returned 2] ∧
      Reach 0 1 7 1 events s ∧ s.value = 0 ∧ s.granted 7 2 = 0 ∧ (holders events).length ≤ 1 := by
  let events : List Event :=
    [.acquired 1, .other, .blocked 2, .other, .handed 1 2, .other, .returned 2]
  obtain ⟨k, hreach, hnone, hrun⟩ := Kernel.exists_reach
    [.schedule, .do_fork (some 2), .fork_finish true]
    (fun k => (∀ p ∈ k.family.alive, k.point p ≠ .queue 7) ∧
      (run 7 [.down, .kernel .schedule, .down, .kernel .schedule, .up, .kernel .schedule,
        .down_finish] ⟨k, 1, fun _ => 0⟩).any fun r => r.1 = events) (by decide +kernel)
  obtain ⟨⟨after, s⟩, hrun, hafter⟩ := (Option.any_eq_true _ _).mp hrun
  obtain rfl : after = events := of_decide_eq_true hafter
  have hinit : Reach 0 1 7 1 [] ⟨k, 1, fun _ => 0⟩ :=
    .sem_init hreach fun p hp => hnone p hp.1 hp.2
  have hrun := hinit.run hrun
  obtain ⟨-, -, hvalue, -, hgranted, -, -, -, -, hlock⟩ :=
    semaphore_correct (by decide) (by decide) hrun
  refine ⟨events, s, rfl, hrun, hvalue.symm, ?_, hlock rfl (.of_take (by decide))⟩
  exact (Nat.add_left_cancel (hgranted 2)).symm

end Sem

end ucore
