import Mips32S.Kernel.Process.Invariant

open linked Function Finset
open Option (bind_eq_bind bind_some some_inj)

namespace ucore.Kernel

variable {k : Kernel} {kids : ℕ → List ℕ} {pid : ℤ} {c x : ℕ}

instance (k : Kernel) (pid : ℤ) (c : ℕ) : Decidable (k.Awaited pid c) :=
  inferInstanceAs (Decidable (_ → _))

/-- The first child in the list of the current process that it waits for and that has exited. -/
def firstExited (k : Kernel) (kids : ℕ → List ℕ) (pid : ℤ) : Option ℕ :=
  (kids k.current).find? fun c => k.Awaited pid c ∧ (k.proc c).state = .ZOMBIE

section
variable (h : k.Inv kids)
include h

theorem Inv.kid_listed (hx : x ∈ k.family.alive) (hc : c ∈ kids x) :
    c ∈ k.family.proc_list ∧ c ≠ k.sched.idleproc := by
  obtain ⟨halive, hup⟩ := (h.family.tree.mem x hx c).mp hc
  have hne : c ≠ k.sched.idleproc := by
    rintro rfl
    cases h.family.idle_parent.symm.trans hup
  exact ⟨(h.family.listed.mem c).mpr ⟨halive, hne⟩, hne⟩

theorem search_pid (hpid : pid ≠ 0) :
    ∃ haskid, do_wait.search k pid = some (haskid, k.firstExited kids pid) ∧
      (haskid = true ↔ ∃ c ∈ kids k.current, k.Awaited pid c) := by
  have hcurrent : k.current ∈ k.family.alive := h.sched.runs.current
  -- a child with the number is the process that is found
  have hfind : ∀ {c}, c ∈ kids k.current → k.Awaited pid c → k.family.find_proc pid = some c :=
    fun hc hawaited => h.family.listed.find_proc_eq.mpr
      ⟨(h.kid_listed hcurrent hc).1, hawaited hpid⟩
  have hnone : (∀ c ∈ kids k.current, k.Awaited pid c → (k.proc c).state ≠ .ZOMBIE) →
      k.firstExited kids pid = none := fun hall => by
    refine List.find?_eq_none.mpr fun c hc => ?_
    simpa using hall c hc
  simp only [do_wait.search, hpid, ne_eq, not_false_eq_true, if_true]
  cases hproc : k.family.find_proc pid with
  | none =>
    have hno : ∀ c ∈ kids k.current, ¬k.Awaited pid c := fun c hc hawaited => by
      cases hproc.symm.trans (hfind hc hawaited)
    refine ⟨false, ?_, by simpa using hno⟩
    rw [hnone fun c hc hawaited => absurd hawaited (hno c hc)]
  | some proc =>
    obtain ⟨hlist, hproc_pid⟩ := h.family.listed.find_proc_eq.mp hproc
    dsimp only
    by_cases hup : (k.family.links proc).parent = some k.current
    · have hkid : proc ∈ kids k.current :=
        (h.family.tree.mem _ hcurrent proc).mpr ⟨((h.family.listed.mem _).mp hlist).1, hup⟩
      have hunique : ∀ {c}, c ∈ kids k.current → k.Awaited pid c → c = proc := fun hc hawaited =>
        some_inj.mp ((hfind hc hawaited).symm.trans hproc)
      refine ⟨true, ?_, by simpa using ⟨proc, hkid, fun _ => hproc_pid⟩⟩
      rw [if_pos hup]
      by_cases hz : (k.proc proc).state = .ZOMBIE
      · have hfirst : k.firstExited kids pid = some proc := by
          cases hfirst : k.firstExited kids pid with
          | none =>
            have hno := List.find?_eq_none.mp hfirst proc hkid
            exact absurd (decide_eq_true ⟨fun _ => hproc_pid, hz⟩) hno
          | some c =>
            have hc := List.find?_some hfirst
            rw [hunique (List.mem_of_find?_eq_some hfirst) (of_decide_eq_true hc).1]
        simp [hz, hfirst]
      · have hfirst : k.firstExited kids pid = none := hnone fun c hc hawaited => by
          rwa [hunique hc hawaited]
        simp [hz, hfirst]
    · have hno : ∀ c ∈ kids k.current, ¬k.Awaited pid c := fun c hc hawaited => by
        have heq := some_inj.mp ((hfind hc hawaited).symm.trans hproc)
        exact hup (heq ▸ ((h.family.tree.mem _ hcurrent c).mp hc).2)
      refine ⟨false, ?_, by simpa using hno⟩
      rw [if_neg hup, hnone fun c hc hawaited => absurd hawaited (hno c hc)]

theorem search_any :
    ∃ haskid, do_wait.search k 0 = some (haskid, k.firstExited kids 0) ∧
      (haskid = true ↔ ∃ c ∈ kids k.current, k.Awaited 0 c) := by
  have hcurrent : k.current ∈ k.family.alive := h.sched.runs.current
  have hlinked := h.family.tree.linked _ hcurrent
  have hwalk := hlinked.walk_eq (fun c => decide ((k.proc c).state = .ZOMBIE))
    (h.family.kids_length_le hcurrent)
  refine ⟨(k.family.links k.current).cptr.isSome, ?_, ?_⟩
  · have hfirst : k.firstExited kids 0 =
        (kids k.current).find? fun c => decide ((k.proc c).state = .ZOMBIE) := by
      simp [firstExited, Awaited]
    simp only [do_wait.search, ne_eq, not_true_eq_false, if_false, hwalk, hfirst]
    rfl
  · rw [hlinked.start_eq]
    cases kids k.current with
    | nil => simp
    | cons c rest => simp [Awaited]

theorem search_spec (pid : ℤ) :
    ∃ haskid, do_wait.search k pid = some (haskid, k.firstExited kids pid) ∧
      (haskid = true ↔ ∃ c ∈ kids k.current, k.Awaited pid c) := by
  by_cases hpid : pid = 0
  · subst hpid
    exact search_any h
  · exact search_pid h hpid

end

/-- The current process is in `do_wait`, or can call it. -/
structure InWait (k : Kernel) : Prop where
  due : k.due = false
  idle : k.current ≠ k.sched.idleproc
  sleep : k.point k.current ≠ .sleep
  queue : ∀ q, k.point k.current ≠ .queue q
  forking : k.forking k.current = none

variable (h : k.Inv kids) (hwait : k.InWait)
include h hwait

theorem InWait.unlisted : k.sched.Unlisted := h.sched.waiters.unlisted hwait.sleep hwait.queue

theorem Inv.reap (hc : c ∈ kids k.current) (hz : (k.proc c).state = .ZOMBIE) :
    ∃ f, k.family.release c = some f ∧ c ≠ k.sched.idleproc ∧ c ≠ k.sched.initproc ∧
      Inv (update kids k.current ((kids k.current).erase c)) { k.setPoint .free with family := f } ∧
      k.Evolves { k.setPoint .free with family := f } ∧ f.alive = k.family.alive.erase c := by
  have hcurrent : k.current ∈ k.family.alive := h.sched.runs.current
  obtain ⟨halive, hup⟩ := (h.family.tree.mem _ hcurrent c).mp hc
  have hidle := (h.kid_listed hcurrent hc).2
  have hinit : c ≠ k.sched.initproc := by
    rintro rfl
    exact hwait.idle (some_inj.mp (hup.symm.trans h.family.init_parent))
  have hrun := (h.running hwait.due).1
  obtain ⟨f, hrelease, hf, hfalive, hnr, hlinks, houtside⟩ :=
    h.family.release halive hidle hinit hup (h.zombie c halive hz)
  have hsched : k.sched.Inv (k.family.alive.erase c) (update k.point k.current .free) k.due := by
    have hinv := h.sched
    rw [hwait.due] at hinv ⊢
    exact (hinv.setFree (hwait.unlisted h) hwait.idle).erase halive hz
  have hforkers : (k.family.alive.erase c).filter (fun p => k.forking p ≠ none) ⊆
      k.family.alive.filter fun p => k.forking p ≠ none :=
    filter_subset_filter _ (erase_subset c _)
  have hpoint : ∀ {p}, p ≠ k.current → update k.point k.current .free p = k.point p :=
    fun hp => update_of_ne hp _ _
  refine ⟨f, hrelease, hidle, hinit, ⟨hf, ?_, h.ticking, ⟨fun p c' hp => ?_,
    fun p c' hp pid store hwaiting => ?_, fun p c' hp => ?_, h.forks.unique, ?_⟩, h.init,
    fun z hz' hzombie => ?_, fun w hw pid store hwaiting hsleep => ?_, fun hdue => ?_⟩,
    ⟨rfl, rfl, fun p _ hp => hpoint hp, fun p hp hne => ?_, fun z _ hz' => ⟨hz', rfl⟩⟩, hfalive⟩
  · rwa [hfalive]
  · obtain ⟨hpalive, hpidle, hpzombie⟩ := h.forks.parent p c' hp
    rw [hfalive]
    refine ⟨mem_erase.mpr ⟨?_, hpalive⟩, hpidle, hpzombie⟩
    rintro rfl
    exact hpzombie hz
  · have hpc : p ≠ k.current := by
      rintro rfl
      cases hwait.forking.symm.trans hp
    exact h.forks.point p c' hp pid store ((hpoint hpc).symm.trans hwaiting)
  · obtain ⟨hnot, hlinks', hstate, hcwait, hplace⟩ := h.forks.fresh p c' hp
    have hcc : c' ≠ k.current := fun heq => hnot (heq ▸ hcurrent)
    rw [hfalive, houtside c' hnot]
    exact ⟨fun hmem => hnot (mem_of_mem_erase hmem), hlinks', hstate, hcwait,
      (hpoint hcc).trans hplace⟩
  · have hle := card_le_card hforkers
    have hnumber := h.forks.number
    rw [hnr, hfalive]
    change k.family.nr_process - 1 +
      (((k.family.alive.erase c).filter fun p => k.forking p ≠ none).card : ℤ) < MAX_PID
    omega
  · rw [hfalive] at hz'
    have hzc : z ≠ k.current := by
      rintro rfl
      cases hrun.symm.trans hzombie
    rw [update_of_ne hzc]
    exact h.zombie z (mem_of_mem_erase hz') hzombie
  · have hwc : w ≠ k.current := by
      rintro rfl
      cases (update_self _ _ _).symm.trans hwaiting
    rw [hfalive] at hw
    obtain ⟨⟨d, hd, hawaited⟩, hnone⟩ := h.waiting w (mem_of_mem_erase hw) pid store
      ((hpoint hwc).symm.trans hwaiting) hsleep
    rw [update_of_ne hwc]
    refine ⟨⟨d, hd, fun hne => (hlinks d).2.trans (hawaited hne)⟩, fun e he hawaited' => ?_⟩
    exact hnone e he fun hne => (hlinks e).2.symm.trans (hawaited' hne)
  · cases hwait.due.symm.trans hdue
  · rw [hfalive]
    refine ⟨mem_erase.mpr ⟨?_, hp⟩, (hlinks p).2, (hlinks p).1⟩
    rintro rfl
    exact hne hup

theorem Inv.sleep_child (pid : ℤ) (store : Bool) (hkid : ∃ c ∈ kids k.current, k.Awaited pid c)
    (hnone : k.firstExited kids pid = none) :
    let s := k.sched.modify k.current fun x => { x with state := .SLEEPING, wait_state := WT_CHILD }
    Inv kids { k.setPoint (.wait pid store) with sched := s, due := true } ∧
      k.Evolves { k.setPoint (.wait pid store) with sched := s, due := true } := by
  intro s
  have hinv : s.Inv k.family.alive (update k.point k.current (.wait pid store)) true :=
    h.sched.setCurrent (hwait.unlisted h) hwait.idle (by simp [Sched.Settled]) (by simp)
  have hself : (s.procs k.current).state = .SLEEPING := congrArg proc_struct.state
    (Sched.modify_self fun x => { x with state := .SLEEPING, wait_state := WT_CHILD })
  refine h.setCurrent hinv h.ticking rfl rfl rfl (fun p hp => update_of_ne hp _ _) ?_ ?_ ?_
  · simp [(h.running hwait.due).1]
  · simp [hself]
  · intro pid' store' heq
    cases heq
    refine ⟨hwait.forking, hself, hkid, fun c hc hawaited hz => ?_⟩
    exact List.find?_eq_none.mp hnone c hc (decide_eq_true ⟨hawaited, hz⟩)

theorem Inv.round (pid : ℤ) (store : Bool) :
    ∃ r k' kids', do_wait.round k pid store = some (r, k') ∧ Inv kids' k' ∧ k.Evolves k' ∧
      k.sched.Appends k'.sched ∧
      match k.firstExited kids pid with
      | some c => r = some ⟨0, if store then some (k.proc c).exit_code else none⟩ ∧
          k'.family.alive = k.family.alive.erase c ∧ k'.sched = k.sched
      | none => k'.family = k.family ∧
          ((∀ c ∈ kids k.current, ¬k.Awaited pid c) →
            r = some ⟨-E_BAD_PROC, none⟩ ∧ k'.sched = k.sched) := by
  obtain ⟨haskid, hsearch, hiff⟩ := search_spec h pid
  cases hfirst : k.firstExited kids pid with
  | some c =>
    have hc := List.mem_of_find?_eq_some hfirst
    have htest := List.find?_some hfirst
    obtain ⟨f, hrelease, hidle, hinit, hinv, hevolves, halive⟩ :=
      h.reap hwait hc (of_decide_eq_true htest).2
    refine ⟨_, _, _, ?_, hinv, hevolves, .refl _, rfl, halive, rfl⟩
    simp only [do_wait.round, hsearch, hfirst, bind_eq_bind, bind_some, guard,
      if_pos (And.intro hidle hinit), Option.pure_def, hrelease]
  | none =>
    by_cases hkid : ∃ c ∈ kids k.current, k.Awaited pid c
    · obtain ⟨hinv, hevolves⟩ := h.sleep_child hwait pid store hkid hfirst
      refine ⟨none, _, _, ?_, hinv, hevolves, ⟨rfl, List.prefix_rfl⟩, rfl, fun hno => ?_⟩
      · simp only [do_wait.round, hsearch, hfirst, bind_eq_bind, bind_some,
          hiff.mpr hkid, if_true, Option.pure_def]
      · obtain ⟨c, hc, hawaited⟩ := hkid
        exact absurd hawaited (hno c hc)
    · have hfalse : haskid = false := Bool.eq_false_iff.mpr fun htrue => hkid (hiff.mp htrue)
      obtain ⟨hinv, hevolves⟩ := h.setFree hwait.due hwait.idle h.sched h.ticking
        (hwait.unlisted h) rfl rfl rfl rfl
      refine ⟨_, _, _, ?_, hinv, hevolves, .refl _, rfl, fun _ => ⟨rfl, rfl⟩⟩
      simp only [do_wait.round, hsearch, hfirst, bind_eq_bind, bind_some, hfalse,
        Bool.false_eq_true, if_false, Option.pure_def]
      rfl

end ucore.Kernel
