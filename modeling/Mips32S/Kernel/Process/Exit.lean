import Mips32S.Kernel.Process.Invariant

open Function List

namespace ucore.Kernel

variable {alive : Finset ℕ} {point : ℕ → Point} {due : Bool} {s : Sched} {p fuel : ℕ}

theorem wakeup_spec (h : s.Inv alive point due) (hp : p ∈ alive) :
    ∃ s', do_exit.wakeup p s = some s' ∧ s'.Inv alive point due ∧ Sched.Wakes (· = p) s s' ∧
      s.Appends s' ∧ s'.timer_list = s.timer_list ∧
      ∀ pid store, point p = .wait pid store → (s'.procs p).state ≠ .SLEEPING := by
  unfold do_exit.wakeup
  by_cases hwait : (s.procs p).wait_state = WT_CHILD
  · have hzombie : (s.procs p).state ≠ .ZOMBIE := by
      intro hz
      have hzero := ((Sched.settled_zombie hz).mp (h.settled p hp)).1
      rw [hzero] at hwait
      exact absurd hwait (by decide)
    obtain ⟨s', heq, hinv, hwakes, happends, hrun, htimers, -⟩ := h.wakeup_proc hp hzombie
    rw [if_pos hwait]
    refine ⟨s', heq, hinv, hwakes, happends, htimers, fun _ _ _ => ?_⟩
    rw [hrun]
    exact nofun
  · rw [if_neg hwait]
    refine ⟨s, rfl, h, .refl s, .refl s, rfl, fun pid store hpoint hsleep => hwait ?_⟩
    have hsettled := h.settled p hp
    simpa only [Sched.Settled, hsleep, hpoint] using hsettled

section
variable {f : Family} {idleproc initproc current : ℕ} {before : ℕ → Option ℕ} {kids : ℕ → List ℕ}

/-- What becomes of the processes when `current` has given its children `l` to `initproc`. -/
structure Reparented (initproc current : ℕ) (l : List ℕ) (kids kids' : ℕ → List ℕ)
    (f f' : Family) : Prop where
  alive : f'.alive = f.alive
  nr_process : f'.nr_process = f.nr_process
  pid : ∀ q, (f'.links q).pid = (f.links q).pid
  parent : ∀ q, (f'.links q).parent = if q ∈ l then some initproc else (f.links q).parent
  outside : ∀ q ∉ f.alive, f'.links q = f.links q
  kids_current : kids' current = []
  kids_init : ∀ c, c ∈ kids' initproc ↔ c ∈ l ∨ c ∈ kids initproc
  kids_others : ∀ x, x ≠ current → x ≠ initproc → kids' x = kids x

theorem reparent_spec {l : List ℕ} (hf : f.Inv idleproc initproc before kids)
    (hs : s.Inv f.alive point due) (hcurrent : s.current = current) (hidle : current ≠ idleproc)
    (hinitproc : s.initproc = initproc) (hinit : current ≠ initproc) (hkids : kids current = l)
    (hbefore : ∀ x ≠ current, before x = none) (hfuel : l.length ≤ fuel) :
    ∃ f' s' kids', do_exit.reparent fuel f s = some (f', s') ∧
      f'.Inv idleproc initproc (fun _ => none) kids' ∧
      Reparented initproc current l kids kids' f f' ∧ s'.Inv f.alive point due ∧
      Sched.Wakes (· = initproc) s s' ∧ s.Appends s' ∧ s'.timer_list = s.timer_list ∧
      ((∃ c ∈ l, (s.procs c).state = .ZOMBIE) →
        ∀ pid store, point initproc = .wait pid store → (s'.procs initproc).state ≠ .SLEEPING) := by
  have halive : current ∈ f.alive := hcurrent ▸ hs.runs.current
  induction l generalizing f s before kids fuel with
  | nil =>
    have hcptr : (f.links s.current).cptr = none := by
      have hlinked := hf.tree.linked current halive
      rw [hkids] at hlinked
      rwa [hcurrent]
    refine ⟨f, s, kids, ?_, hf.settle hkids hbefore, ⟨rfl, rfl, fun _ => rfl, fun _ => rfl,
      fun _ _ => rfl, hkids, fun c => by simp, fun _ _ _ => rfl⟩, hs, .refl s, .refl s, rfl, ?_⟩
    · cases fuel <;> simp [do_exit.reparent, hcptr]
    · rintro ⟨c, hc, -⟩
      cases hc
  | cons c rest ih =>
    obtain ⟨fuel, rfl⟩ : ∃ n, fuel = n + 1 := ⟨fuel - 1, by simp at hfuel; omega⟩
    have hcptr : (f.links s.current).cptr = some c := by
      have hlinked := hf.tree.linked current halive
      rw [hkids] at hlinked
      rw [hcurrent]
      exact hlinked.1
    have hc : c ∈ kids current := hkids ▸ mem_cons_self
    set f1 := f.adopt initproc current c with hf1
    have htable : f1.alive = f.alive ∧ f1.nr_process = f.nr_process := Family.adopt_alive hinit
    have hpid : ∀ q, (f1.links q).pid = (f.links q).pid := Family.adopt_pid hinit
    have hparent : ∀ q, (f1.links q).parent = if q = c then some initproc else (f.links q).parent :=
      Family.adopt_parent hinit
    have hadopt := hf.adopt hidle hinit halive (hbefore initproc hinit.symm) hkids
    set kids1 := update (update kids current rest) initproc (c :: kids initproc)
      with hkids1
    have hcurrent1 : kids1 current = rest := by
      rw [hkids1, update_of_ne hinit, update_self]
    have hstep : ∃ s1, do_exit.inherit c s = some s1 ∧ s1.Inv f.alive point due ∧
        Sched.Wakes (· = initproc) s s1 ∧ s.Appends s1 ∧ s1.timer_list = s.timer_list ∧
        ((s.procs c).state = .ZOMBIE → ∀ pid store,
          point initproc = .wait pid store → (s1.procs initproc).state ≠ .SLEEPING) := by
      unfold do_exit.inherit
      rw [hinitproc]
      by_cases hz : (s.procs c).state = .ZOMBIE
      · obtain ⟨s1, heq, hinv, hwakes, happends, htimers, hawake⟩ := wakeup_spec hs hf.init
        exact ⟨s1, by rw [if_pos hz, heq], hinv, hwakes, happends, htimers, fun _ => hawake⟩
      · exact ⟨s, by rw [if_neg hz], hs, .refl s, .refl s, rfl, fun hz' => absurd hz' hz⟩
    obtain ⟨s1, heq1, hs1, hwakes1, happends1, htimers1, hawake1⟩ := hstep
    have hbefore1 : ∀ x ≠ current, update before current (some c) x = none := by
      intro x hx
      rw [update_of_ne hx]
      exact hbefore x hx
    obtain ⟨f', s', kids', heq, hf', hreparented, hs', hwakes, happends, htimers, hawake⟩ :=
      ih hadopt (by rwa [htable.1]) (happends1.1.trans hcurrent)
        (hwakes1.initproc.trans hinitproc) hcurrent1 hbefore1 (by simpa using hfuel)
        (by rwa [htable.1])
    rw [htable.1] at hs'
    refine ⟨f', s', kids', ?_, hf', ⟨hreparented.alive.trans htable.1,
      hreparented.nr_process.trans htable.2, fun q => (hreparented.pid q).trans (hpid q),
      fun q => ?_, fun q hq => ?_, hreparented.kids_current, fun d => ?_, fun x hx hxi => ?_⟩, hs',
      hwakes1.trans hwakes, happends1.trans happends, htimers.trans htimers1, ?_⟩
    · unfold do_exit.reparent
      rw [hcptr]
      simp only [hinitproc, hcurrent, heq1, Option.bind_eq_bind, Option.bind_some]
      exact heq
    · rw [hreparented.parent q, hparent q]
      by_cases hrest : q ∈ rest
      · rw [if_pos hrest, if_pos (mem_cons_of_mem c hrest)]
      · rw [if_neg hrest]
        exact if_congr ((or_iff_left hrest).symm.trans mem_cons.symm) rfl rfl
    · rw [hreparented.outside q (by rwa [htable.1])]
      refine Family.adopt_of_ne hinit ?_ (fun heq => hq (heq ▸ halive))
        (fun heq => hq (heq ▸ hf.init)) fun heq => ?_
      · exact fun heq => hq (heq ▸ hf.tree.alive_of_mem halive hc)
      · exact hq (hf.tree.alive_of_mem hf.init (hf.tree.first_mem hf.init heq))
    · rw [hreparented.kids_init d, hkids1, update_self, mem_cons, mem_cons]
      exact or_left_comm.trans or_assoc.symm
    · rw [hreparented.kids_others x hx hxi, hkids1, update_of_ne hxi, update_of_ne hx]
    · rintro ⟨d, hd, hz⟩ pid store hpoint
      rcases mem_cons.mp hd with rfl | hd
      · exact fun hsleep => hawake1 hz pid store hpoint (hwakes.sleeping hsleep)
      · exact hawake ⟨d, hd, (hwakes1.zombie d).mpr hz⟩ pid store hpoint

end

section
variable {k : Kernel} {kids kids' : ℕ → List ℕ} {f : Family}

/-- What `do_exit` does to the processes: the current one has given its children to `initproc`,
and neither its parent nor `initproc` sleeps in `do_wait` if a child of it has exited now. -/
structure Exits (k : Kernel) (kids kids' : ℕ → List ℕ) (f : Family) (s : Sched) : Prop where
  reparented : Reparented k.sched.initproc k.current (kids k.current) kids kids' k.family f
  idleproc : s.idleproc = k.sched.idleproc
  initproc : s.initproc = k.sched.initproc
  zombie : ∀ p ≠ k.current, (s.procs p).state = .ZOMBIE ↔ (k.proc p).state = .ZOMBIE
  sleeping : ∀ p ≠ k.current, (s.procs p).state = .SLEEPING → (k.proc p).state = .SLEEPING
  outside : ∀ p ∉ k.family.alive, (s.procs p).state = (k.proc p).state ∧
    (s.procs p).wait_state = (k.proc p).wait_state
  parent : ∀ w pid store, k.point w = .wait pid store → (s.procs w).state = .SLEEPING →
    w ≠ k.current → (k.family.links k.current).parent ≠ some w
  inherits : ∀ pid store, k.point k.sched.initproc = .wait pid store →
    (s.procs k.sched.initproc).state = .SLEEPING →
    ∀ c ∈ kids k.current, (s.procs c).state ≠ .ZOMBIE

section
variable (h : k.Inv kids) (hexits : Exits k kids kids' f s)
include h hexits

theorem Exits.forks (hfork : k.forking k.current = none) :
    Forks { k.setPoint .exit with family := f, sched := s, due := true } := by
  have halive := hexits.reparented.alive
  have hother : ∀ {p c}, k.forking p = some c → p ≠ k.current := by
    rintro p c hp rfl
    cases hfork.symm.trans hp
  refine ⟨fun p c hp => ?_, fun p c hp pid store hpoint => ?_, fun p c hp => ?_, h.forks.unique, ?_⟩
  · obtain ⟨hpalive, hpidle, hpzombie⟩ := h.forks.parent p c hp
    rw [halive, hexits.idleproc]
    exact ⟨hpalive, hpidle, fun hz => hpzombie ((hexits.zombie p (hother hp)).mp hz)⟩
  · exact h.forks.point p c hp pid store ((update_of_ne (hother hp) _ _).symm.trans hpoint)
  · obtain ⟨hnot, hlinks, hstate, hcwait, hplace⟩ := h.forks.fresh p c hp
    have hcc : c ≠ k.current := fun heq => hnot (heq ▸ h.sched.runs.current)
    obtain ⟨hsame, hsame_wait⟩ := hexits.outside c hnot
    rw [halive, hexits.reparented.outside c hnot]
    exact ⟨hnot, hlinks, hsame.trans hstate, hsame_wait.trans hcwait,
      (update_of_ne hcc _ _).trans hplace⟩
  · rw [hexits.reparented.nr_process, halive]
    exact h.forks.number

theorem Exits.childless {z : ℕ} (hz : z ∈ k.family.alive) (hzombie : (s.procs z).state = .ZOMBIE) :
    kids' z = [] := by
  rcases eq_or_ne z k.current with rfl | hzc
  · exact hexits.reparented.kids_current
  · have hz' := (hexits.zombie z hzc).mp hzombie
    have hzi : z ≠ k.sched.initproc := by
      rintro rfl
      exact h.init hz'
    rw [hexits.reparented.kids_others z hzc hzi]
    exact h.zombie z hz hz'

/-- A waiter has no child that has exited before, and would have been woken up if one had come. -/
theorem Exits.waiting {w : ℕ} {pid : ℤ} {store : Bool} (hw : w ∈ k.family.alive)
    (hpoint : update k.point k.current .exit w = .wait pid store)
    (hsleeping : (s.procs w).state = .SLEEPING) :
    (∃ c ∈ kids' w, pid ≠ 0 → (f.links c).pid = pid) ∧
      ∀ c ∈ kids' w, (pid ≠ 0 → (f.links c).pid = pid) → (s.procs c).state ≠ .ZOMBIE := by
  have hreparented := hexits.reparented
  have hwc : w ≠ k.current := by
    rintro rfl
    cases (update_self _ _ _).symm.trans hpoint
  have hpoint0 : k.point w = .wait pid store := (update_of_ne hwc _ _).symm.trans hpoint
  obtain ⟨⟨d, hd, hawaited⟩, hnone⟩ :=
    h.waiting w hw pid store hpoint0 (hexits.sleeping w hwc hsleeping)
  have hold : ∀ {e}, e ∈ kids w → k.Awaited pid e → (s.procs e).state ≠ .ZOMBIE := by
    intro e he hawaited' hz
    rcases eq_or_ne e k.current with rfl | hec
    · exact hexits.parent w pid store hpoint0 hsleeping hwc ((h.family.tree.mem w hw _).mp he).2
    · exact hnone e he hawaited' ((hexits.zombie e hec).mp hz)
  rcases eq_or_ne w k.sched.initproc with rfl | hwi
  · refine ⟨⟨d, (hreparented.kids_init d).mpr (.inr hd), fun hne =>
      (hreparented.pid d).trans (hawaited hne)⟩, fun e he hawaited' => ?_⟩
    rcases (hreparented.kids_init e).mp he with hmoved | hkid
    · exact hexits.inherits pid store hpoint0 hsleeping e hmoved
    · exact hold hkid fun hne => (hreparented.pid e).symm.trans (hawaited' hne)
  · rw [hreparented.kids_others w hwc hwi]
    exact ⟨⟨d, hd, fun hne => (hreparented.pid d).trans (hawaited hne)⟩, fun e he hawaited' =>
      hold he fun hne => (hreparented.pid e).symm.trans (hawaited' hne)⟩

theorem Exits.evolves (hrun : (k.proc k.current).state = .RUNNABLE)
    (hcode : ∀ p ≠ k.current, (s.procs p).exit_code = (k.proc p).exit_code) :
    k.Evolves { k.setPoint .exit with family := f, sched := s, due := true } := by
  have hreparented := hexits.reparented
  refine ⟨hexits.idleproc, hexits.initproc, fun p _ hp => update_of_ne hp _ _,
    fun p hp hne => ?_, fun z hz hzombie => ?_⟩
  · rw [hreparented.alive]
    refine ⟨hp, hreparented.pid p, (hreparented.parent p).trans (if_neg fun hmem => ?_)⟩
    exact hne ((h.family.tree.mem _ h.sched.runs.current p).mp hmem).2
  · have hzc : z ≠ k.current := by
      rintro rfl
      cases hrun.symm.trans hzombie
    exact ⟨(hexits.zombie z hzc).mpr hzombie, hcode z hzc⟩

end

theorem Inv.do_exit (h : k.Inv kids) (hdue : k.due = false)
    (hidle : k.current ≠ k.sched.idleproc) (hinit : k.current ≠ k.sched.initproc)
    (hsleep : k.point k.current ≠ .sleep) (hqueue : ∀ q, k.point k.current ≠ .queue q)
    (hfork : k.forking k.current = none) (error_code : ℤ) :
    ∃ k' kids', k.do_exit error_code = some k' ∧ Inv kids' k' ∧ k.Evolves k' ∧
      k'.family.alive = k.family.alive ∧ k.sched.Appends k'.sched := by
  have hcurrent : k.current ∈ k.family.alive := h.sched.runs.current
  obtain ⟨hrun, hwait⟩ := h.running hdue
  set s1 := k.sched.modify k.current fun x => { x with state := .ZOMBIE, exit_code := error_code }
    with hs1
  have hinv1 : s1.Inv k.family.alive (update k.point k.current .exit) true :=
    h.sched.setCurrent (h.sched.waiters.unlisted hsleep hqueue) hidle
      ((Sched.settled_zombie rfl).mpr ⟨hwait, rfl⟩) nofun
  obtain ⟨parent, hparent⟩ := h.family.parent _ hcurrent hidle
  have hpalive := h.family.tree.parent _ hcurrent _ hparent
  obtain ⟨s2, heq2, hinv2, hwakes2, happends2, htimers2, hawake2⟩ := wakeup_spec hinv1 hpalive
  obtain ⟨f', s', kids', heq, hf', hreparented, hinv', hwakes, happends, htimers, hawake⟩ :=
    reparent_spec h.family hinv2 happends2.1 hidle hwakes2.initproc hinit rfl (fun _ _ => rfl)
      (h.family.kids_length_le hcurrent)
  have hwakes' : Sched.Wakes (fun p => p = parent ∨ p = k.sched.initproc) s1 s' :=
    (hwakes2.mono fun _ => .inl).trans (hwakes.mono fun _ => .inr)
  have hproc : ∀ {p}, p ≠ k.current → s1.procs p = k.proc p := fun hp => Sched.modify_of_ne _ hp
  have hpoint : ∀ {p}, p ≠ k.current → update k.point k.current .exit p = k.point p :=
    fun hp => update_of_ne hp _ _
  have hexits : Exits k kids kids' f' s' := by
    refine ⟨hreparented, hwakes'.idleproc, hwakes'.initproc, fun p hp => ?_, fun p hp hs => ?_,
      fun p hp => ?_, fun w pid store hwpoint hs hwc hup => ?_,
      fun pid store hwpoint hs c hc hz => ?_⟩
    · rw [hwakes'.zombie p, hproc hp]
    · exact hproc hp ▸ hwakes'.sleeping hs
    · have hpc : p ≠ k.current := fun heq => hp (heq ▸ hcurrent)
      rw [← hproc hpc]
      rcases hwakes'.state p with hsame | ⟨rfl | rfl, -⟩
      · exact hsame
      · exact absurd hpalive hp
      · exact absurd h.family.init hp
    · cases hparent.symm.trans hup
      exact hawake2 pid store ((hpoint hwc).trans hwpoint) (hwakes.sleeping hs)
    · exact hawake ⟨c, hc, (hwakes.zombie c).mp hz⟩ pid store ((hpoint hinit.symm).trans hwpoint) hs
  refine ⟨{ k.setPoint .exit with family := f', sched := s', due := true }, kids', ?_,
    ⟨?_, ?_, ?_, hexits.forks h hfork, fun hz => ?_, fun z hz => ?_, fun w hw pid store => ?_,
      fun _ pid store hplace => ?_⟩,
    hexits.evolves h hrun fun p hp => (hwakes'.exit_code p).trans (by rw [hproc hp]),
    hreparented.alive, happends2.trans happends⟩
  · simp only [Kernel.do_exit, guard, if_pos hidle, if_pos hinit, hparent, ← hs1,
      Option.pure_def, Option.bind_eq_bind, Option.bind_some, heq2, heq]
  · rwa [hexits.idleproc, hexits.initproc]
  · rwa [hreparented.alive]
  · unfold Sched.Ticking
    rw [htimers.trans htimers2]
    exact h.ticking
  · replace hz : (s'.procs s'.initproc).state = .ZOMBIE := hz
    rw [hexits.initproc] at hz
    exact h.init ((hexits.zombie _ hinit.symm).mp hz)
  · exact hexits.childless h (hreparented.alive ▸ hz)
  · exact hexits.waiting h (hreparented.alive ▸ hw)
  · have heq : s'.current = k.current := happends.1.trans happends2.1
    replace hplace : update k.point k.current .exit s'.current = .wait pid store := hplace
    rw [heq, update_self] at hplace
    cases hplace

end

end ucore.Kernel
