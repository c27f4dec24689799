import Mips32S.Kernel.Process.Invariant

open Function Option Finset

namespace ucore.Kernel

variable {k : Kernel} {kids : ℕ → List ℕ} {c : ℕ}

def forkers (k : Kernel) : Finset ℕ := k.family.alive.filter fun p => k.forking p ≠ none

theorem Inv.alloc (h : k.Inv kids) (hfree : k.Free)
    (hroom : k.family.nr_process < MAX_PROCESS) (hnew : c ∉ k.family.alive)
    (hunused : ∀ p ∈ k.family.alive, k.forking p ≠ some c) :
    let k' : Kernel := { k with
      family := k.family.alloc_proc (some k.current) c
      sched := k.sched.alloc_proc c
      point := update k.point c .free
      forking := update k.forking k.current (some c) }
    Inv kids k' ∧ k.Evolves k' := by
  intro k'
  have hold : ∀ {p}, p ∈ k.family.alive → p ≠ c := fun hp heq => hnew (heq ▸ hp)
  have hproc : ∀ {p}, p ≠ c → k'.proc p = k.proc p := fun hp => update_of_ne hp _ _
  have hlinks : ∀ {p}, p ≠ c → k'.family.links p = k.family.links p := fun hp =>
    update_of_ne hp _ _
  have hpoint : ∀ {p}, p ≠ c → k'.point p = k.point p := fun hp => update_of_ne hp _ _
  have hcurrent : k.current ∈ k.family.alive := h.sched.runs.current
  have hfamily := h.family.alloc_proc (some k.current) hnew
  have hforking : ∀ p c', k'.forking p = some c' →
      p = k.current ∧ c' = c ∨ p ≠ k.current ∧ k.forking p = some c' ∧ c' ≠ c := by
    intro p c' hfork
    replace hfork : update k.forking k.current (some c) p = some c' := hfork
    rcases eq_or_ne p k.current with rfl | hp
    · rw [update_self] at hfork
      exact .inl ⟨rfl, (some_inj.mp hfork).symm⟩
    · rw [update_of_ne hp] at hfork
      refine .inr ⟨hp, hfork, ?_⟩
      rintro rfl
      exact hunused p (h.forks.parent p c' hfork).1 hfork
  refine ⟨⟨hfamily, ?_, h.ticking, ⟨fun p c' hfork => ?_, fun p c' hfork pid store => ?_,
    fun p c' hfork => ?_, fun p q c' hp hq => ?_, ?_⟩, ?_, fun z hz hzombie => ?_,
    fun w hw pid store hwait hsleep => ?_,
    fun hdue => ?_⟩, ⟨rfl, rfl, fun p hp _ => hpoint (hold hp), fun p hp _ => ?_,
      fun z hz hzombie => ?_⟩⟩
  · exact h.sched.outside (fun p hp => hproc (hold hp)) fun p hp => hpoint (hold hp)
  · rcases hforking p c' hfork with ⟨rfl, rfl⟩ | ⟨-, hfork', -⟩
    · refine ⟨hcurrent, hfree.2.1, ?_⟩
      rw [hproc (hold hcurrent), (h.running hfree.1).1]
      exact nofun
    · obtain ⟨halive, hidle, hzombie⟩ := h.forks.parent p c' hfork'
      rw [hproc (hold halive)]
      exact ⟨halive, hidle, hzombie⟩
  · rcases hforking p c' hfork with ⟨rfl, rfl⟩ | ⟨-, hfork', -⟩
    · rw [hpoint (hold hcurrent), hfree.2.2]
      exact nofun
    · rw [hpoint (hold (h.forks.parent p c' hfork').1)]
      exact h.forks.point p c' hfork' pid store
  · rcases hforking p c' hfork with ⟨rfl, rfl⟩ | ⟨-, hfork', hne⟩
    · have hself : k'.proc c' = ⟨.UNINIT, false, 0, (k.proc c').exit_code, 0, false, 0⟩ :=
        update_self _ _ _
      refine ⟨hnew, update_self _ _ _, ?_, ?_, update_self _ _ _⟩ <;> rw [hself]
    · rw [hproc hne, hlinks hne, hpoint hne]
      exact h.forks.fresh p c' hfork'
  · rcases hforking p c' hp with ⟨rfl, rfl⟩ | ⟨-, hp', hne⟩ <;>
      rcases hforking q _ hq with ⟨rfl, heq⟩ | ⟨-, hq', hne'⟩
    · rfl
    · exact absurd rfl hne'
    · exact absurd heq hne
    · exact h.forks.unique p q c' hp' hq'
  · -- there are no more processes inside `do_fork` than processes apart from `idleproc`
    have hcard := h.family.card_alive
    have hsub : k'.forkers ⊆ k.family.alive.erase k.sched.idleproc := by
      intro p hp
      obtain ⟨halive, hfork⟩ := mem_filter.mp hp
      refine mem_erase.mpr ⟨?_, halive⟩
      rintro rfl
      obtain ⟨c', hc'⟩ := ne_none_iff_exists'.mp hfork
      rcases hforking _ c' hc' with ⟨heq, -⟩ | ⟨-, hfork', -⟩
      · exact hfree.2.1 heq.symm
      · exact (h.forks.parent _ c' hfork').2.1 rfl
    have hle := card_le_card hsub
    rw [card_erase_of_mem h.family.idle] at hle
    have hpos := card_pos.mpr ⟨_, h.family.idle⟩
    have hmax : MAX_PID = 8192 := rfl
    have hmax' : MAX_PROCESS = 4096 := rfl
    change k.family.nr_process + (k'.forkers.card : ℤ) < MAX_PID
    omega
  · have hinit := hold h.family.init
    exact fun hz => h.init (by rwa [← hproc hinit])
  · rw [hproc (hold hz)] at hzombie
    exact h.zombie z hz hzombie
  · rw [hpoint (hold hw)] at hwait
    rw [hproc (hold hw)] at hsleep
    obtain ⟨⟨d, hd, hawaited⟩, hnone⟩ := h.waiting w hw pid store hwait hsleep
    have hkid : ∀ {d}, d ∈ kids w → d ≠ c := fun hd => hold (h.family.tree.alive_of_mem hw hd)
    refine ⟨⟨d, hd, fun hpid => ?_⟩, fun e he hawaited' => ?_⟩
    · rw [hlinks (hkid hd)]
      exact hawaited hpid
    · rw [hproc (hkid he)]
      refine hnone e he fun hpid => ?_
      rw [← hlinks (hkid he)]
      exact hawaited' hpid
  · cases hfree.1.symm.trans hdue
  · rw [hlinks (hold hp)]
    exact ⟨hp, rfl, rfl⟩
  · rw [hproc (hold hz)]
    exact ⟨hzombie, rfl⟩

theorem Inv.fork_fail (h : k.Inv kids) :
    Inv kids { k with forking := update k.forking k.current none } ∧
      k.Evolves { k with forking := update k.forking k.current none } := by
  have hforking : ∀ {p c}, update k.forking k.current none p = some c → k.forking p = some c := by
    intro p c hfork
    rcases eq_or_ne p k.current with rfl | hp
    · rw [update_self] at hfork
      cases hfork
    · rwa [update_of_ne hp] at hfork
  refine ⟨⟨h.family, h.sched, h.ticking, ⟨fun p c hfork => h.forks.parent p c (hforking hfork),
    fun p c hfork => h.forks.point p c (hforking hfork),
    fun p c hfork => h.forks.fresh p c (hforking hfork),
    fun p q c hp hq => h.forks.unique p q c (hforking hp) (hforking hq), ?_⟩, h.init, h.zombie,
    h.waiting, h.asleep⟩, ⟨rfl, rfl, fun _ _ _ => rfl, fun _ hp _ => ⟨hp, rfl, rfl⟩,
    fun _ _ hz => ⟨hz, rfl⟩⟩⟩
  have hsub : forkers { k with forking := update k.forking k.current none } ⊆ k.forkers := by
    intro p hp
    obtain ⟨halive, hfork⟩ := mem_filter.mp hp
    obtain ⟨c, hc⟩ := ne_none_iff_exists'.mp hfork
    exact mem_filter.mpr ⟨halive, by rw [hforking hc]; exact nofun⟩
  have hle := card_le_card hsub
  have hnumber := h.forks.number
  change k.family.nr_process + (k.forkers.card : ℤ) < MAX_PID at hnumber
  change k.family.nr_process + ((forkers _).card : ℤ) < MAX_PID
  omega

theorem Inv.fork_finish (h : k.Inv kids) (hfree : k.Free) (hfork : k.forking k.current = some c) :
    ∃ pid f s, k.family.enroll c = some (pid, f) ∧ k.sched.wakeup_proc c = some s ∧ 0 < pid ∧
      Inv (update (update kids k.current (c :: kids k.current)) c [])
        { k with family := f, sched := s, forking := update k.forking k.current none } ∧
      k.Evolves { k with family := f, sched := s, forking := update k.forking k.current none } ∧
      f.alive = insert c k.family.alive ∧ c ∉ k.family.alive ∧ k.sched.Appends s := by
  obtain ⟨hnew, hlinks, hstate, hwait, hplace⟩ := h.forks.fresh _ c hfork
  have hcurrent : k.current ∈ k.family.alive := h.sched.runs.current
  have hold : ∀ {p}, p ∈ k.family.alive → p ≠ c := fun hp heq => hnew (heq ▸ hp)
  have hnumber := h.forks.number
  obtain ⟨pid, f, henroll, hpid, hfamily, halive, hnr, hparent, hpids, houtside⟩ :=
    h.family.enroll hnew hcurrent hlinks (by omega)
  obtain ⟨s, hwakeup, hsched, hwakes, happends, -, htimers, -⟩ :=
    (h.sched.insert hnew hstate hwait hplace).wakeup_proc (mem_insert_self c _)
      (by rw [show (k.sched.procs c).state = .UNINIT from hstate]; exact nofun)
  have hzombie : ∀ p, (s.procs p).state = .ZOMBIE ↔ (k.proc p).state = .ZOMBIE := hwakes.zombie
  have hrunning : (k.proc k.current).state ≠ .ZOMBIE := by
    rw [(h.running hfree.1).1]
    exact nofun
  have hforking : ∀ p c', update k.forking k.current none p = some c' →
      k.forking p = some c' ∧ c' ≠ c := by
    intro p c' hp
    rcases eq_or_ne p k.current with rfl | hne
    · rw [update_self] at hp
      cases hp
    · rw [update_of_ne hne] at hp
      refine ⟨hp, ?_⟩
      rintro rfl
      exact hne (h.forks.unique p _ c' hp hfork)
  refine ⟨pid, f, s, henroll, hwakeup, hpid, ⟨?_, ?_, ?_, ⟨fun p c' hp => ?_,
    fun p c' hp => h.forks.point p c' (hforking p c' hp).1, fun p c' hp => ?_,
    fun p q c' hp hq => ?_, ?_⟩, fun hz => ?_, fun z hz hz' => ?_,
    fun w hw pid' store hpoint hsleep => ?_, fun hdue => ?_⟩,
    ⟨hwakes.idleproc, hwakes.initproc, fun _ _ _ => rfl, fun p hp _ => ?_, fun z _ hz => ?_⟩,
    halive, hnew, happends⟩
  · rwa [hwakes.idleproc, hwakes.initproc]
  · rwa [halive]
  · unfold Sched.Ticking
    rw [htimers]
    exact h.ticking
  · obtain ⟨hp', -⟩ := hforking p c' hp
    obtain ⟨hpalive, hidle, hpzombie⟩ := h.forks.parent p c' hp'
    rw [halive, hwakes.idleproc]
    exact ⟨mem_insert_of_mem hpalive, hidle, fun hz => hpzombie ((hzombie p).mp hz)⟩
  · obtain ⟨hp', hne⟩ := hforking p c' hp
    obtain ⟨hnot, hlinks', hstate', hwait', hplace'⟩ := h.forks.fresh p c' hp'
    rw [halive, houtside c' hnot hne]
    refine ⟨fun hmem => ?_, hlinks', ?_⟩
    · rcases mem_insert.mp hmem with heq | hmem
      · exact hne heq
      · exact hnot hmem
    · rcases hwakes.state c' with ⟨hs, hw⟩ | ⟨heq, -⟩
      · exact ⟨hs.trans hstate', hw.trans hwait', hplace'⟩
      · exact absurd heq hne
  · exact h.forks.unique p q c' (hforking p c' hp).1 (hforking q c' hq).1
  · have hnone : k.forking c = none := by
      by_contra hsome
      obtain ⟨c', hc'⟩ := ne_none_iff_exists'.mp hsome
      exact hnew (h.forks.parent c c' hc').1
    have heq : (f.alive.filter fun p => update k.forking k.current none p ≠ none) =
        k.forkers.erase k.current := by
      ext p
      rw [halive, mem_filter, mem_insert, mem_erase, forkers, mem_filter]
      rcases eq_or_ne p k.current with rfl | hp
      · simp
      · rw [update_of_ne hp]
        refine ⟨?_, fun hand => ⟨.inr hand.2.1, hand.2.2⟩⟩
        rintro ⟨rfl | hmem, hsome⟩
        · exact absurd hnone hsome
        · exact ⟨hp, hmem, hsome⟩
    have hmem : k.current ∈ k.forkers := mem_filter.mpr ⟨hcurrent, by rw [hfork]; exact nofun⟩
    have hcard := card_erase_of_mem hmem
    have hpos := card_pos.mpr ⟨_, hmem⟩
    change k.family.nr_process + (k.forkers.card : ℤ) < MAX_PID at hnumber
    rw [hnr, heq]
    omega
  · exact h.init ((hzombie _).mp (hwakes.initproc ▸ hz))
  · rcases eq_or_ne z c with rfl | hne
    · exact update_self _ _ _
    · rw [halive] at hz
      have hzc : z ≠ k.current := by
        rintro rfl
        exact hrunning ((hzombie _).mp hz')
      rw [update_of_ne hne, update_of_ne hzc]
      exact h.zombie z ((mem_insert.mp hz).resolve_left hne) ((hzombie z).mp hz')
  · have hwc : w ≠ c := by
      rintro rfl
      cases hplace.symm.trans hpoint
    have hwcur : w ≠ k.current := by
      rintro rfl
      cases hfree.2.2.symm.trans hpoint
    rw [halive] at hw
    have hw' := (mem_insert.mp hw).resolve_left hwc
    have hkid : ∀ {d}, d ∈ kids w → d ≠ c := fun hd => hold (h.family.tree.alive_of_mem hw' hd)
    obtain ⟨⟨d, hd, hawaited⟩, hnone⟩ := h.waiting w hw' pid' store hpoint (hwakes.sleeping hsleep)
    rw [update_of_ne hwc, update_of_ne hwcur]
    refine ⟨⟨d, hd, fun hne => (hpids d (hkid hd)).trans (hawaited hne)⟩,
      fun e he hawaited' hz => hnone e he (fun hne => ?_) ((hzombie e).mp hz)⟩
    exact (hpids e (hkid he)).symm.trans (hawaited' hne)
  · cases hfree.1.symm.trans hdue
  · rw [halive]
    exact ⟨mem_insert_of_mem hp, hpids p (hold hp), hparent p⟩
  · exact ⟨(hzombie z).mpr hz, hwakes.exit_code z⟩

end ucore.Kernel
