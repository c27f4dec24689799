import Mips32S.Kernel.Process.Pid
import Mips32S.Kernel.Process.Tree

open Function List

namespace ucore.Family

variable {f f1 : Family} {idleproc initproc proc parent current x : ℕ} {pid next_safe : ℤ}
  {links : ℕ → proc_links}

/-- `proc_list` and `hash_list` hold exactly the processes apart from `idleproc`, under
different numbers; `nr_process` counts `idleproc` too. -/
structure Listed (idleproc : ℕ) (f : Family) : Prop where
  nodup : f.proc_list.Nodup
  mem : ∀ p, p ∈ f.proc_list ↔ p ∈ f.alive ∧ p ≠ idleproc
  hash_nodup : ∀ h, (f.hash_list h).Nodup
  hash_mem : ∀ h p, p ∈ f.hash_list h ↔ p ∈ f.proc_list ∧ pid_hashfn (f.links p).pid = h
  pid : ∀ p ∈ f.proc_list, 1 ≤ (f.links p).pid ∧ (f.links p).pid < MAX_PID
  unique : ∀ p ∈ f.proc_list, ∀ q ∈ f.proc_list, (f.links p).pid = (f.links q).pid → p = q
  number : f.nr_process = f.proc_list.length + 1
  window : f.PidWindow

/-- The consistency of the process table. -/
structure Inv (idleproc initproc : ℕ) (before : ℕ → Option ℕ) (kids : ℕ → List ℕ) (f : Family) :
    Prop where
  tree : Tree before kids f.links f.alive
  listed : f.Listed idleproc
  idle : idleproc ∈ f.alive
  idle_parent : (f.links idleproc).parent = none
  init : initproc ∈ f.alive
  init_parent : (f.links initproc).parent = some idleproc
  parent : ∀ p ∈ f.alive, p ≠ idleproc → ∃ x, (f.links p).parent = some x

theorem Listed.find_proc_eq (h : f.Listed idleproc) :
    f.find_proc pid = some proc ↔ proc ∈ f.proc_list ∧ (f.links proc).pid = pid := by
  unfold find_proc
  constructor
  · intro hfind
    split at hfind
    · have hmem := mem_of_find?_eq_some hfind
      have hpid := find?_some hfind
      exact ⟨((h.hash_mem _ proc).mp hmem).1, of_decide_eq_true hpid⟩
    · cases hfind
  · rintro ⟨hmem, rfl⟩
    obtain ⟨hpos, hlt⟩ := h.pid proc hmem
    rw [if_pos ⟨by omega, hlt⟩]
    have hhash := (h.hash_mem _ proc).mpr ⟨hmem, rfl⟩
    cases hfind : (f.hash_list (pid_hashfn (f.links proc).pid)).find? fun p =>
        (f.links p).pid = (f.links proc).pid with
    | none => exact absurd (find?_eq_none.mp hfind proc hhash) (by simp)
    | some q =>
      have hq := ((h.hash_mem _ q).mp (mem_of_find?_eq_some hfind)).1
      have hpid := find?_some hfind
      rw [h.unique q hq proc hmem (of_decide_eq_true hpid)]

theorem enroll_eq (hget : f.get_pid = some (pid, f1)) (hup : (f1.links proc).parent = some parent) :
    f.enroll proc = some (pid, { f1 with
      links := ((f1.modify proc fun x => { x with pid }).link parent proc).links
      alive := insert proc f1.alive
      proc_list := proc :: f1.proc_list
      hash_list := update f1.hash_list (pid_hashfn pid) (proc :: f1.hash_list (pid_hashfn pid))
      nr_process := f1.nr_process + 1 }) := by
  simp [enroll, hget, set_links, hash_proc, modify, hup, link_eq]

theorem release_eq (hup : (f.links proc).parent = some parent) (halive : proc ∈ f.alive) :
    f.release proc = some { f with
      links := (f.unlink parent proc).links
      alive := f.alive.erase proc
      proc_list := f.proc_list.erase proc
      hash_list := update f.hash_list (pid_hashfn (f.links proc).pid)
        ((f.hash_list (pid_hashfn (f.links proc).pid)).erase proc)
      nr_process := f.nr_process - 1 } := by
  simp [release, unhash_proc, remove_links, kfree, hup, unlink_eq, halive]

theorem Listed.insert (h : f.Listed idleproc) (hproc : proc ∉ f.alive) (hne : proc ≠ idleproc)
    (hpid : (links proc).pid = pid) (hlinks : ∀ q ≠ proc, (links q).pid = (f.links q).pid)
    (hrange : 1 ≤ pid ∧ pid < MAX_PID) (hfree : ∀ p ∈ f.proc_list, (f.links p).pid ≠ pid)
    (hwindow : PidWindow { f with last_pid := pid, next_safe }) :
    Listed idleproc { f with
      links := links
      alive := Insert.insert proc f.alive
      proc_list := proc :: f.proc_list
      hash_list := update f.hash_list (pid_hashfn pid) (proc :: f.hash_list (pid_hashfn pid))
      nr_process := f.nr_process + 1
      last_pid := pid
      next_safe := next_safe } := by
  have hnot : proc ∉ f.proc_list := fun hmem => hproc ((h.mem proc).mp hmem).1
  have hold : ∀ {q}, q ∈ f.proc_list → (links q).pid = (f.links q).pid := fun {q} hq =>
    hlinks q fun heq => hnot (heq ▸ hq)
  refine ⟨nodup_cons.mpr ⟨hnot, h.nodup⟩, fun p => ?_, fun i => ?_, fun i p => ?_,
    fun p hp => ?_, fun p hp q hq heq => ?_, ?_, ⟨hrange.1, hwindow.next_safe, fun p hp => ?_⟩⟩
  · have hne' : p = proc → p ≠ idleproc := fun heq => heq ▸ hne
    rw [mem_cons, h.mem, Finset.mem_insert, or_and_right, and_iff_left_of_imp hne']
  · dsimp only
    rcases eq_or_ne i (pid_hashfn pid) with rfl | hi
    · rw [update_self, nodup_cons]
      exact ⟨fun hmem => hnot ((h.hash_mem _ proc).mp hmem).1, h.hash_nodup _⟩
    · rw [update_of_ne hi]
      exact h.hash_nodup i
  · dsimp only
    rcases eq_or_ne p proc with rfl | hp
    · rw [hpid]
      rcases eq_or_ne i (pid_hashfn pid) with rfl | hi
      · simp
      · rw [update_of_ne hi]
        exact iff_of_false (fun hmem => hnot ((h.hash_mem i p).mp hmem).1) fun hand => hi hand.2.symm
    · rw [mem_cons, or_iff_right hp, hlinks p hp, ← h.hash_mem i p]
      rcases eq_or_ne i (pid_hashfn pid) with rfl | hi
      · rw [update_self, mem_cons, or_iff_right hp]
      · rw [update_of_ne hi]
  · rcases mem_cons.mp hp with rfl | hp
    · rwa [hpid]
    · rw [hold hp]
      exact h.pid p hp
  · rcases mem_cons.mp hp with rfl | hp' <;> rcases mem_cons.mp hq with rfl | hq'
    · rfl
    · rw [hpid, hold hq'] at heq
      exact absurd heq.symm (hfree q hq')
    · rw [hpid, hold hp'] at heq
      exact absurd heq (hfree p hp')
    · rw [hold hp', hold hq'] at heq
      exact h.unique p hp' q hq' heq
  · rw [h.number, length_cons]
    rfl
  · rcases mem_cons.mp hp with rfl | hp
    · rw [hpid]
      exact .inl (le_refl pid)
    · rw [hold hp]
      exact hwindow.free p hp

theorem Listed.erase (h : f.Listed idleproc) (hproc : proc ∈ f.proc_list)
    (hlinks : ∀ q, (links q).pid = (f.links q).pid) :
    Listed idleproc { f with
      links := links
      alive := f.alive.erase proc
      proc_list := f.proc_list.erase proc
      hash_list := update f.hash_list (pid_hashfn (f.links proc).pid)
        ((f.hash_list (pid_hashfn (f.links proc).pid)).erase proc)
      nr_process := f.nr_process - 1 } := by
  have hmem : ∀ {p}, p ∈ f.proc_list.erase proc ↔ p ≠ proc ∧ p ∈ f.proc_list :=
    h.nodup.mem_erase_iff
  refine ⟨h.nodup.erase proc, fun p => ?_, fun i => ?_, fun i p => ?_, fun p hp => ?_,
    fun p hp q hq heq => ?_, ?_, ⟨h.window.last_pid, h.window.next_safe, fun p hp => ?_⟩⟩
  · rw [hmem, h.mem, Finset.mem_erase, and_assoc]
  · dsimp only
    rcases eq_or_ne i (pid_hashfn (f.links proc).pid) with rfl | hi
    · rw [update_self]
      exact (h.hash_nodup _).erase proc
    · rw [update_of_ne hi]
      exact h.hash_nodup i
  · dsimp only
    rw [hmem, hlinks, and_assoc, ← h.hash_mem i p]
    rcases eq_or_ne i (pid_hashfn (f.links proc).pid) with rfl | hi
    · rw [update_self, (h.hash_nodup _).mem_erase_iff]
    · rw [update_of_ne hi]
      refine ⟨fun hp => ⟨?_, hp⟩, And.right⟩
      rintro rfl
      exact hi ((h.hash_mem i p).mp hp).2.symm
  · rw [hlinks]
    exact h.pid p (mem_of_mem_erase hp)
  · rw [hlinks, hlinks] at heq
    exact h.unique p (mem_of_mem_erase hp) q (mem_of_mem_erase hq) heq
  · dsimp only
    have hpos := length_pos_of_mem hproc
    rw [h.number, length_erase_of_mem hproc]
    omega
  · rw [hlinks]
    exact h.window.free p (mem_of_mem_erase hp)

variable {kids : ℕ → List ℕ} {before : ℕ → Option ℕ}

section
variable (h : f.Inv idleproc initproc before kids)
include h

theorem Inv.card_alive : (f.alive.card : ℤ) = f.nr_process := by
  have hcard : f.proc_list.toFinset = f.alive.erase idleproc := by
    ext p
    rw [mem_toFinset, h.listed.mem, Finset.mem_erase, and_comm]
  have hlen := toFinset_card_of_nodup h.listed.nodup
  rw [hcard, Finset.card_erase_of_mem h.idle] at hlen
  have hpos := Finset.card_pos.mpr ⟨_, h.idle⟩
  have hnumber := h.listed.number
  omega

theorem Inv.kids_length_le (hx : x ∈ f.alive) : (kids x).length ≤ f.alive.card := by
  rw [← toFinset_card_of_nodup (h.tree.nodup x hx)]
  exact Finset.card_le_card fun c hc => h.tree.alive_of_mem hx (mem_toFinset.mp hc)

theorem Inv.alloc_proc (current : Option ℕ) (hproc : proc ∉ f.alive) :
    (f.alloc_proc current proc).Inv idleproc initproc before kids := by
  have hlinks : ∀ {p}, p ∈ f.alive → (f.alloc_proc current proc).links p = f.links p := by
    intro p hp
    have hne : p ≠ proc := fun heq => hproc (heq ▸ hp)
    exact update_of_ne hne _ _
  have hlist : ∀ {p}, p ∈ f.proc_list → (f.alloc_proc current proc).links p = f.links p :=
    fun hp => hlinks ((h.listed.mem _).mp hp).1
  refine ⟨h.tree.congr fun x hx => hlinks hx, ⟨h.listed.nodup, h.listed.mem, h.listed.hash_nodup,
    fun i p => ?_, fun p hp => ?_, fun p hp q hq heq => ?_, h.listed.number,
    h.listed.window.last_pid, h.listed.window.next_safe, fun p hp => ?_⟩, h.idle, ?_, h.init, ?_,
    fun p hp hne => ?_⟩
  · refine (h.listed.hash_mem i p).trans (and_congr_right fun hp => ?_)
    rw [hlist hp]
  · rw [hlist hp]
    exact h.listed.pid p hp
  · rw [hlist hp, hlist hq] at heq
    exact h.listed.unique p hp q hq heq
  · rw [hlist hp]
    exact h.listed.window.free p hp
  · rw [hlinks h.idle]
    exact h.idle_parent
  · rw [hlinks h.init]
    exact h.init_parent
  · rw [hlinks hp]
    exact h.parent p hp hne

end

section
variable (h : f.Inv idleproc initproc (fun _ => none) kids)
include h

theorem Inv.enroll (hproc : proc ∉ f.alive) (hparent : parent ∈ f.alive)
    (hfresh : f.links proc = ⟨-1, some parent, none, none, none⟩) (hroom : f.nr_process < MAX_PID) :
    ∃ pid f', f.enroll proc = some (pid, f') ∧ 0 < pid ∧ f'.Inv idleproc initproc (fun _ => none)
        (update (update kids parent (proc :: kids parent)) proc []) ∧
      f'.alive = insert proc f.alive ∧ f'.nr_process = f.nr_process + 1 ∧
      (∀ q, (f'.links q).parent = (f.links q).parent) ∧
      (∀ q ≠ proc, (f'.links q).pid = (f.links q).pid) ∧
      ∀ q ∉ f.alive, q ≠ proc → f'.links q = f.links q := by
  have hold : ∀ {q}, q ∈ f.alive → q ≠ proc := fun hq heq => hproc (heq ▸ hq)
  have hlen : (f.proc_list.length : ℤ) < MAX_PID - 1 := by
    have hnumber := h.listed.number
    omega
  obtain ⟨pid, next_safe, hget, hpos, hlt, hfree, hwindow⟩ := get_pid_spec h.listed.window hlen
  set f1 : Family := { f with last_pid := pid, next_safe } with hf1
  set f2 := f1.modify proc fun x => { x with pid } with hf2
  have hlinks : ∀ {q}, q ≠ proc → f2.links q = f.links q := fun hq => update_of_ne hq _ _
  have hnew : f2.links proc = ⟨pid, some parent, none, none, none⟩ := by
    simp [hf2, modify, hf1, hfresh]
  have htree : Tree (fun _ => none) kids f2.links f2.alive :=
    h.tree.congr fun x hx => hlinks (hold hx)
  have hlink := htree.link hparent hproc (by rw [hnew]) (by rw [hnew])
  have hup : ∀ q, ((f2.link parent proc).links q).parent = (f.links q).parent := fun q => by
    rw [link_parent]
    rcases eq_or_ne q proc with rfl | hq
    · rw [hnew, hfresh]
    · rw [hlinks hq]
  refine ⟨pid, _, enroll_eq hget (by rw [hf1, hfresh]), by omega, ⟨hlink, ?_, ?_, ?_, ?_, ?_, ?_⟩,
    rfl, rfl, hup, fun q hq => ?_, fun q hq hqp => ?_⟩
  · refine h.listed.insert hproc (hold h.idle).symm ?_ (fun q hq => ?_) ⟨hpos, hlt⟩ hfree hwindow
    · rw [link_pid, hnew]
    · rw [link_pid, hlinks hq]
  · exact Finset.mem_insert_of_mem h.idle
  · rw [hup]
    exact h.idle_parent
  · exact Finset.mem_insert_of_mem h.init
  · rw [hup]
    exact h.init_parent
  · intro p hp hidle
    rw [hup]
    rcases Finset.mem_insert.mp hp with rfl | hp'
    · exact ⟨parent, by rw [hfresh]⟩
    · exact h.parent p hp' hidle
  · rw [link_pid, hlinks hq]
  · have hne : q ≠ parent := fun heq => hq (heq ▸ hparent)
    have hfirst : (f.links parent).cptr ≠ some q := fun heq =>
      hq (h.tree.alive_of_mem hparent (h.tree.first_mem hparent heq))
    exact (link_of_ne hqp hne (by rwa [hlinks (hold hparent)])).trans (hlinks hqp)

theorem Inv.release (hproc : proc ∈ f.alive) (hidle : proc ≠ idleproc) (hinit : proc ≠ initproc)
    (hup : (f.links proc).parent = some parent) (hkids : kids proc = []) :
    ∃ f', f.release proc = some f' ∧ f'.Inv idleproc initproc (fun _ => none)
        (update kids parent ((kids parent).erase proc)) ∧
      f'.alive = f.alive.erase proc ∧ f'.nr_process = f.nr_process - 1 ∧
      (∀ q, (f'.links q).parent = (f.links q).parent ∧ (f'.links q).pid = (f.links q).pid) ∧
      ∀ q ∉ f.alive, f'.links q = f.links q := by
  have hparent := h.tree.parent proc hproc parent hup
  have hmem : proc ∈ kids parent := (h.tree.mem parent hparent proc).mpr ⟨hproc, hup⟩
  have hsame : ∀ q, ((f.unlink parent proc).links q).parent = (f.links q).parent ∧
      ((f.unlink parent proc).links q).pid = (f.links q).pid := fun q =>
    ⟨unlink_parent q, unlink_pid q⟩
  have hlist : proc ∈ f.proc_list := (h.listed.mem proc).mpr ⟨hproc, hidle⟩
  refine ⟨_, release_eq hup hproc, ⟨h.tree.unlink hproc hup hkids,
    h.listed.erase hlist fun q => (hsame q).2, ?_, ?_, ?_, ?_, ?_⟩, rfl, rfl, hsame, fun q hq => ?_⟩
  · exact Finset.mem_erase.mpr ⟨hidle.symm, h.idle⟩
  · rw [(hsame _).1]
    exact h.idle_parent
  · exact Finset.mem_erase.mpr ⟨hinit.symm, h.init⟩
  · rw [(hsame _).1]
    exact h.init_parent
  · intro p hp hne
    rw [(hsame p).1]
    exact h.parent p (Finset.mem_of_mem_erase hp) hne
  · -- the siblings that are linked past it exist
    obtain ⟨l1, l2, hsplit⟩ := append_of_mem hmem
    have hlinked := h.tree.linked parent hparent
    rw [hsplit] at hlinked
    have hsib : ∀ {y}, y ∈ kids parent → q ≠ y := fun hy heq =>
      hq (heq ▸ h.tree.alive_of_mem hparent hy)
    have hne : q ≠ parent := fun heq => hq (heq ▸ hparent)
    have hnext : (f.links proc).optr ≠ some q := fun heq => by
      rw [hlinked.next_mem] at heq
      refine hsib ?_ rfl
      rw [hsplit]
      exact mem_append_right l1 (mem_cons_of_mem proc (mem_of_mem_head? heq))
    have hprev : (f.links proc).yptr ≠ some q := fun heq => by
      have hlast : l1.getLast? = some q := by simpa [heq] using hlinked.prev_mem.symm
      refine hsib ?_ rfl
      rw [hsplit]
      exact mem_append_left _ (mem_of_getLast? hlast)
    exact unlink_of_ne hne hnext hprev

end

theorem Inv.adopt {rest : List ℕ} (h : f.Inv idleproc initproc before kids)
    (hidle : current ≠ idleproc) (hinit : current ≠ initproc) (hcurrent : current ∈ f.alive)
    (hbefore : before initproc = none) (hkids : kids current = proc :: rest) :
    (f.adopt initproc current proc).Inv idleproc initproc (update before current (some proc))
      (update (update kids current rest) initproc (proc :: kids initproc)) := by
  have hproc : proc ∈ kids current := hkids ▸ mem_cons_self
  have hup := ((h.tree.mem current hcurrent proc).mp hproc).2
  have htree := h.tree.adopt hinit hcurrent h.init hbefore hkids
  have hparent : ∀ q, ((f.adopt initproc current proc).links q).parent =
      if q = proc then some initproc else (f.links q).parent := adopt_parent hinit
  have hnot : idleproc ≠ proc := by
    rintro rfl
    rw [h.idle_parent] at hup
    cases hup
  have hnot' : initproc ≠ proc := by
    rintro rfl
    rw [h.init_parent] at hup
    exact hidle (Option.some_inj.mp hup).symm
  rw [adopt_eq hinit] at *
  refine ⟨htree, ⟨h.listed.nodup, h.listed.mem, h.listed.hash_nodup, h.listed.hash_mem,
    h.listed.pid, h.listed.unique, h.listed.number, h.listed.window.last_pid,
    h.listed.window.next_safe, h.listed.window.free⟩, h.idle, ?_, h.init, ?_, fun p hp hne => ?_⟩
  · rw [hparent, if_neg hnot]
    exact h.idle_parent
  · rw [hparent, if_neg hnot']
    exact h.init_parent
  · rw [hparent]
    split
    · exact ⟨initproc, rfl⟩
    · exact h.parent p hp hne

theorem Inv.settle (h : f.Inv idleproc initproc before kids) (hkids : kids current = [])
    (hbefore : ∀ x ≠ current, before x = none) : f.Inv idleproc initproc (fun _ => none) kids := by
  refine { h with tree := { h.tree with linked := fun x hx => ?_ } }
  have hlinked := h.tree.linked x hx
  rcases eq_or_ne x current with rfl | hne
  · rw [hkids] at hlinked ⊢
    exact hlinked
  · rwa [hbefore x hne] at hlinked

end ucore.Family
