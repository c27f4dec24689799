import Mips32S.Kernel.Process.Proc
import Mips32S.Lib.Linked

open linked Function Option List Finset

namespace ucore.Family

/-- The children of every process are the nodes of a doubly linked list that starts with
`cptr`; `before` is where the links of the lists lead back from their first nodes. -/
structure Tree (before : ℕ → Option ℕ) (kids : ℕ → List ℕ) (links : ℕ → proc_links)
    (alive : Finset ℕ) : Prop where
  linked : ∀ x ∈ alive, Linked (fun p => (links p).yptr) (fun p => (links p).optr) (before x)
    (links x).cptr (kids x)
  nodup : ∀ x ∈ alive, (kids x).Nodup
  mem : ∀ x ∈ alive, ∀ c, c ∈ kids x ↔ c ∈ alive ∧ (links c).parent = some x
  parent : ∀ c ∈ alive, ∀ x, (links c).parent = some x → x ∈ alive

variable {f : Family} {proc parent q initproc current : ℕ}

theorem link_eq : f.link parent proc = { f with links := fun q => { f.links q with
    cptr := if q = parent then some proc else (f.links q).cptr
    yptr := if (f.links parent).cptr = some q then some proc
      else if q = proc then none else (f.links q).yptr
    optr := if q = proc then (f.links parent).cptr else (f.links q).optr } } := by
  unfold link modify
  cases (f.links parent).cptr with
  | none =>
    simp only [elim_none, Family.mk.injEq, and_true]
    funext q
    apply proc_links.ext <;> grind [update_apply]
  | some o =>
    simp only [elim_some, Family.mk.injEq, and_true]
    funext q
    apply proc_links.ext <;> grind [update_apply]

theorem unlink_eq : f.unlink parent proc = { f with links := fun q => { f.links q with
    cptr := if (f.links proc).yptr = none ∧ q = parent then (f.links proc).optr
      else (f.links q).cptr
    yptr := if (f.links proc).optr = some q then (f.links proc).yptr else (f.links q).yptr
    optr := if (f.links proc).yptr = some q then (f.links proc).optr else (f.links q).optr } } := by
  unfold unlink modify
  cases hy : (f.links proc).yptr <;> cases ho : (f.links proc).optr <;>
    simp only [hy, ho, elim_none, elim_some, Family.mk.injEq, and_true] <;>
    funext q <;> apply proc_links.ext <;> grind [update_apply]

theorem adopt_eq (hne : current ≠ initproc) :
    f.adopt initproc current proc = { f with links := fun q => { f.links q with
      parent := if q = proc then some initproc else (f.links q).parent
      cptr := if q = initproc then some proc
        else if q = current then (f.links proc).optr else (f.links q).cptr
      yptr := if (f.links initproc).cptr = some q then some proc
        else if q = proc then none else (f.links q).yptr
      optr := if q = proc then (f.links initproc).cptr else (f.links q).optr } } := by
  simp only [adopt, link_eq, modify, Family.mk.injEq, and_true]
  funext q
  apply proc_links.ext <;> grind [update_apply]

@[simp]
theorem link_pid (q : ℕ) : ((f.link parent proc).links q).pid = (f.links q).pid := by
  rw [link_eq]

@[simp]
theorem link_parent (q : ℕ) : ((f.link parent proc).links q).parent = (f.links q).parent := by
  rw [link_eq]

@[simp]
theorem unlink_pid (q : ℕ) : ((f.unlink parent proc).links q).pid = (f.links q).pid := by
  rw [unlink_eq]

@[simp]
theorem unlink_parent (q : ℕ) : ((f.unlink parent proc).links q).parent = (f.links q).parent := by
  rw [unlink_eq]

theorem link_of_ne (hproc : q ≠ proc) (hparent : q ≠ parent)
    (hfirst : (f.links parent).cptr ≠ some q) : (f.link parent proc).links q = f.links q := by
  rw [link_eq]
  simp [hproc, hparent, hfirst]

theorem unlink_of_ne (hparent : q ≠ parent) (hnext : (f.links proc).optr ≠ some q)
    (hprev : (f.links proc).yptr ≠ some q) : (f.unlink parent proc).links q = f.links q := by
  rw [unlink_eq]
  simp [hparent, hnext, hprev]

section
variable {initproc current : ℕ} (hne : current ≠ initproc)
include hne

theorem adopt_pid (q : ℕ) : ((f.adopt initproc current proc).links q).pid = (f.links q).pid := by
  rw [adopt_eq hne]

theorem adopt_parent (q : ℕ) : ((f.adopt initproc current proc).links q).parent =
    if q = proc then some initproc else (f.links q).parent := by
  rw [adopt_eq hne]

theorem adopt_alive : (f.adopt initproc current proc).alive = f.alive ∧
    (f.adopt initproc current proc).nr_process = f.nr_process := by
  rw [adopt_eq hne]
  exact ⟨rfl, rfl⟩

theorem adopt_of_ne (hproc : q ≠ proc) (hcurrent : q ≠ current) (hinit : q ≠ initproc)
    (hfirst : (f.links initproc).cptr ≠ some q) :
    (f.adopt initproc current proc).links q = f.links q := by
  rw [adopt_eq hne]
  simp [hproc, hcurrent, hinit, hfirst]

end

section
variable {before : ℕ → Option ℕ} {kids : ℕ → List ℕ} {links links' : ℕ → proc_links}
  {alive : Finset ℕ} {x y c : ℕ}

section
variable (h : Tree before kids links alive) (hx : x ∈ alive)
include h hx

theorem Tree.first_mem (hc : (links x).cptr = some c) : c ∈ kids x := by
  rw [(h.linked x hx).start_eq] at hc
  exact mem_of_mem_head? hc

theorem Tree.unique (hy : y ∈ alive) (hcx : c ∈ kids x) (hcy : c ∈ kids y) : x = y := by
  have hpx := ((h.mem x hx c).mp hcx).2
  have hpy := ((h.mem y hy c).mp hcy).2
  exact some_inj.mp (hpx.symm.trans hpy)

theorem Tree.alive_of_mem (hc : c ∈ kids x) : c ∈ alive := ((h.mem x hx c).mp hc).1

end

theorem Tree.congr (h : Tree before kids links alive) (heq : ∀ x ∈ alive, links' x = links x) :
    Tree before kids links' alive where
  linked x hx := by
    rw [heq x hx]
    refine (h.linked x hx).congr fun y hy => ?_
    rw [heq y (h.alive_of_mem hx hy)]
    exact ⟨rfl, rfl⟩
  nodup := h.nodup
  mem x hx c := by
    rw [h.mem x hx c]
    refine and_congr_right fun hc => ?_
    rw [heq c hc]
  parent c hc x hpx := by
    rw [heq c hc] at hpx
    exact h.parent c hc x hpx

end

variable {before : ℕ → Option ℕ} {kids : ℕ → List ℕ}

theorem Tree.link (h : Tree (fun _ => none) kids f.links f.alive) (hparent : parent ∈ f.alive)
    (hproc : proc ∉ f.alive) (hup : (f.links proc).parent = some parent)
    (hnone : (f.links proc).cptr = none) :
    Tree (fun _ => none) (update (update kids parent (proc :: kids parent)) proc [])
      (f.link parent proc).links (insert proc f.alive) := by
  have hne : parent ≠ proc := fun heq => hproc (heq ▸ hparent)
  have hold : ∀ {x}, x ∈ f.alive → x ≠ proc := fun hx heq => hproc (heq ▸ hx)
  have hnew : ∀ {x c}, x ∈ f.alive → c ∈ kids x → c ≠ proc := fun hx hc =>
    hold (h.alive_of_mem hx hc)
  have hfirst : (f.links parent).cptr ≠ some proc := fun heq =>
    hnew hparent (h.first_mem hparent heq) rfl
  rw [link_eq]
  refine ⟨fun x hx => ?_, fun x hx => ?_, fun x hx c => ?_, fun c hc x hpx => ?_⟩
  · dsimp only
    rcases mem_insert.mp hx with rfl | hx'
    · rwa [update_self, if_neg hne.symm]
    · rw [update_of_ne (hold hx')]
      have hlinked := h.linked x hx'
      rcases eq_or_ne x parent with rfl | hxq
      · rw [update_self, if_pos rfl]
        refine hlinked.push (h.nodup x hx') ?_ (if_pos rfl) (fun y hy => ?_) fun y hy => ?_
        · rw [if_neg hfirst, if_pos rfl]
        · rw [if_neg (hnew hx' hy)]
        · exact if_neg (hnew hx' hy)
      · rw [update_of_ne hxq, if_neg hxq]
        refine hlinked.congr fun y hy => ⟨?_, if_neg (hnew hx' hy)⟩
        rw [if_neg (hnew hx' hy), if_neg]
        exact fun heq => hxq (h.unique hx' hparent hy (h.first_mem hparent heq))
  · rcases mem_insert.mp hx with rfl | hx'
    · rw [update_self]
      exact nodup_nil
    · rw [update_of_ne (hold hx')]
      rcases eq_or_ne x parent with rfl | hxq
      · rw [update_self]
        exact nodup_cons.mpr ⟨fun hmem => hnew hx' hmem rfl, h.nodup x hx'⟩
      · rw [update_of_ne hxq]
        exact h.nodup x hx'
  · rw [mem_insert]
    rcases mem_insert.mp hx with rfl | hx'
    · rw [update_self]
      refine iff_of_false not_mem_nil fun ⟨hc, hpc⟩ => ?_
      rcases hc with rfl | hc
      · exact hne (some_inj.mp (hup.symm.trans hpc))
      · exact hproc (h.parent c hc _ hpc)
    · rw [update_of_ne (hold hx')]
      rcases eq_or_ne x parent with rfl | hxq
      · rw [update_self, List.mem_cons, h.mem x hx']
        refine ⟨?_, ?_⟩
        · rintro (rfl | ⟨hc, hpc⟩)
          · exact ⟨.inl rfl, hup⟩
          · exact ⟨.inr hc, hpc⟩
        · rintro ⟨rfl | hc, hpc⟩
          · exact .inl rfl
          · exact .inr ⟨hc, hpc⟩
      · rw [update_of_ne hxq, h.mem x hx']
        refine ⟨fun ⟨hc, hpc⟩ => ⟨.inr hc, hpc⟩, ?_⟩
        rintro ⟨rfl | hc, hpc⟩
        · exact absurd (some_inj.mp (hpc.symm.trans hup)) hxq
        · exact ⟨hc, hpc⟩
  · rcases mem_insert.mp hc with rfl | hc'
    · obtain rfl : parent = x := some_inj.mp (hup.symm.trans hpx)
      exact Finset.mem_insert_of_mem hparent
    · exact Finset.mem_insert_of_mem (h.parent c hc' x hpx)

/-- The first child of an exiting process becomes the first child of `initproc`. The link back
from the next child still leads to it. -/
theorem Tree.adopt {rest : List ℕ} (h : Tree before kids f.links f.alive) (hne : current ≠ initproc)
    (hcurrent : current ∈ f.alive) (hinit : initproc ∈ f.alive) (hbefore : before initproc = none)
    (hkids : kids current = proc :: rest) :
    Tree (update before current (some proc))
      (update (update kids current rest) initproc (proc :: kids initproc))
      (f.adopt initproc current proc).links f.alive := by
  have hproc : proc ∈ kids current := hkids ▸ List.mem_cons_self
  have hnodup := h.nodup current hcurrent
  rw [hkids, nodup_cons] at hnodup
  have hother : ∀ {x}, x ∈ f.alive → x ≠ current → proc ∉ kids x := fun hx hxc hmem =>
    hxc (h.unique hx hcurrent hmem hproc)
  have hfirst : ∀ {x y}, x ∈ f.alive → x ≠ initproc → y ∈ kids x →
      (f.links initproc).cptr ≠ some y := fun hx hxi hy heq =>
    hxi (h.unique hx hinit hy (h.first_mem hinit heq))
  have hrest : ∀ {y}, y ∈ rest → y ∈ kids current := fun hy => hkids ▸ List.mem_cons_of_mem proc hy
  rw [adopt_eq hne]
  refine ⟨fun x hx => ?_, fun x hx => ?_, fun x hx c => ?_, fun c hc x hpx => ?_⟩
  · dsimp only
    have hlinked := h.linked x hx
    rcases eq_or_ne x initproc with rfl | hxi
    · rw [hbefore] at hlinked
      rw [update_self, update_of_ne hne.symm, if_pos rfl, hbefore]
      have hnot : ∀ y ∈ kids x, y ≠ proc := fun y hy heq => hother hx hne.symm (heq ▸ hy)
      refine hlinked.push (h.nodup x hx) ?_ (if_pos rfl) (fun y hy => ?_) fun y hy => ?_
      · rw [if_neg (hfirst hcurrent hne hproc), if_pos rfl]
      · rw [if_neg (hnot y hy)]
      · exact if_neg (hnot y hy)
    · rw [update_of_ne hxi, if_neg hxi]
      rcases eq_or_ne x current with rfl | hxc
      · rw [hkids] at hlinked
        rw [update_self, update_self, if_pos rfl]
        refine hlinked.2.2.congr fun y hy => ?_
        have hyp : y ≠ proc := fun heq => hnodup.1 (heq ▸ hy)
        exact ⟨by rw [if_neg (hfirst hx hxi (hrest hy)), if_neg hyp], if_neg hyp⟩
      · rw [update_of_ne hxc, update_of_ne hxc, if_neg hxc]
        refine hlinked.congr fun y hy => ?_
        have hyp : y ≠ proc := fun heq => hother hx hxc (heq ▸ hy)
        exact ⟨by rw [if_neg (hfirst hx hxi hy), if_neg hyp], if_neg hyp⟩
  · rcases eq_or_ne x initproc with rfl | hxi
    · rw [update_self]
      exact nodup_cons.mpr ⟨hother hx hne.symm, h.nodup x hx⟩
    · rw [update_of_ne hxi]
      rcases eq_or_ne x current with rfl | hxc
      · rw [update_self]
        exact hnodup.2
      · rw [update_of_ne hxc]
        exact h.nodup x hx
  · have hmem := h.mem x hx c
    have halive := h.alive_of_mem hcurrent hproc
    dsimp only
    rcases eq_or_ne c proc with rfl | hcp
    · -- the child that moves is in one list only, that of its new parent
      rw [if_pos rfl, some_inj]
      rcases eq_or_ne x initproc with rfl | hxi
      · simp [halive]
      · rw [update_of_ne hxi]
        refine iff_of_false ?_ fun ⟨_, heq⟩ => hxi heq.symm
        rcases eq_or_ne x current with rfl | hxc
        · rw [update_self]
          exact hnodup.1
        · rw [update_of_ne hxc]
          exact hother hx hxc
    · rw [if_neg hcp, ← hmem]
      rcases eq_or_ne x initproc with rfl | hxi
      · rw [update_self, List.mem_cons, or_iff_right hcp]
      · rw [update_of_ne hxi]
        rcases eq_or_ne x current with rfl | hxc
        · rw [update_self, hkids, List.mem_cons, or_iff_right hcp]
        · rw [update_of_ne hxc]
  · dsimp only at hpx
    split at hpx
    · cases hpx
      exact hinit
    · exact h.parent c hc x hpx

theorem Tree.unlink (h : Tree (fun _ => none) kids f.links f.alive) (hproc : proc ∈ f.alive)
    (hup : (f.links proc).parent = some parent) (hkids : kids proc = []) :
    Tree (fun _ => none) (update kids parent ((kids parent).erase proc))
      (f.unlink parent proc).links (f.alive.erase proc) := by
  have hparent := h.parent proc hproc parent hup
  have hmem : proc ∈ kids parent := (h.mem parent hparent proc).mpr ⟨hproc, hup⟩
  have hnodup := h.nodup parent hparent
  obtain ⟨l1, l2, hsplit⟩ := append_of_mem hmem
  rw [hsplit] at hnodup
  have hlinked := h.linked parent hparent
  rw [hsplit] at hlinked
  have hnext := hlinked.next_mem
  have hprev : (f.links proc).yptr = l1.getLast? := by simpa using hlinked.prev_mem
  have hnext_mem : ∀ {y}, (f.links proc).optr = some y → y ∈ kids parent := by
    intro y hy
    rw [hsplit]
    exact mem_append_right l1 (List.mem_cons_of_mem proc (mem_of_mem_head? (hnext.symm.trans hy)))
  have hprev_mem : ∀ {y}, (f.links proc).yptr = some y → y ∈ kids parent := by
    intro y hy
    rw [hsplit]
    exact mem_append_left _ (mem_of_getLast? (hprev.symm.trans hy))
  have herase : (kids parent).erase proc = l1 ++ l2 := by
    rw [hsplit, erase_append_right _ ?_, erase_cons_head]
    exact fun hl => (disjoint_of_nodup_append hnodup) hl List.mem_cons_self
  have hother : ∀ {x}, x ∈ f.alive → x ≠ parent → proc ∉ kids x := fun hx hxp hx' =>
    hxp (h.unique hx hparent hx' hmem)
  rw [unlink_eq]
  refine ⟨fun x hx => ?_, fun x hx => ?_, fun x hx c => ?_, fun c hc x hpx => ?_⟩
  · dsimp only
    have hx' := Finset.mem_of_mem_erase hx
    rcases eq_or_ne x parent with rfl | hxp
    · have hremove := hlinked.remove hnodup (fun _ _ => some_ne_none _ |>.symm) (fun _ _ => rfl)
        (fun _ _ => rfl)
      have hstart : (if (f.links proc).yptr = none ∧ x = x then (f.links proc).optr
          else (f.links x).cptr) = if l1 = [] then (f.links proc).optr else (f.links x).cptr := by
        simp [hprev]
      rwa [update_self, herase, hstart]
    · rw [update_of_ne hxp, if_neg fun hand => hxp hand.2]
      refine (h.linked x hx').congr fun y hy => ⟨if_neg fun heq => ?_, if_neg fun heq => ?_⟩
      · exact hxp (h.unique hx' hparent hy (hnext_mem heq))
      · exact hxp (h.unique hx' hparent hy (hprev_mem heq))
  · have hx' := Finset.mem_of_mem_erase hx
    rcases eq_or_ne x parent with rfl | hxp
    · rw [update_self]
      exact (h.nodup x hx').erase proc
    · rw [update_of_ne hxp]
      exact h.nodup x hx'
  · have hx' := Finset.mem_of_mem_erase hx
    rw [mem_erase, and_assoc, ← h.mem x hx' c]
    rcases eq_or_ne x parent with rfl | hxp
    · rw [update_self, (h.nodup x hx').mem_erase_iff]
    · rw [update_of_ne hxp]
      exact ⟨fun hc => ⟨fun heq => hother hx' hxp (heq ▸ hc), hc⟩, fun hc => hc.2⟩
  · have hc' := Finset.mem_of_mem_erase hc
    refine mem_erase.mpr ⟨?_, h.parent c hc' x hpx⟩
    rintro rfl
    have hkid := (h.mem x hproc c).mpr ⟨hc', hpx⟩
    rw [hkids] at hkid
    cases hkid

end ucore.Family
