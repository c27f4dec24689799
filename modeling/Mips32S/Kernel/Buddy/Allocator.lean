import Mips32S.Kernel.Buddy.Integrity
import Mips32S.Lib.Allocator

namespace ucore

/-- The buddy allocator together with its zones and the runs it has handed out. -/
structure Pages where
  buddy : Buddy
  zones : List Run
  runs : List Run

open Buddy List Finset Prod

/-- What remains of the live runs when the pages of one of them, or of a part of it, are
freed. -/
def Pages.drop (runs : List Run) (base n : ℕ) : List Run :=
  match runs.find? fun r => r.base ≤ base ∧ base + n ≤ r.base + r.n with
  | some r => r.without base n ++ runs.erase r
  | none => runs

/-- The buddy allocator as an allocator of runs of pages, with the reference counts of the
pages as data. -/
def buddyAllocator (npage : ℕ) : runs.Allocator Pages ℤ where
  size := npage
  alloc n s := do
    let (page, buddy) ← buddy_alloc_pages n s.buddy
    return (page, { s with buddy, runs := (page.map (Run.mk · n)).toList ++ s.runs })
  free p n s := do
    let buddy ← buddy_free_pages p n s.buddy
    return { s with buddy, runs := Pages.drop s.runs p n }
  get s p := (s.buddy.pages p).ref
  set p r s := { s with buddy := s.buddy.setPage p fun x => { x with ref := r } }

theorem Buddy.Valid.setRef {s : Buddy} {zs rs : List Run} {r : Run} {p : ℕ}
    (h : s.Valid zs rs) (hr : r ∈ rs) (hp : p ∈ r.pages) (c : ℤ) :
    (s.setPage p fun x => { x with ref := c }).Valid zs rs := by
  have hpages : ∀ q, (s.setPage p fun x => { x with ref := c }).pages q =
      { s.pages q with ref := if q = p then c else (s.pages q).ref } := by
    intro q
    by_cases hq : q = p
    · subst hq
      simp [setPage]
    · simp [setPage, hq]
  have hfr : Frame s (s.setPage p fun x => { x with ref := c }) :=
    ⟨rfl, rfl, rfl, fun q => by rw [hpages]; exact ⟨rfl, rfl⟩⟩
  refine ⟨h.zoned.frame hfr, h.inv.congr hfr rfl rfl (fun q => ?_) (fun q hq => ?_), h.run, h.disjoint⟩
  · rw [hpages]
    exact ⟨rfl, rfl⟩
  · have hne : q ≠ p := by
      rintro rfl
      exact (mem_freePages.mp hq).2 r hr hp
    rw [hpages, if_neg hne]

section
variable {s : Buddy} {zs rs : List Run} {r r' : Run} {p : ℕ}
variable (h : s.Valid zs rs)
include h

theorem Buddy.Valid.run_unique (hr : r ∈ rs) (hr' : r' ∈ rs) (hp : p ∈ r.pages)
    (hp' : p ∈ r'.pages) : r = r' := by
  by_contra hne
  have hsymm : Std.Symm fun r r' : Run => Disjoint r.pages r'.pages := ⟨fun _ _ h => h.symm⟩
  have hdisj := h.disjoint.forall hr hr' hne
  exact Finset.disjoint_left.mp hdisj hp hp'

theorem Buddy.Valid.nodup : rs.Nodup := by
  refine (h.disjoint.imp_of_mem ?_)
  rintro r r' hr - hdisj rfl
  have hpos := (h.run r hr).1
  have hbase : r.base ∈ r.pages := by simp [hpos]
  exact Finset.disjoint_left.mp hdisj hbase hbase

theorem Buddy.Valid.le_npage (hr : r ∈ rs) : r.base + r.n ≤ s.npage := by
  obtain ⟨hpos, -, zn, hzn, hsub⟩ := h.run r hr
  obtain ⟨z, -, hzone⟩ := h.zoned.exists_zone hzn
  have hlast : r.base + r.n - 1 ∈ r.pages := Run.mem_pages.mpr (by omega)
  have := (hzone _ (hsub hlast)).lt
  omega

theorem Buddy.Valid.drop_eq {base n : ℕ} (hr : r ∈ rs) (hpos : 0 < n) (hlo : r.base ≤ base)
    (hhi : base + n ≤ r.base + r.n) : Pages.drop rs base n = r.without base n ++ rs.erase r := by
  have hfind : rs.find? (fun r => r.base ≤ base ∧ base + n ≤ r.base + r.n) = some r := by
    cases hfound : rs.find? fun r => decide (r.base ≤ base ∧ base + n ≤ r.base + r.n) with
    | none => simpa [hlo, hhi] using find?_eq_none.mp hfound r hr
    | some r' =>
      have hin := find?_some hfound
      rw [decide_eq_true_eq] at hin
      have hmem : base ∈ r'.pages := Run.mem_pages.mpr (by omega)
      exact congrArg some (h.run_unique (mem_of_find?_eq_some hfound) hr hmem
        (Run.mem_pages.mpr (by omega)))
  rw [Pages.drop, hfind]

end

def buddySpec (npage : ℕ) : runs.Spec (buddyAllocator npage) where
  Inv s := s.buddy.Valid s.zones s.runs ∧ s.buddy.npage = npage
  live s := {x | Run.mk x.1 x.2 ∈ s.runs}
  limit := 1024
  limit_pos := by decide
  clear := 0
  le_size h hlive := h.2 ▸ h.1.le_npage hlive
  disjoint h hp hq hx hx' := by
    have heq := h.1.run_unique hp hq hx hx'
    exact ⟨congrArg Run.base heq, congrArg Run.n heq⟩
  alloc_cases {s} n h hpos hn := by
    rcases h.1.alloc_spec hpos hn with hnone | ⟨page, b, heq, hfree, hvalid, hfr, hown⟩
    · exact .inl (by simp [buddyAllocator, hnone])
    refine .inr ⟨page, ⟨b, s.zones, ⟨page, n⟩ :: s.runs⟩, by simp [buddyAllocator, heq],
      ⟨hvalid, hfr.npage.trans h.2⟩, ?_, ?_, ?_, ?_⟩
    · ext ⟨q, m⟩
      simp
    · intro q m hq
      exact (List.pairwise_cons.mp hvalid.disjoint).1 _ hq
    · funext p
      exact congrArg fst (hown p)
    · intro p hp
      have hclean := h.1.inv.clean p (hfree p hp)
      exact congrArg fst ((hown p).trans hclean)
  free_eq {s r p n} h hlive hpos hlo hhi := by
    obtain ⟨b, heq, hvalid, hfreed⟩ := h.1.free_spec hlive hpos hlo hhi
    have hdrop := h.1.drop_eq hlive hpos hlo hhi
    refine ⟨⟨b, s.zones, Pages.drop s.runs p n⟩, by simp [buddyAllocator, heq],
      ⟨hdrop ▸ hvalid, hfreed.frame.npage.trans h.2⟩, ?_, fun x => ?_⟩
    · ext ⟨q, m⟩
      simp [hdrop, h.1.nodup.mem_erase_iff, Run.without, runs.without, Prod.ext_iff, and_comm]
    · have hown := congrArg fst (hfreed.owner x)
      rwa [apply_ite fst] at hown
  set_spec {s p n x} d h hlive hx := by
    refine ⟨⟨h.1.setRef hlive hx d, h.2⟩, rfl, ?_⟩
    funext q
    by_cases hq : q = x
    · subst hq
      simp [buddyAllocator, setPage]
    · simp [buddyAllocator, setPage, hq]

/-- The free pages are those the buddy allocator can still hand out one by one. -/
def buddySupply (npage : ℕ) : (buddySpec npage).Supply where
  avail s := (freePages s.zones s.runs).card
  alloc {s} h hfree := by
    obtain ⟨page, b, heq, hcard⟩ := h.1.alloc_one hfree
    exact ⟨page, ⟨b, s.zones, ⟨page, 1⟩ :: s.runs⟩, by simp [buddyAllocator, heq], hcard⟩
  free {s s' x} h hx heq := by
    obtain ⟨r, hr, hxr⟩ := hx
    obtain ⟨b, -, heq'⟩ := Option.bind_eq_some_iff.mp heq
    cases heq'
    obtain ⟨hlo, hhi⟩ := mem_Ico.mp hxr
    have hdrop := h.1.drop_eq (n := 1) hr Nat.one_pos hlo hhi
    have hunion := freePages_without h.1 hr (n := 1) hlo hhi
    apply card_le_card
    dsimp only
    rw [hdrop, hunion]
    exact subset_union_left
  set _ _ := rfl

def Pages.boot (npage : ℕ) : Option Pages := do
  let buddy ← buddy_init_memmap 0 npage (buddy_init (Buddy.reserved npage))
  return ⟨buddy, [⟨0, npage⟩], []⟩

theorem Pages.boot_inv {npage : ℕ} {s : Pages} (hpos : 0 < npage) (h : Pages.boot npage = some s) :
    (buddySpec npage).Inv s ∧ (buddySpec npage).owned s = ∅ := by
  obtain ⟨b, hb, hboot, hnpage⟩ := Boot.exists_one_zone hpos
  rw [Pages.boot, hb] at h
  cases h
  exact ⟨⟨hboot.valid, hnpage⟩, by simp [runs.Spec.owned, buddySpec]⟩

end ucore
