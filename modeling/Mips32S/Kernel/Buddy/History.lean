import Mips32S.Kernel.Buddy.Alloc
import Mips32S.Kernel.Buddy.Memmap

open dyadic Finset

namespace ucore

/-- A run of consecutive pages. -/
structure Run where
  base : ℕ
  n : ℕ
  deriving DecidableEq

def Run.pages (r : Run) : Finset ℕ := Ico r.base (r.base + r.n)

@[simp]
theorem Run.mem_pages {r : Run} {p : ℕ} : p ∈ r.pages ↔ r.base ≤ p ∧ p < r.base + r.n := mem_Ico

/-- What is left of a run when `n` pages from `base` on are given back. -/
def Run.without (r : Run) (base n : ℕ) : List Run :=
  [⟨r.base, base - r.base⟩, ⟨base + n, r.base + r.n - (base + n)⟩].filter (0 < ·.n)

/-- The pages of the zones that no live run holds. -/
def freePages (zs runs : List Run) : Finset ℕ :=
  (zs.foldr (fun (z : Run) acc => z.pages ∪ acc) ∅).filter fun p => ∀ r ∈ runs, p ∉ r.pages

/-- The allocator after `buddy_init`, on descriptors that are all reserved, and calls of
`buddy_init_memmap` for disjoint runs of them. -/
inductive Boot : Buddy → List Run → Prop where
  | init {s : Buddy} (hres : ∀ p < s.npage, (s.pages p).flags.reserved = true)
      (hzone : s.zone_num = 0) : Boot (buddy_init s) []
  | memmap {s s' : Buddy} {zs : List Run} {base n : ℕ} (h : Boot s zs) (hn : 0 < n)
      (hzone : zs.length < MAX_ZONE_NUM) (hle : base + n ≤ s.npage)
      (hnew : ∀ z ∈ zs, Disjoint (Run.mk base n).pages z.pages)
      (hstep : buddy_init_memmap base n s = some s') : Boot s' (zs ++ [⟨base, n⟩])

/-- The states after any sequence of allocations of at most 1024 pages and of frees of parts
of live runs, with the runs that are live. -/
inductive Reach : Buddy → List Run → List Run → Prop where
  | boot {s : Buddy} {zs : List Run} (h : Boot s zs) : Reach s zs []
  | alloc {s s' : Buddy} {zs runs : List Run} {n page : ℕ} (h : Reach s zs runs) (hpos : 0 < n)
      (hn : n ≤ 1024) (hstep : buddy_alloc_pages n s = some (some page, s')) :
      Reach s' zs (⟨page, n⟩ :: runs)
  | full {s s' : Buddy} {zs runs : List Run} {n : ℕ} (h : Reach s zs runs) (hpos : 0 < n)
      (hn : n ≤ 1024) (hstep : buddy_alloc_pages n s = some (none, s')) : Reach s' zs runs
  | free {s s' : Buddy} {zs runs : List Run} {r : Run} {base n : ℕ} (h : Reach s zs runs)
      (hr : r ∈ runs) (hpos : 0 < n) (hlo : r.base ≤ base) (hhi : base + n ≤ r.base + r.n)
      (hstep : buddy_free_pages base n s = some s') :
      Reach s' zs (r.without base n ++ runs.erase r)

namespace Buddy

/-- The descriptors place the pages in the zones `zs`. -/
structure Zoned (s : Buddy) (zs : List Run) : Prop where
  count : s.zone_num = zs.length
  base : ∀ {z zn}, zs[z]? = some zn → s.zones z = zn.base
  inZone : ∀ {z p}, s.InZone z p ↔ ∃ zn, zs[z]? = some zn ∧ p ∈ zn.pages

/-- The allocator's state agrees with its zones and with the runs it has handed out. -/
structure Valid (s : Buddy) (zs runs : List Run) : Prop where
  zoned : s.Zoned zs
  inv : s.Inv (freePages zs runs)
  run : ∀ r ∈ runs, 0 < r.n ∧ r.n ≤ 2 ^ MAX_ORDER ∧ ∃ zn ∈ zs, r.pages ⊆ zn.pages
  disjoint : runs.Pairwise fun r r' => Disjoint r.pages r'.pages

end Buddy

open Buddy

section
variable {zs runs : List Run} {r z : Run} {p base n : ℕ}

@[simp]
theorem mem_freePages :
    p ∈ freePages zs runs ↔ (∃ zn ∈ zs, p ∈ zn.pages) ∧ ∀ r ∈ runs, p ∉ r.pages := by
  have hzones : p ∈ zs.foldr (fun (z : Run) acc => z.pages ∪ acc) ∅ ↔ ∃ zn ∈ zs, p ∈ zn.pages := by
    induction zs with
    | nil => simp
    | cons z zs ih => rw [List.foldr_cons, mem_union, ih, List.exists_mem_cons_iff]
  rw [freePages, mem_filter, hzones]

theorem freePages_cons : freePages zs (r :: runs) = freePages zs runs \ r.pages := by
  ext p
  rw [mem_sdiff, mem_freePages, mem_freePages, List.forall_mem_cons]
  tauto

theorem freePages_concat : freePages (zs ++ [z]) [] = freePages zs [] ∪ z.pages := by
  ext p
  simp only [mem_union, mem_freePages, List.mem_append, List.mem_singleton,
    List.not_mem_nil, false_implies, implies_true, and_true]
  constructor
  · rintro ⟨zn, hzn | rfl, hp⟩
    · exact .inl ⟨zn, hzn, hp⟩
    · exact .inr hp
  · rintro (⟨zn, hzn, hp⟩ | hp)
    · exact ⟨zn, .inl hzn, hp⟩
    · exact ⟨z, .inr rfl, hp⟩

theorem exists_mem_without (hlo : r.base ≤ base) (hhi : base + n ≤ r.base + r.n) :
    (∃ r' ∈ r.without base n, p ∈ r'.pages) ↔
      p ∈ r.pages ∧ p ∉ Ico base (base + n) := by
  simp only [Run.without, List.mem_filter, List.mem_cons, List.not_mem_nil, or_false,
    decide_eq_true_eq, Run.mem_pages, mem_Ico]
  constructor
  · rintro ⟨r', ⟨rfl | rfl, hpos⟩, hp⟩
    · simp only at hpos hp
      omega
    · simp only at hpos hp
      omega
  · intro hp
    by_cases hleft : p < base
    · exact ⟨_, ⟨.inl rfl, by simp only; omega⟩, by simp only; omega⟩
    · exact ⟨_, ⟨.inr rfl, by simp only; omega⟩, by simp only; omega⟩

end

variable {s s' : Buddy} {zs runs : List Run} {r zn r' : Run} {base n page z : ℕ}

theorem Buddy.Zoned.frame (h : s.Zoned zs) (hfr : Frame s s') : s'.Zoned zs where
  count := hfr.zone_num.trans h.count
  base hz := (congrFun hfr.zones _).trans (h.base hz)
  inZone := hfr.inZone.trans h.inZone

theorem Buddy.Zoned.exists_zone (h : s.Zoned zs) (hzn : zn ∈ zs) :
    ∃ z, s.zones z = zn.base ∧ ∀ p ∈ zn.pages, s.InZone z p := by
  obtain ⟨z, hz⟩ := List.mem_iff_getElem?.mp hzn
  exact ⟨z, h.base hz, fun p hp => h.inZone.mpr ⟨zn, hz, hp⟩⟩

section
variable (h : s.Valid zs runs) (hr : r ∈ runs) (hlo : r.base ≤ base) (hhi : base + n ≤ r.base + r.n)
include h hr hlo hhi

theorem Buddy.Valid.taken (hpos : 0 < n) :
    ∃ z i, base = s.zones z + i ∧ s.Taken (freePages zs runs) z i n := by
  obtain ⟨-, -, zn, hzn, hsub⟩ := h.run r hr
  obtain ⟨z, hbase, hzone⟩ := h.zoned.exists_zone hzn
  have hin : base ∈ zn.pages := hsub (Run.mem_pages.mpr (by omega))
  have hle : s.zones z ≤ base := hbase ▸ (Run.mem_pages.mp hin).1
  obtain ⟨i, rfl⟩ := Nat.exists_eq_add_of_le hle
  refine ⟨z, i, rfl, fun p hp => ?_⟩
  have hp' : p ∈ r.pages := by
    rw [mem_Ico] at hp
    rw [Run.mem_pages]
    omega
  exact ⟨hzone p (hsub hp'), fun hF => (mem_freePages.mp hF).2 r hr hp'⟩

omit h hr hlo hhi in
theorem Buddy.Valid.alloc_spec (h : s.Valid zs runs) (hpos : 0 < n) (hn : n ≤ 1024) :
    buddy_alloc_pages n s = some (none, s) ∨
    ∃ page s', buddy_alloc_pages n s = some (some page, s') ∧
      (∀ p ∈ (Run.mk page n).pages, p ∈ freePages zs runs) ∧
      s'.Valid zs (⟨page, n⟩ :: runs) ∧ Frame s s' ∧
      ∀ p, (s'.pages p).owner = (s.pages p).owner := by
  rcases buddy_alloc_pages_spec h.inv hpos hn with hnone | ⟨s', z, i, heq, hmem, hinv, hfr, hown⟩
  · exact .inl hnone
  refine .inr ⟨_, s', heq, fun p hp => (hmem p hp).1, ⟨h.zoned.frame hfr, ?_, ?_, ?_⟩, hfr, hown⟩
  · rwa [freePages_cons]
  · rw [List.forall_mem_cons]
    refine ⟨⟨hpos, hn, ?_⟩, h.run⟩
    obtain ⟨zn, hzn, -⟩ := h.zoned.inZone.mp (hmem (s.zones z + i) (by simp [hpos])).2
    refine ⟨zn, List.mem_of_getElem? hzn, fun p hp => ?_⟩
    obtain ⟨zn', hzn', hp'⟩ := h.zoned.inZone.mp (hmem p hp).2
    rw [hzn, Option.some.injEq] at hzn'
    exact hzn' ▸ hp'
  · rw [List.pairwise_cons]
    refine ⟨fun r hr => ?_, h.disjoint⟩
    rw [disjoint_left]
    intro p hp
    exact (mem_freePages.mp (hmem p hp).1).2 r hr

theorem freePages_without :
    freePages zs (r.without base n ++ runs.erase r) =
      freePages zs runs ∪ Ico base (base + n) := by
  have hperm := List.perm_cons_erase hr
  have hdisj := (hperm.pairwise_iff fun h => Disjoint.symm h).mp h.disjoint
  rw [List.pairwise_cons] at hdisj
  ext p
  have hwithout := exists_mem_without (p := p) hlo hhi
  rw [mem_union, mem_freePages, mem_freePages, List.forall_mem_append]
  constructor
  · rintro ⟨hz, hno, hrest⟩
    by_cases hp : p ∈ Ico base (base + n)
    · exact .inr hp
    refine .inl ⟨hz, fun r' hr' hp' => ?_⟩
    rcases List.mem_cons.mp (hperm.mem_iff.mp hr') with rfl | hr'
    · obtain ⟨r', hr', hpr'⟩ := hwithout.mpr ⟨hp', hp⟩
      exact hno r' hr' hpr'
    · exact hrest r' hr' hp'
  · rintro (⟨hz, hno⟩ | hp)
    · refine ⟨hz, fun r' hr' hp' => ?_, fun r' hr' => hno r' (List.mem_of_mem_erase hr')⟩
      exact hno r hr (hwithout.mp ⟨r', hr', hp'⟩).1
    · have hpr : p ∈ r.pages := by
        rw [mem_Ico] at hp
        rw [Run.mem_pages]
        omega
      obtain ⟨-, -, zn, hzn, hsub⟩ := h.run r hr
      refine ⟨⟨zn, hzn, hsub hpr⟩, fun r' hr' hp' => ?_, fun r' hr' hp' => ?_⟩
      · exact (hwithout.mp ⟨r', hr', hp'⟩).2 hp
      · exact disjoint_left.mp (hdisj.1 r' hr') hpr hp'

end

theorem Run.subset_of_mem_without (h : r' ∈ r.without base n) (hlo : r.base ≤ base)
    (hhi : base + n ≤ r.base + r.n) : r'.pages ⊆ r.pages := fun _ hp =>
  ((exists_mem_without hlo hhi).mp ⟨r', h, hp⟩).1

theorem Run.pairwise_without (hlo : r.base ≤ base) :
    (r.without base n).Pairwise fun r1 r2 => Disjoint r1.pages r2.pages := by
  apply List.Pairwise.filter
  simp only [List.pairwise_cons, List.mem_singleton, forall_eq, List.not_mem_nil,
    false_implies, implies_true, List.Pairwise.nil, and_self, and_true]
  rw [disjoint_left]
  intro p hp hp'
  rw [Run.mem_pages] at hp hp'
  simp only at hp hp'
  omega

theorem Buddy.Valid.free_spec (h : s.Valid zs runs) (hr : r ∈ runs) (hpos : 0 < n)
    (hlo : r.base ≤ base) (hhi : base + n ≤ r.base + r.n) :
    ∃ s', buddy_free_pages base n s = some s' ∧ s'.Valid zs (r.without base n ++ runs.erase r) ∧
      Freed s (freePages zs runs) (Ico base (base + n)) s' := by
  obtain ⟨z, i, rfl, ht⟩ := h.taken hr hlo hhi hpos
  obtain ⟨hrpos, hrle, zn, hzn, hsub⟩ := h.run r hr
  obtain ⟨s', heq, hfreed⟩ := buddy_free_pages_spec h.inv ht hpos (by omega)
  have hperm := List.perm_cons_erase hr
  have hdisj := (hperm.pairwise_iff fun h => Disjoint.symm h).mp h.disjoint
  rw [List.pairwise_cons] at hdisj
  refine ⟨s', heq, ⟨h.zoned.frame hfreed.frame, ?_, ?_, ?_⟩, hfreed⟩
  · rw [freePages_without h hr hlo hhi]
    exact hfreed.inv
  · intro r' hr'
    rcases List.mem_append.mp hr' with hr' | hr'
    · refine ⟨by simpa using (List.mem_filter.mp hr').2, ?_, zn, hzn, ?_⟩
      · have hcard := card_le_card (Run.subset_of_mem_without hr' hlo hhi)
        simp only [Run.pages, Nat.card_Ico] at hcard
        omega
      · exact (Run.subset_of_mem_without hr' hlo hhi).trans hsub
    · exact h.run r' (List.mem_of_mem_erase hr')
  · rw [List.pairwise_append]
    refine ⟨Run.pairwise_without hlo, hdisj.2, fun r1 hr1 r2 hr2 => ?_⟩
    exact (hdisj.1 r2 hr2).mono_left (Run.subset_of_mem_without hr1 hlo hhi)

end ucore
