import Mips32S.Kernel.Buddy.History
import Mathlib.Algebra.BigOperators.Ring.Finset

open dyadic Finset Option

namespace ucore

namespace Buddy.Inv

variable {s : Buddy} {F : Finset ℕ} {k k' p q q' : ℕ}

theorem block_subset (h : Inv s F) (hq : q ∈ s.free_list k) (hp : p ∈ block k q) :
    p ∈ F ∧ (s.pages p).zone_num = (s.pages q).zone_num := by
  apply h.mem_of_isFree (h.isFree_of_mem hq)
  rwa [pageBlock, Nat.add_sub_cancel' (h.base_le (h.head hq).1)]

theorem mem_iff (h : Inv s F) : p ∈ F ↔ ∃ k q, q ∈ s.free_list k ∧ p ∈ block k q := by
  constructor
  · intro hp
    have hle := h.base_le (h.inZone p hp)
    have hx : p - s.zones (s.pages p).zone_num ∈ s.indices F (s.pages p).zone_num := by
      rw [mem_indices, Nat.add_sub_cancel' hle]
      exact ⟨hp, rfl⟩
    obtain ⟨k, i, hf, hpi⟩ := (h.tiling _).cover hx
    refine ⟨k, _, hf.1, ?_⟩
    rw [mem_block] at hpi ⊢
    omega
  · rintro ⟨k, q, hq, hp⟩
    exact (h.block_subset hq hp).1

section
variable (h : Inv s F) (hq : q ∈ s.free_list k) (hq' : q' ∈ s.free_list k')
include h hq hq'

theorem block_unique (hp : p ∈ block k q) (hp' : p ∈ block k' q') : k = k' ∧ q = q' := by
  have hz := (h.block_subset hq hp).2.symm.trans (h.block_subset hq' hp').2
  have hf := h.isFree_of_mem hq
  have hf' := h.isFree_of_mem hq'
  have hle := h.base_le (h.head hq).1
  have hle' := h.base_le (h.head hq').1
  rw [← hz] at hf' hle'
  rw [mem_block] at hp hp'
  obtain ⟨hk, hi⟩ := (h.tiling _).disjoint (x := p - s.zones (s.pages q).zone_num) hf hf'
    (mem_block.mpr (by omega)) (mem_block.mpr (by omega))
  exact ⟨hk, by omega⟩

theorem disjoint_block (hne : (k, q) ≠ (k', q')) : Disjoint (block k q) (block k' q') := by
  rw [disjoint_left]
  intro p hp hp'
  obtain ⟨rfl, rfl⟩ := h.block_unique hq hq' hp hp'
  exact hne rfl

end

theorem nr_free_pages (h : Inv s F) : buddy_nr_free_pages s = F.card := by
  have hF : F = (range (MAX_ORDER + 1)).biUnion fun k =>
      (s.free_list k).toFinset.biUnion (block k) := by
    ext p
    simp only [mem_biUnion, mem_range, List.mem_toFinset, h.mem_iff]
    constructor
    · rintro ⟨k, q, hq, hp⟩
      have := (h.tiling _).order_le (h.isFree_of_mem hq)
      exact ⟨k, by omega, q, hq, hp⟩
    · rintro ⟨k, -, q, hq, hp⟩
      exact ⟨k, q, hq, hp⟩
  rw [hF, card_biUnion]
  · refine sum_congr rfl fun k _ => ?_
    rw [card_biUnion]
    · simp [h.count, List.toFinset_card_of_nodup (h.nodup k)]
    · intro q hq q' hq' hne
      rw [mem_coe, List.mem_toFinset] at hq hq'
      exact h.disjoint_block hq hq' fun heq => hne (Prod.ext_iff.mp heq).2
  · intro k _ k' _ hne
    rw [Function.onFun, disjoint_biUnion_left]
    intro q hq
    rw [disjoint_biUnion_right]
    intro q' hq'
    rw [List.mem_toFinset] at hq hq'
    exact h.disjoint_block hq hq' fun heq => hne (Prod.ext_iff.mp heq).1

end Buddy.Inv

open Buddy

section
variable {s s' : Buddy} {zs runs : List Run} {base n p z : ℕ}

theorem Buddy.Zoned.reserved (h : s.Zoned zs) (hp : p < s.npage) (hnot : ∀ zn ∈ zs, p ∉ zn.pages) :
    (s.pages p).flags.reserved = true := by
  by_contra hres
  obtain ⟨zn, hzn, hmem⟩ := h.inZone.mp ⟨hp, by simpa using hres, rfl⟩
  exact hnot zn (List.mem_of_getElem? hzn) hmem

theorem buddy_init_valid (hres : ∀ p < s.npage, (s.pages p).flags.reserved = true)
    (hzone : s.zone_num = 0) : (buddy_init s).Valid [] [] := by
  have hno : ∀ {z p}, ¬ (buddy_init s).InZone z p := fun hz => by
    have := hres _ hz.lt
    rw [show (s.pages _).flags.reserved = false from hz.reserved] at this
    contradiction
  refine ⟨⟨hzone, by simp, by simp [hno]⟩, ?_, by simp, .nil⟩
  have hempty : freePages [] [] = ∅ := rfl
  rw [hempty]
  refine ⟨by simp, fun h => (hno h).elim, fun h => (hno h).elim, by simp [buddy_init],
    fun h => (hno h).elim, by simp [buddy_init], by simp [buddy_init], by simp, fun z => ?_⟩
  convert Tiling.empty MAX_ORDER using 1
  · ext x
    simp [indices]
  · funext k i
    simp [IsFree, buddy_init]

theorem getElem?_concat_eq_some {zn new : Run} :
    (zs ++ [new])[z]? = some zn ↔ zs[z]? = some zn ∨ z = zs.length ∧ zn = new := by
  obtain hlt | rfl | hgt := Nat.lt_trichotomy z zs.length
  · simp [List.getElem?_append_left hlt, hlt.ne]
  · simp [eq_comm]
  · have hnone : zs[z]? = none := List.getElem?_eq_none hgt.le
    have hnone' : (zs ++ [new])[z]? = none :=
      List.getElem?_eq_none (by simpa using Nat.succ_le_of_lt hgt)
    simp [hnone, hnone', hgt.ne']

theorem Buddy.Valid.memmap_spec (h : s.Valid zs []) (hn : 0 < n)
    (hzone : zs.length < MAX_ZONE_NUM) (hle : base + n ≤ s.npage)
    (hnew : ∀ z ∈ zs, Disjoint (Run.mk base n).pages z.pages) :
    ∃ s', buddy_init_memmap base n s = some s' ∧ s'.Valid (zs ++ [⟨base, n⟩]) [] ∧
      s'.npage = s.npage := by
  have hres : ∀ p, base ≤ p → p < base + n → (s.pages p).flags.reserved = true := by
    intro p hlo hhi
    refine h.zoned.reserved (by omega) fun zn hzn => ?_
    exact disjoint_left.mp (hnew zn hzn) (Run.mem_pages.mpr ⟨hlo, hhi⟩)
  obtain ⟨s', heq, hinv, hfr⟩ := buddy_init_memmap_spec h.inv hn (h.zoned.count ▸ hzone) hle hres
  refine ⟨s', heq, ⟨Zoned.frame ?_ hfr, ?_, by simp, .nil⟩, hfr.npage⟩
  · refine ⟨?_, ?_, ?_⟩
    · simp [addZone, h.zoned.count]
    · intro z zn hz
      rcases getElem?_concat_eq_some.mp hz with hz | ⟨rfl, rfl⟩
      · have hlt := (List.getElem?_eq_some_iff.mp hz).1
        rw [zones_addZone (by rw [h.zoned.count]; exact hlt.ne)]
        exact h.zoned.base hz
      · simp [addZone, h.zoned.count]
    · intro z p
      rw [inZone_addZone hres hle, h.zoned.inZone, h.zoned.count]
      simp only [getElem?_concat_eq_some]
      constructor
      · rintro (⟨rfl, hp⟩ | ⟨zn, hzn, hp⟩)
        · exact ⟨_, .inr ⟨rfl, rfl⟩, Run.mem_pages.mpr hp⟩
        · exact ⟨zn, .inl hzn, hp⟩
      · rintro ⟨zn, hzn | ⟨rfl, rfl⟩, hp⟩
        · exact .inr ⟨zn, hzn, hp⟩
        · exact .inl ⟨rfl, Run.mem_pages.mp hp⟩
  · rwa [freePages_concat]

theorem Boot.valid (h : Boot s zs) : s.Valid zs [] := by
  induction h with
  | init hres hzone => exact buddy_init_valid hres hzone
  | memmap h hn hzone hle hnew hstep ih =>
    obtain ⟨s', heq, hvalid, -⟩ := ih.memmap_spec hn hzone hle hnew
    rw [heq, some.injEq] at hstep
    exact hstep ▸ hvalid

theorem Reach.valid (h : Reach s zs runs) : s.Valid zs runs := by
  induction h with
  | boot h => exact h.valid
  | alloc h hpos hn hstep ih =>
    rcases ih.alloc_spec hpos hn with hnone | ⟨page, s', heq, -, hvalid, -⟩
    · rw [hnone] at hstep
      cases hstep
    · rw [heq] at hstep
      cases hstep
      exact hvalid
  | full h hpos hn hstep ih =>
    rcases ih.alloc_spec hpos hn with hnone | ⟨page, s', heq, -, hvalid, -⟩
    · rw [hnone] at hstep
      cases hstep
      exact ih
    · rw [heq] at hstep
      cases hstep
  | free h hr hpos hlo hhi hstep ih =>
    obtain ⟨s', heq, hvalid, -⟩ := ih.free_spec hr hpos hlo hhi
    rw [heq, some.injEq] at hstep
    exact hstep ▸ hvalid

end

/-- What the free lists, the descriptors and the counters say about the zones `zs` when the
runs `runs` are live. -/
structure Buddy.Integrity (s : Buddy) (zs runs : List Run) : Prop where
  aligned : ∀ k p, p ∈ s.free_list k → k ≤ MAX_ORDER ∧
    ∃ zn ∈ zs, zn.base ≤ p ∧ p + 2 ^ k ≤ zn.base + zn.n ∧ 2 ^ k ∣ p - zn.base
  marked : ∀ k p, p ∈ s.free_list k →
    (s.pages p).flags.property = true ∧ (s.pages p).property = k
  linked : ∀ zn ∈ zs, ∀ p ∈ zn.pages, (s.pages p).flags.property = true →
    p ∈ s.free_list (s.pages p).property
  once : ∀ k p, p ∈ s.free_list k →
    (s.free_list k).count p = 1 ∧ ∀ j, p ∈ s.free_list j → j = k
  free_disjoint : ∀ k p k' p', p ∈ s.free_list k → p' ∈ s.free_list k' → (k, p) ≠ (k', p') →
    Disjoint (block k p) (block k' p')
  run_disjoint : runs.Pairwise fun r r' => Disjoint r.pages r'.pages
  free_run_disjoint : ∀ k p, p ∈ s.free_list k → ∀ r ∈ runs, Disjoint (block k p) r.pages
  cover : ∀ p, (∃ zn ∈ zs, p ∈ zn.pages) ↔
    (∃ k q, q ∈ s.free_list k ∧ p ∈ block k q) ∨ ∃ r ∈ runs, p ∈ r.pages
  total : buddy_nr_free_pages s = (freePages zs runs).card

theorem Buddy.Valid.integrity {s : Buddy} {zs runs : List Run} (h : s.Valid zs runs) :
    s.Integrity zs runs where
  aligned k p hp := by
    have hf := h.inv.isFree_of_mem hp
    obtain ⟨zn, hzn, hpz⟩ := h.zoned.inZone.mp (h.inv.head hp).1
    have hbase := h.zoned.base hzn
    have hpos := Nat.two_pow_pos k
    -- The last page of the block lies in the same zone.
    obtain ⟨hF, hz⟩ := h.inv.block_subset hp (mem_block.mpr
      (show p ≤ p + 2 ^ k - 1 ∧ p + 2 ^ k - 1 < p + 2 ^ k by omega))
    obtain ⟨zn', hzn', hlast⟩ := h.zoned.inZone.mp (hz ▸ h.inv.inZone _ hF)
    rw [hzn, some.injEq] at hzn'
    subst hzn'
    rw [Run.mem_pages] at hpz hlast
    have hdvd := (h.inv.tiling _).dvd hf
    rw [hbase] at hdvd
    exact ⟨(h.inv.tiling _).order_le hf, zn, List.mem_of_getElem? hzn, hpz.1, by omega, hdvd⟩
  marked k p hp := (h.inv.head hp).2
  linked zn hzn p hp hprop := by
    obtain ⟨z, -, hzone⟩ := h.zoned.exists_zone hzn
    exact h.inv.linked (hzone p hp) hprop
  once k p hp := by
    refine ⟨List.count_eq_one_of_mem (h.inv.nodup k) hp, fun j hj => ?_⟩
    exact (h.inv.head hj).2.2.symm.trans (h.inv.head hp).2.2
  free_disjoint k p k' p' hp hp' hne := h.inv.disjoint_block hp hp' hne
  run_disjoint := h.disjoint
  free_run_disjoint k p hp r hr := by
    rw [disjoint_left]
    intro q hq
    exact (mem_freePages.mp (h.inv.block_subset hp hq).1).2 r hr
  cover p := by
    rw [← h.inv.mem_iff, mem_freePages]
    constructor
    · intro hz
      by_cases hr : ∃ r ∈ runs, p ∈ r.pages
      · exact .inr hr
      · exact .inl ⟨hz, by simpa using hr⟩
    · rintro (⟨hz, -⟩ | ⟨r, hr, hp⟩)
      · exact hz
      · obtain ⟨-, -, zn, hzn, hsub⟩ := h.run r hr
        exact ⟨zn, hzn, hsub hp⟩
  total := h.inv.nr_free_pages

/-- From `buddy_init` and any zones, over any sequence of allocations of 1 to 1024 pages and
frees of live runs or parts of them, the allocator keeps its integrity, an allocation
yields free pages or none, and no assertion fails. -/
theorem buddy_integrity {s : Buddy} {zs runs : List Run} (h : Reach s zs runs) :
    s.Integrity zs runs ∧
    (∀ n, 1 ≤ n → n ≤ 1024 → ∃ result s', buddy_alloc_pages n s = some (result, s') ∧
      ∀ page, result = some page → ∀ p ∈ (Run.mk page n).pages,
        ∃ k q, q ∈ s.free_list k ∧ p ∈ block k q) ∧
    (∀ r ∈ runs, ∀ base n, 1 ≤ n → r.base ≤ base → base + n ≤ r.base + r.n →
      (buddy_free_pages base n s).isSome) ∧
    (Boot s zs → ∀ base n, 1 ≤ n → zs.length < MAX_ZONE_NUM → base + n ≤ s.npage →
      (∀ z ∈ zs, Disjoint (Run.mk base n).pages z.pages) →
      (buddy_init_memmap base n s).isSome) := by
  have hvalid := h.valid
  refine ⟨hvalid.integrity, fun n hpos hn => ?_, fun r hr base n hpos hlo hhi => ?_,
    fun hboot base n hn hzone hle hnew => ?_⟩
  · rcases hvalid.alloc_spec hpos hn with hnone | ⟨page, s', heq, hfree, -⟩
    · exact ⟨none, s, hnone, by simp⟩
    · refine ⟨some page, s', heq, ?_⟩
      rintro _ ⟨rfl⟩ p hp
      exact hvalid.inv.mem_iff.mp (hfree p hp)
  · obtain ⟨s', heq, -⟩ := hvalid.free_spec hr hpos hlo hhi
    rw [heq]
    rfl
  · obtain ⟨s', heq, -⟩ := hboot.valid.memmap_spec hn hzone hle hnew
    rw [heq]
    rfl

theorem Buddy.Valid.alloc_one {s : Buddy} {zs rs : List Run} (h : s.Valid zs rs)
    (hfree : 0 < (freePages zs rs).card) :
    ∃ page b, buddy_alloc_pages 1 s = some (some page, b) ∧
      (freePages zs rs).card = (freePages zs (⟨page, 1⟩ :: rs)).card + 1 := by
  rcases h.alloc_spec Nat.one_pos (by decide) with hnone | ⟨page, b, heq, hmem, -, -, -⟩
  · obtain ⟨p, hp⟩ := card_pos.mp hfree
    obtain ⟨k, q, hq, -⟩ := h.inv.mem_iff.mp hp
    have hk : k ≤ MAX_ORDER := (h.inv.tiling _).order_le (h.inv.isFree_of_mem hq)
    -- a list with a block is found
    cases hfind : (List.range' 0 (MAX_ORDER + 1)).find? (fun o => !(s.free_list o).isEmpty) with
    | none =>
      have hempty := List.find?_eq_none.mp hfind k (List.mem_range'_1.mpr ⟨k.zero_le, by omega⟩)
      rw [Bool.not_eq_true, Bool.not_eq_false', List.isEmpty_iff] at hempty
      rw [hempty] at hq
      cases hq
    | some o =>
      obtain ⟨page, rest, hlist⟩ : ∃ page rest, s.free_list o = page :: rest :=
        List.exists_cons_of_ne_nil (by simpa using List.find?_some hfind)
      have horder : getorder 1 = some 0 := by decide
      simp [buddy_alloc_pages, buddy_alloc_pages_sub, horder, hfind, hlist] at hnone
  · refine ⟨page, b, heq, ?_⟩
    have hpages : (Run.mk page 1).pages = {page} := Nat.Ico_succ_singleton page
    have hpage : page ∈ freePages zs rs := hmem page (by simp [hpages])
    rw [freePages_cons, hpages, sdiff_singleton_eq_erase, card_erase_add_one hpage]

def Buddy.reserved (n : ℕ) : Buddy where
  npage := n
  pages := fun _ => ⟨0, ⟨true, false, false⟩, 0, 0⟩
  free_list := fun _ => []
  nr_free := fun _ => 0
  zones := fun _ => 0
  zone_num := 0

theorem Boot.exists_one_zone {n : ℕ} (hn : 0 < n) :
    ∃ s, buddy_init_memmap 0 n (buddy_init (Buddy.reserved n)) = some s ∧ Boot s [⟨0, n⟩] ∧
      s.npage = n := by
  have hinit : Boot (buddy_init (Buddy.reserved n)) [] := .init (fun _ _ => rfl) rfl
  have hle : 0 + n ≤ (buddy_init (Buddy.reserved n)).npage := by simp [buddy_init, Buddy.reserved]
  obtain ⟨s, hs, -, hnpage⟩ := hinit.valid.memmap_spec hn (by decide) hle (by simp)
  exact ⟨s, hs, hinit.memmap hn (by decide) hle (by simp) hs, hnpage⟩

theorem Reach.free_some {s : Buddy} {zs runs : List Run} (h : Reach s zs runs) (r : Run)
    (base n : ℕ) (hr : r ∈ runs) (hpos : 0 < n) (hlo : r.base ≤ base)
    (hhi : base + n ≤ r.base + r.n) :
    ∃ s', buddy_free_pages base n s = some s' ∧ Reach s' zs (r.without base n ++ runs.erase r) := by
  obtain ⟨s', heq, -⟩ := h.valid.free_spec hr hpos hlo hhi
  exact ⟨s', heq, h.free hr hpos hlo hhi heq⟩

/-- Of a zone of 20 pages, 7 are allocated and the three in their middle given back. -/
theorem Reach.exists_parted : ∃ s0 s1 s, Boot s0 [⟨0, 20⟩] ∧ s0.free_list 4 = [0] ∧
    buddy_alloc_pages 7 s0 = some (some 0, s1) ∧ buddy_free_pages 2 3 s1 = some s ∧
    Reach s [⟨0, 20⟩] [⟨0, 2⟩, ⟨5, 2⟩] := by
  obtain ⟨s0, hs, hboot, -⟩ := Boot.exists_one_zone (n := 20) (by decide)
  have hrun : (buddy_init_memmap 0 20 (buddy_init (Buddy.reserved 20))).bind (fun s0 =>
      (buddy_alloc_pages 7 s0).map fun r => (s0.free_list 4, r.1)) = some ([0], some 0) := by
    decide +kernel
  rw [hs, Option.bind_some] at hrun
  obtain ⟨⟨page, s1⟩, halloc, hpage⟩ := Option.map_eq_some_iff.mp hrun
  obtain ⟨hlist, rfl⟩ := Prod.mk.inj hpage
  have h1 : Reach s1 [⟨0, 20⟩] [⟨0, 7⟩] := .alloc (.boot hboot) (by decide) (by decide) halloc
  obtain ⟨s, hfree, h⟩ :=
    h1.free_some ⟨0, 7⟩ 2 3 (by simp) (by decide) (by decide) (by decide)
  exact ⟨s0, s1, s, hboot, hlist, halloc, hfree, h⟩

/-- With two live runs a page is allocated apart from them, and one is freed. -/
theorem buddy_integrity_parted : ∃ s page s', Reach s [⟨0, 20⟩] [⟨0, 2⟩, ⟨5, 2⟩] ∧
    s.Integrity [⟨0, 20⟩] [⟨0, 2⟩, ⟨5, 2⟩] ∧ buddy_nr_free_pages s = 16 ∧
    buddy_alloc_pages 1 s = some (some page, s') ∧
    Disjoint (Run.mk page 1).pages (Run.mk 5 2).pages ∧ (buddy_free_pages 6 1 s).isSome := by
  obtain ⟨-, -, s, -, -, -, -, h⟩ := Reach.exists_parted
  obtain ⟨hint, halloc, hfree, -⟩ := buddy_integrity h
  obtain ⟨page, s', hpage, -⟩ := h.valid.alloc_one (by decide)
  obtain ⟨result, s2, heq, hpages⟩ := halloc 1 le_rfl (by decide)
  cases heq.symm.trans hpage
  refine ⟨s, page, s', h, hint, hint.total.trans (by decide), hpage, ?_,
    hfree ⟨5, 2⟩ (by simp) 6 1 (by decide) (by decide) (by decide)⟩
  rw [disjoint_left]
  intro p hp
  obtain ⟨k, q, hq, hblock⟩ := hpages page rfl p hp
  exact disjoint_left.mp (hint.free_run_disjoint k q hq ⟨5, 2⟩ (by simp)) hblock

end ucore
