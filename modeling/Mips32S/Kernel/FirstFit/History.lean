import Mips32S.Kernel.FirstFit.Merge

open spans List
open Finset (mem_Ico mem_sdiff mem_union)
open Option (bind_eq_some_iff guard_eq_some')

namespace ucore.FirstFit

variable {s s' : FirstFit} {base n m b p q page : ℕ} {live : Finset ℕ}

/-- The pages from `base` on, `n` of them, are live or in exactly one of the free blocks, whose
first pages are marked. -/
structure Inv (base n : ℕ) (live : Finset ℕ) (s : FirstFit) : Prop where
  spaced : Spaced s.blocks
  nr_free : s.nr_free = total s.blocks
  region : ∀ p, (base ≤ p ∧ p < base + n) ↔ p ∈ live ∨ p ∈ covered s.blocks
  disjoint : ∀ p ∈ live, p ∉ covered s.blocks
  marked : ∀ p, base ≤ p → p < base + n →
    ((s.pages p).flags.property = true ↔ p ∈ s.free_list)
  reserved : ∀ p, base ≤ p → p < base + n → (s.pages p).flags.reserved = false

theorem mem_covered_of_mem (h : Spaced s.blocks) (hp : p ∈ s.free_list) : p ∈ covered s.blocks := by
  have hmem : s.block p ∈ s.blocks := mem_map_of_mem hp
  have hpos := h.pos _ hmem
  exact ⟨_, hmem, le_refl p, Nat.lt_add_of_pos_right hpos⟩

theorem nodup_of_spaced (h : Spaced s.blocks) : s.free_list.Nodup := by
  refine (pairwise_map.mp h.sorted).imp fun {p q} hpq => ?_
  unfold Before block at hpq
  omega

theorem new_block (ok : Page → Bool) (f : Page → Page) (hn : 0 < n)
    (hok : ∀ p, base ≤ p → p < base + n → ok (s.pages p) = true)
    (hf : ∀ x, (f x).flags = .zero) :
    ∃ s1, s.sweep ok f n base = some s1 ∧ let t := (s1.setProperty base n).SetPageProperty base
      t.free_list = s.free_list ∧ t.nr_free = s.nr_free ∧ t.block base = (base, n) ∧
      (∀ q, ¬(base ≤ q ∧ q < base + n) → t.block q = s.block q ∧
        (t.pages q).flags = (s.pages q).flags) ∧
      ∀ q, base ≤ q ∧ q < base + n → (t.pages q).flags.reserved = false ∧
        ((t.pages q).flags.property = true ↔ q = base) := by
  obtain ⟨s1, hsweep, hlist, hnr, hpages⟩ := sweep_spec hok
  refine ⟨s1, hsweep, hlist, hnr, ?_, fun q hq => ⟨?_, ?_⟩, fun q hq => ⟨?_, ?_⟩⟩
  · rw [block_SetPageProperty, block_setProperty, if_pos rfl]
  · rw [block_SetPageProperty, block_setProperty, if_neg (by omega), block, block, hpages,
      if_neg hq]
  · rw [flags_SetPageProperty, flags_setProperty, if_neg (by omega), hpages, if_neg hq]
  · rw [flags_SetPageProperty, flags_setProperty, hpages, if_pos hq, hf]
    rfl
  · rw [flags_SetPageProperty, flags_setProperty, hpages, if_pos hq, hf]
    simp [PageFlags.zero]

theorem init_memmap_spec (hn : 0 < n)
    (hres : ∀ p, base ≤ p → p < base + n → (s.pages p).flags.reserved = true) :
    ∃ s', default_init_memmap base n (default_init s) = some s' ∧ Inv base n ∅ s' := by
  obtain ⟨s1, hsweep, hlist, hnr, hblock, -, hin⟩ := new_block (s := default_init s)
    (fun x => x.flags.reserved)
    (fun x => { x with flags := .zero, property := 0, ref := 0 }) hn hres fun _ => rfl
  set t := (s1.setProperty base n).SetPageProperty base with ht
  refine ⟨{ t with nr_free := t.nr_free + n, free_list := base :: t.free_list }, ?_, ?_⟩
  · simp [default_init_memmap, guard, hn, hsweep, ht]
  have hblocks : blocks { t with nr_free := t.nr_free + n, free_list := base :: t.free_list } =
      [(base, n)] := by
    rw [blocks, hlist]
    exact congrArg (fun x => [x]) hblock
  refine ⟨?_, ?_, fun p => ?_, fun p hp => ?_, fun p hlo hhi => ?_, fun p hlo hhi => ?_⟩
  · rw [hblocks]
    exact ⟨pairwise_singleton _ _, by simpa using hn⟩
  · rw [hblocks]
    simp [total, hnr, default_init]
  · rw [hblocks]
    simp [covered]
  · cases Finset.notMem_empty p hp
  · rw [hlist]
    exact (hin p ⟨hlo, hhi⟩).2.trans (by simp [default_init])
  · exact (hin p ⟨hlo, hhi⟩).1

section
variable (h : Inv base n live s)
include h

theorem Inv.give_back (hm : 0 < m) (hlive : Finset.Ico b (b + m) ⊆ live) :
    ∃ s1, s.sweep (fun x => !x.flags.reserved && !x.flags.property)
        (fun x => { x with flags := .zero, ref := 0 }) m b = some s1 ∧
      let t := (s1.setProperty b m).SetPageProperty b
      t.blocks = s.blocks ∧ t.nr_free = s.nr_free ∧ t.block b = (b, m) ∧
      (b :: t.free_list).Nodup ∧
      (∀ q, base ≤ q ∧ q < base + n →
        ((t.pages q).flags.property = true ↔ q = b ∨ q ∈ t.free_list)) ∧
      ∀ q, base ≤ q → q < base + n → (t.pages q).flags.reserved = false := by
  have hin : ∀ p, b ≤ p ∧ p < b + m → p ∈ live := fun p hp => hlive (mem_Ico.mpr hp)
  have hout : ∀ p ∈ s.free_list, ¬(b ≤ p ∧ p < b + m) := fun p hp hpm =>
    h.disjoint p (hin p hpm) (mem_covered_of_mem h.spaced hp)
  obtain ⟨s1, hsweep, hlist, hnr, hblock, hothers, hnew⟩ := new_block (s := s)
    (fun x => !x.flags.reserved && !x.flags.property)
    (fun x => { x with flags := .zero, ref := 0 }) hm (fun p hlo hhi => by
      obtain ⟨hlo', hhi'⟩ := (h.region p).mpr (.inl (hin p ⟨hlo, hhi⟩))
      have hprop : (s.pages p).flags.property = false := by
        rw [Bool.eq_false_iff, Ne, h.marked p hlo' hhi']
        exact fun hp => hout p hp ⟨hlo, hhi⟩
      simp [hprop, h.reserved p hlo' hhi']) fun _ => rfl
  have hb : b ∉ s.free_list := fun hmem => hout b hmem ⟨le_refl b, by omega⟩
  refine ⟨s1, hsweep, ?_, hnr, hblock, ?_, fun q hq => ?_, fun q hlo hhi => ?_⟩
  · rw [blocks, blocks, hlist]
    exact map_congr_left fun p hp => (hothers p (hout p hp)).1
  · rw [hlist]
    exact nodup_cons.mpr ⟨hb, nodup_of_spaced h.spaced⟩
  · rw [hlist]
    by_cases hqm : b ≤ q ∧ q < b + m
    · rw [(hnew q hqm).2]
      exact ⟨.inl, fun hor => hor.resolve_right fun hmem => hout q hmem hqm⟩
    · rw [(hothers q hqm).2, h.marked q hq.1 hq.2]
      exact ⟨.inr, fun hor => hor.resolve_left fun heq => hqm (by omega)⟩
  · by_cases hqm : b ≤ q ∧ q < b + m
    · exact (hnew q hqm).1
    · rw [(hothers q hqm).2]
      exact h.reserved q hlo hhi

/-- Freeing live pages: the block is merged with its neighbours and put at its place. -/
theorem Inv.free_spec (hm : 0 < m) (hlive : Finset.Ico b (b + m) ⊆ live) :
    ∃ s', default_free_pages b m s = some s' ∧ Inv base n (live \ Finset.Ico b (b + m)) s' := by
  obtain ⟨s1, hsweep, htblocks, hnr, hblock, hnodup, hmark, hres⟩ := h.give_back hm hlive
  set t := (s1.setProperty b m).SetPageProperty b with ht
  obtain ⟨c, l, s2, habs, hmerge, hblock2, hlist2, hold, hmark2, hnr2, hres2⟩ :=
    merge_spec hnodup hmark (show t.free_list = [] ++ t.free_list from rfl)
  rw [hblock, show t.free_list.map t.block = s.blocks from htblocks] at habs
  have hdisj : ∀ a ∈ s.blocks, a.1 + a.2 ≤ b ∨ b + m ≤ a.1 := by
    intro a ha
    have hpos := h.spaced.pos a ha
    by_contra hmeet
    -- a page of both
    refine h.disjoint (max a.1 b) (hlive (mem_Ico.mpr ?_)) ⟨a, ha, ?_⟩
    · omega
    · omega
  obtain ⟨hspaced, hcovered, htotal, hsub⟩ := h.spaced.absorb_insert hm hdisj habs
  have hl : s2.free_list.map s2.block = l := by
    rw [map_congr_left fun p hp => (hold p hp).2, hlist2, nil_append, map_map]
    refine (map_congr_left fun a ha => ?_).trans (map_id l)
    obtain ⟨p, -, rfl⟩ := mem_map.mp (htblocks ▸ hsub.subset ha)
    rfl
  set s' : FirstFit := { s2 with
    nr_free := s2.nr_free + m
    free_list := s2.free_list.orderedInsert (· < ·) c.1 }
  have hblocks : s'.blocks = l.orderedInsert (fun a c => a.1 < c.1) c := by
    change (s2.free_list.orderedInsert (· < ·) c.1).map s2.block = _
    rw [map_orderedInsert _ (fun a c => a.1 < c.1), hl, hblock2]
    · exact fun _ _ => Iff.rfl
    · exact fun _ _ => Iff.rfl
  rw [← hblocks] at hspaced hcovered htotal
  refine ⟨s', ?_, hspaced, ?_, fun p => ?_, fun p hp => ?_, fun p hlo hhi => ?_,
    fun p hlo hhi => (hres2 p).trans (hres p hlo hhi)⟩
  · simp [default_free_pages, guard, hm, hsweep, ← ht, hmerge, s']
  · rw [htotal, ← h.nr_free, ← hnr, ← hnr2, Nat.add_comm]
  · have hmem := fun hp => hlive (mem_Ico.mpr hp : p ∈ Finset.Ico b (b + m))
    rw [hcovered, mem_covered_cons, h.region, mem_sdiff, mem_Ico]
    tauto
  · obtain ⟨hp, hnot⟩ := mem_sdiff.mp hp
    rw [mem_Ico] at hnot
    rw [hcovered, mem_covered_cons]
    exact not_or.mpr ⟨hnot, h.disjoint p hp⟩
  · rw [(perm_orderedInsert _ _ _).mem_iff, mem_cons]
    exact hmark2 p ⟨hlo, hhi⟩

theorem Inv.find_cases (m : ℕ) :
    (s.free_list.find? (fun p => decide ((s.pages p).property ≥ m)) = none ∧
      ∀ p ∈ s.free_list, (s.pages p).property < m) ∨
    ∃ page as bs, s.free_list.find? (fun p => decide ((s.pages p).property ≥ m)) = some page ∧
      s.free_list = as ++ page :: bs ∧ m ≤ (s.pages page).property ∧
      ∀ q ∈ s.free_list, m ≤ (s.pages q).property → page ≤ q := by
  cases hfind : s.free_list.find? (fun p => decide ((s.pages p).property ≥ m)) with
  | none =>
    refine .inl ⟨rfl, fun p hp => ?_⟩
    simpa using find?_eq_none.mp hfind p hp
  | some page =>
    obtain ⟨hfit, as, bs, hlist, has⟩ := find?_eq_some_iff_append.mp hfind
    refine .inr ⟨page, as, bs, rfl, hlist, by simpa using hfit, fun q hq hm => ?_⟩
    rw [hlist] at hq
    rcases mem_append.mp hq with hq | hq
    · simpa [hm] using has q hq
    · have hsorted := pairwise_map.mp h.spaced.sorted
      rw [hlist] at hsorted
      rcases mem_cons.mp hq with rfl | hq
      · exact le_refl q
      · have := (pairwise_cons.mp (pairwise_append.mp hsorted).2.1).1 q hq
        unfold Before block at this
        omega

theorem Inv.take {as bs : List ℕ} (hlist : s.free_list = as ++ page :: bs) (hm : 0 < m)
    (hfit : m ≤ (s.pages page).property) :
    Inv base n (live ∪ Finset.Ico page (page + m)) (default_alloc_pages.take page m s) := by
  have hnodup := nodup_of_spaced h.spaced
  set s' := default_alloc_pages.take page m s with hs'
  have hlist' : s'.free_list =
      as ++ (if m < (s.pages page).property then (page + m) :: bs else bs) :=
    take_free_list hnodup hlist
  have hold : s.blocks = as.map s.block ++ s.block page :: bs.map s.block := by
    rw [blocks, hlist, map_append, map_cons]
  have hspaced := hold ▸ h.spaced
  have hfresh : ∀ q ∈ as ++ bs, ¬(q = page + m ∧ m < (s.pages page).property) := by
    rintro q hq ⟨rfl, hlt⟩
    have hq' : s.block (page + m) ∈ as.map s.block ++ bs.map s.block := by
      rw [← map_append]
      exact mem_map_of_mem hq
    have hpos := hspaced.pos (s.block (page + m)) (by
      simp only [mem_append, mem_cons] at hq' ⊢
      tauto)
    exact hspaced.not_mem_others (Nat.le_add_right page m) (Nat.add_lt_add_left hlt page)
      ⟨_, hq', le_refl _, Nat.lt_add_of_pos_right hpos⟩
  have hsame : ∀ l : List ℕ, (∀ q ∈ l, q ∈ as ++ bs) → l.map s'.block = l.map s.block :=
    fun l hl => map_congr_left fun q hq => take_block.trans (if_neg (hfresh q (hl q hq)))
  have hblocks : s'.blocks = as.map s.block ++ (cutoff (s.block page) m ++ bs.map s.block) := by
    rw [blocks, hlist', map_append, hsame as (by simp; tauto), cutoff]
    by_cases hlt : m < (s.pages page).property
    · rw [if_pos hlt, if_pos (show m < (s.block page).2 from hlt), map_cons,
        hsame bs (by simp; tauto), take_block, if_pos ⟨rfl, hlt⟩]
      rfl
    · rw [if_neg hlt, if_neg (show ¬m < (s.block page).2 from hlt), hsame bs (by simp; tauto)]
      rfl
  have htotal := total_cutoff (as.map s.block) (bs.map s.block)
    (show m ≤ (s.block page).2 from hfit)
  have hcovered := fun x => mem_covered_cutoff (x := x) hspaced hfit
  rw [← hblocks, ← hold] at htotal hcovered
  have hin : ∀ p, page ≤ p ∧ p < page + m → p ∈ covered s.blocks := fun p hp => by
    rw [hold]
    exact ⟨s.block page, by simp, hp.1, Nat.lt_of_lt_of_le hp.2 (Nat.add_le_add_left hfit page)⟩
  refine ⟨?_, ?_, fun p => ?_, fun p hp => ?_, fun p hlo hhi => ?_, fun p hlo hhi => ?_⟩
  · rw [hblocks]
    exact hspaced.cutoff
  · rw [take_nr_free, h.nr_free, ← htotal, Nat.add_sub_cancel]
  · rw [h.region, hcovered, mem_union, mem_Ico, block]
    tauto
  · rw [hcovered, block]
    rcases mem_union.mp hp with hp | hp
    · exact fun hmem => h.disjoint p hp hmem.1
    · exact fun hmem => hmem.2 (mem_Ico.mp hp)
  · have hmem : p ∈ s'.free_list ↔
        p ≠ page ∧ p ∈ s.free_list ∨ p = page + m ∧ m < (s.pages page).property := by
      rw [hlist] at hnodup
      have hothers : p ∈ as ∨ p ∈ bs → p ≠ page := by
        obtain ⟨-, hbs, hcross⟩ := nodup_append.mp hnodup
        rintro (hp | hp) rfl
        · exact hcross p hp p mem_cons_self rfl
        · exact (nodup_cons.mp hbs).1 hp
      rw [hlist', hlist, mem_append, mem_append, mem_cons]
      split
      · rw [mem_cons]
        tauto
      · tauto
    rw [take_flags, hmem, ← h.marked p hlo hhi]
    by_cases hpage : p = page
    · simp [hpage, hm.ne']
    · by_cases hrest : p = page + m ∧ m < (s.pages page).property
      · simp [hrest, hm.ne']
      · simp [hpage, hrest]
  · rw [take_flags]
    exact h.reserved p hlo hhi

/-- An allocation takes the first pages of the lowest block that is large enough. -/
theorem Inv.alloc_spec (hm : 0 < m) :
    (default_alloc_pages m s = some (none, s) ∧ ∀ p ∈ s.free_list, (s.pages p).property < m) ∨
    ∃ page s', default_alloc_pages m s = some (some page, s') ∧ page ∈ s.free_list ∧
      m ≤ (s.pages page).property ∧
      (∀ q ∈ s.free_list, m ≤ (s.pages q).property → page ≤ q) ∧
      Inv base n (live ∪ Finset.Ico page (page + m)) s' := by
  rcases h.find_cases m with ⟨hfind, hsmall⟩ | ⟨page, as, bs, hfind, hlist, hfit, hfirst⟩
  · refine .inl ⟨?_, hsmall⟩
    unfold default_alloc_pages
    simp only [guard, if_pos hm, hfind]
    split <;> rfl
  have hpage : page ∈ s.free_list := by simp [hlist]
  have hroom : ¬m > s.nr_free := by
    have := le_total (mem_map_of_mem (f := s.block) hpage)
    rw [h.nr_free, not_lt]
    exact hfit.trans this
  exact .inr ⟨page, default_alloc_pages.take page m s, by
    simp only [default_alloc_pages, guard, if_pos hm, if_neg hroom, hfind]; rfl, hpage, hfit,
    hfirst, h.take hlist hm hfit⟩

end

/-- The states that allocations and frees lead to from the `n` reserved pages at `base`, with the
pages that are live. Any run of live pages may be freed. -/
inductive Reach (base n : ℕ) : Finset ℕ → FirstFit → Prop
  | boot {s0 s : FirstFit} : (∀ p, base ≤ p → p < base + n → (s0.pages p).flags.reserved = true) →
    default_init_memmap base n (default_init s0) = some s → Reach base n ∅ s
  | alloc {live : Finset ℕ} {s s' : FirstFit} {page : Option ℕ} (m : ℕ) : Reach base n live s →
    default_alloc_pages m s = some (page, s') →
    Reach base n (live ∪ page.elim ∅ fun p => Finset.Ico p (p + m)) s'
  | free {live : Finset ℕ} {s s' : FirstFit} (b m : ℕ) : Reach base n live s →
    Finset.Ico b (b + m) ⊆ live → default_free_pages b m s = some s' →
    Reach base n (live \ Finset.Ico b (b + m)) s'

theorem Reach.inv (h : Reach base n live s) : Inv base n live s := by
  induction h with
  | @boot s0 s hres heq =>
    obtain ⟨_, hguard, -⟩ := bind_eq_some_iff.mp heq
    obtain ⟨s', heq', hinv⟩ := init_memmap_spec ((guard_eq_some' _).mp hguard) hres
    cases heq.symm.trans heq'
    exact hinv
  | alloc m _ heq ih =>
    obtain ⟨_, hguard, -⟩ := bind_eq_some_iff.mp heq
    rcases ih.alloc_spec ((guard_eq_some' _).mp hguard) with
      ⟨hnone, -⟩ | ⟨page, s', hsome, -, -, -, hinv⟩
    · cases hnone.symm.trans heq
      simpa using ih
    · cases hsome.symm.trans heq
      exact hinv
  | free b m _ hlive heq ih =>
    obtain ⟨_, hguard, -⟩ := bind_eq_some_iff.mp heq
    obtain ⟨s', heq', hinv⟩ := ih.free_spec ((guard_eq_some' _).mp hguard) hlive
    cases heq.symm.trans heq'
    exact hinv

/-- Over any sequence of allocations and frees the list is sorted with gaps between the blocks,
the counter is the sum of their sizes, and exactly their first pages are marked. Every page is live
or in one block. An allocation yields the lowest block that is large enough, or none if there is
none, and no assertion fails. -/
theorem first_fit (h : Reach base n live s) :
    (s.free_list.Pairwise fun p q => p + (s.pages p).property < q) ∧
    (∀ p ∈ s.free_list, 0 < (s.pages p).property) ∧
    s.nr_free = (s.free_list.map fun p => (s.pages p).property).sum ∧
    (∀ p, base ≤ p → p < base + n → ((s.pages p).flags.property = true ↔ p ∈ s.free_list)) ∧
    (∀ p, (base ≤ p ∧ p < base + n) ↔
      (p ∈ live ∨ ∃ q ∈ s.free_list, q ≤ p ∧ p < q + (s.pages q).property)) ∧
    (∀ p ∈ live, ¬∃ q ∈ s.free_list, q ≤ p ∧ p < q + (s.pages q).property) ∧
    (∀ m, 0 < m → ∃ page s', default_alloc_pages m s = some (page, s') ∧
      (∀ p, page = some p ↔ p ∈ s.free_list ∧ m ≤ (s.pages p).property ∧
        ∀ q ∈ s.free_list, m ≤ (s.pages q).property → p ≤ q) ∧
      (page = none ↔ ∀ q ∈ s.free_list, (s.pages q).property < m)) ∧
    ∀ b m, 0 < m → Finset.Ico b (b + m) ⊆ live → ∃ s', default_free_pages b m s = some s' := by
  have hinv := h.inv
  have hcovered : ∀ p, p ∈ covered s.blocks ↔
      ∃ q ∈ s.free_list, q ≤ p ∧ p < q + (s.pages q).property := fun p => by
    simp [covered, blocks, block]
  have hsorted : s.free_list.Pairwise fun p q => Before (s.block p) (s.block q) :=
    pairwise_map.mp hinv.spaced.sorted
  refine ⟨hsorted, fun p hp => hinv.spaced.pos _ (mem_map_of_mem hp), ?_, hinv.marked,
    fun p => ?_, fun p hp => ?_, fun m hm => ?_, fun b m hm hlive => ?_⟩
  · rw [hinv.nr_free, total, blocks, map_map]
    rfl
  · rw [← hcovered]
    exact hinv.region p
  · rw [← hcovered]
    exact hinv.disjoint p hp
  · rcases hinv.alloc_spec hm with ⟨heq, hsmall⟩ | ⟨page, s', heq, hpage, hfit, hfirst, -⟩
    · refine ⟨none, s, heq, fun p => ⟨fun hp => ?_, ?_⟩, fun _ => hsmall, fun _ => rfl⟩
      · cases hp
      · rintro ⟨hp, hfit, -⟩
        exact absurd (hsmall p hp) (not_lt.mpr hfit)
    · refine ⟨some page, s', heq, fun p => ⟨?_, ?_⟩, fun hnone => ?_, fun hsmall => ?_⟩
      · rintro ⟨rfl⟩
        exact ⟨hpage, hfit, hfirst⟩
      · rintro ⟨hp, hfit', hfirst'⟩
        exact congrArg some (Nat.le_antisymm (hfirst p hp hfit') (hfirst' page hpage hfit))
      · cases hnone
      · exact absurd (hsmall page hpage) (not_lt.mpr hfit)
  · obtain ⟨s', heq, -⟩ := hinv.free_spec hm hlive
    exact ⟨s', heq⟩

def reservedPages : FirstFit := ⟨fun _ => ⟨0, ⟨true, false, false⟩, 0, 0⟩, [], 0⟩

/-- Three runs of a region of ten pages are taken; the first and the third are freed, and then the
second between them. -/
theorem first_fit_two_sided : ∃ s, Reach 100 10 ∅ s ∧ s.free_list = [100] ∧
    (∀ p, 100 ≤ p → p < 110 → ((s.pages p).flags.property = true ↔ p ∈ s.free_list)) := by
  have hrun : ((default_init_memmap 100 10 (default_init reservedPages)).bind fun s0 =>
      (default_alloc_pages 2 s0).bind fun r1 => (default_alloc_pages 3 r1.2).bind fun r2 =>
      (default_alloc_pages 5 r2.2).bind fun r3 => (default_free_pages 100 2 r3.2).bind fun s4 =>
      (default_free_pages 105 5 s4).bind fun s5 => (default_free_pages 102 3 s5).bind fun s6 =>
      guard (r1.1 = some 100 ∧ r2.1 = some 102 ∧ r3.1 = some 105 ∧ s5.free_list = [100, 105] ∧
        s6.free_list = [100])).isSome := by
    decide +kernel
  obtain ⟨_, hrun⟩ := Option.isSome_iff_exists.mp hrun
  simp only [bind_eq_some_iff] at hrun
  obtain ⟨s0, h0, ⟨p1, s1⟩, h1, ⟨p2, s2⟩, h2, ⟨p3, s3⟩, h3, s4, h4, s5, h5, s6, h6, hrun⟩ := hrun
  obtain ⟨rfl, rfl, rfl, -, hlist⟩ := (guard_eq_some' _).mp hrun
  have hreach : Reach 100 10 ∅ s6 := by
    have hboot : Reach 100 10 ∅ s0 := .boot (fun _ _ _ => rfl) h0
    have hlive := ((hboot.alloc 2 h1).alloc 3 h2).alloc 5 h3
    exact ((hlive.free 100 2 (by decide) h4).free 105 5 (by decide) h5).free 102 3 (by decide) h6
  exact ⟨s6, hreach, hlist, (first_fit hreach).2.2.2.1⟩

end ucore.FirstFit
