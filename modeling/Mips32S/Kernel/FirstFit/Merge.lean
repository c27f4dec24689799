import Mips32S.Kernel.FirstFit.Pmm
import Mips32S.Lib.Spans

open spans Function List Prod

namespace ucore.FirstFit

variable {s s' : FirstFit} {base n m b p q page : ℕ} {f : Page → Page}

/-- The block that begins with the page: its first page and its size. -/
def block (s : FirstFit) (p : ℕ) : ℕ × ℕ := (p, (s.pages p).property)

def blocks (s : FirstFit) : List (ℕ × ℕ) := s.free_list.map s.block

theorem setPage_of_ne (h : q ≠ p) : (s.setPage p f).pages q = s.pages q := update_of_ne h _ _

theorem block_setProperty : (s.setProperty p n).block q = if q = p then (p, n) else s.block q := by
  by_cases h : q = p
  · subst h
    simp [block, setProperty, setPage]
  · simp [block, setProperty, setPage, h]

theorem block_SetPageProperty : (s.SetPageProperty p).block q = s.block q := by
  by_cases h : q = p
  · subst h
    simp [block, SetPageProperty, setPage]
  · simp [block, SetPageProperty, setPage, h]

theorem block_ClearPageProperty : (s.ClearPageProperty p).block q = s.block q := by
  by_cases h : q = p
  · subst h
    simp [block, ClearPageProperty, setPage]
  · simp [block, ClearPageProperty, setPage, h]

theorem flags_setProperty : ((s.setProperty p n).pages q).flags = (s.pages q).flags := by
  by_cases h : q = p
  · subst h
    simp [setProperty, setPage]
  · simp [setProperty, setPage, h]

theorem flags_SetPageProperty :
    ((s.SetPageProperty p).pages q).flags =
      { (s.pages q).flags with
        property := if q = p then true else (s.pages q).flags.property } := by
  by_cases h : q = p
  · subst h
    simp [SetPageProperty, setPage]
  · simp [SetPageProperty, setPage, h]

theorem flags_ClearPageProperty :
    ((s.ClearPageProperty p).pages q).flags =
      { (s.pages q).flags with
        property := if q = p then false else (s.pages q).flags.property } := by
  by_cases h : q = p
  · subst h
    simp [ClearPageProperty, setPage]
  · simp [ClearPageProperty, setPage, h]

theorem sweep_spec {ok : Page → Bool} (h : ∀ p, base ≤ p → p < base + n → ok (s.pages p) = true) :
    ∃ s', s.sweep ok f n base = some s' ∧ s'.free_list = s.free_list ∧ s'.nr_free = s.nr_free ∧
      ∀ p, s'.pages p = if base ≤ p ∧ p < base + n then f (s.pages p) else s.pages p := by
  induction n generalizing base s with
  | zero => exact ⟨s, rfl, rfl, rfl, fun p => (if_neg (by omega)).symm⟩
  | succ n ih =>
    obtain ⟨s', heq, hlist, hnr, hpages⟩ := @ih (s.setPage base f) (base + 1) fun p hlo hhi => by
      rw [setPage_of_ne (by omega)]
      exact h p (by omega) (by omega)
    refine ⟨s', ?_, hlist, hnr, fun p => ?_⟩
    · rw [sweep, if_pos (h base (le_refl _) (by omega)), heq]
    · rw [hpages]
      rcases eq_or_ne p base with rfl | hne
      · rw [if_neg (by omega), if_pos (by omega)]
        exact update_self p _ _
      · rw [setPage_of_ne hne]
        exact if_congr (by omega) rfl rfl

theorem list_add_append {as bs : List ℕ} (h : p ∉ as) :
    list_add p q (as ++ p :: bs) = as ++ p :: q :: bs := by
  induction as with
  | nil => simp [list_add]
  | cons a as ih =>
    have hne : ¬a = p := fun heq => h (heq ▸ mem_cons_self)
    rw [cons_append, list_add, if_neg hne, ih fun hmem => h (mem_cons_of_mem a hmem)]
    rfl

section

/-- One block of the list is merged with the block at `b`; the merged one begins at `b'`. -/
structure Joins (R : ℕ → Prop) (b p b' : ℕ) (s s' : FirstFit) : Prop where
  free_list : s'.free_list = s.free_list.erase p
  block : s'.block b' = (b', (s.block b).2 + (s.block p).2)
  others : ∀ q, q ≠ b → q ≠ p → s'.block q = s.block q
  marked : ∀ q, R q → ((s'.pages q).flags.property = true ↔ q = b' ∨ q ∈ s'.free_list)
  nr_free : s'.nr_free = s.nr_free
  reserved : ∀ q, (s'.pages q).flags.reserved = (s.pages q).flags.reserved

variable {R : ℕ → Prop} (hnodup : (b :: s.free_list).Nodup) (hp : p ∈ s.free_list)
  (hmark : ∀ q, R q → ((s.pages q).flags.property = true ↔ q = b ∨ q ∈ s.free_list))
include hnodup hp hmark

theorem joins_above : Joins R b p b s
    (((s.setProperty b ((s.pages b).property + (s.pages p).property)).ClearPageProperty p).list_del
      p) := by
  obtain ⟨hb, hnodup'⟩ := nodup_cons.mp hnodup
  have hpb : p ≠ b := fun heq => hb (heq ▸ hp)
  refine ⟨rfl, ?_, fun q hqb hqp => ?_, fun q hq => ?_, rfl, fun q => ?_⟩
  · exact block_ClearPageProperty.trans (block_setProperty.trans (if_pos rfl))
  · exact block_ClearPageProperty.trans (block_setProperty.trans (if_neg hqb))
  · change (((s.setProperty b _).ClearPageProperty p).pages q).flags.property = true ↔
      q = b ∨ q ∈ s.free_list.erase p
    rw [flags_ClearPageProperty, flags_setProperty, hnodup'.mem_erase_iff]
    by_cases hqp : q = p
    · simp [hqp, hpb]
    · simpa [hqp] using hmark q hq
  · change (((s.setProperty b _).ClearPageProperty p).pages q).flags.reserved = _
    rw [flags_ClearPageProperty, flags_setProperty]

theorem joins_below : Joins R b p p s
    (((s.setProperty p ((s.pages p).property + (s.pages b).property)).ClearPageProperty b).list_del
      p) := by
  obtain ⟨hb, hnodup'⟩ := nodup_cons.mp hnodup
  refine ⟨rfl, ?_, fun q hqb hqp => ?_, fun q hq => ?_, rfl, fun q => ?_⟩
  · refine block_ClearPageProperty.trans (block_setProperty.trans ((if_pos rfl).trans ?_))
    rw [Nat.add_comm, block, block]
  · exact block_ClearPageProperty.trans (block_setProperty.trans (if_neg hqp))
  · change (((s.setProperty p _).ClearPageProperty b).pages q).flags.property = true ↔
      q = p ∨ q ∈ s.free_list.erase p
    rw [flags_ClearPageProperty, flags_setProperty, hnodup'.mem_erase_iff]
    by_cases hqp : q = p
    · subst hqp
      have hqb : q ≠ b := fun heq => hb (heq ▸ hp)
      simp [hqb, (hmark q hq).mpr (.inr hp)]
    · by_cases hqb : q = b
      · simp [hqb, hb, hqb ▸ hqp]
      · simpa [hqp, hqb] using hmark q hq
  · change (((s.setProperty p _).ClearPageProperty b).pages q).flags.reserved = _
    rw [flags_ClearPageProperty, flags_setProperty]

/-- What the merging loop leaves: the merged block `c` and the blocks that were not merged. -/
def Merges (R : ℕ → Prop) (c : ℕ × ℕ) (free_list : List ℕ) (s s' : FirstFit) : Prop :=
  s'.block c.1 = c ∧ s'.free_list = free_list ∧
    (∀ p ∈ s'.free_list, p ∈ s.free_list ∧ s'.block p = s.block p) ∧
    (∀ q, R q → ((s'.pages q).flags.property = true ↔ q = c.1 ∨ q ∈ s'.free_list)) ∧
    s'.nr_free = s.nr_free ∧ ∀ q, (s'.pages q).flags.reserved = (s.pages q).flags.reserved

omit hp in
/-- The merging loop on the descriptors is `absorb` on the blocks. -/
theorem merge_spec {kept rest : List ℕ} (hlist : s.free_list = kept ++ rest) :
    ∃ c l s', absorb (rest.map s.block) (s.block b) = (c, l) ∧
      default_free_pages.merge rest b s = (c.1, s') ∧ Merges R c (kept ++ l.map fst) s s' := by
  induction rest generalizing kept b s with
  | nil =>
    exact ⟨s.block b, [], s, rfl, rfl, rfl, by simpa using hlist, fun _ hp => ⟨hp, rfl⟩, hmark,
      rfl, fun _ => rfl⟩
  | cons p rest ih =>
    obtain ⟨hb, hnodup'⟩ := nodup_cons.mp hnodup
    have hp : p ∈ s.free_list := by simp [hlist]
    have hpb : p ≠ b := fun heq => hb (heq ▸ hp)
    have herase : s.free_list.erase p = kept ++ rest := by
      rw [hlist] at hnodup' ⊢
      have hnot : p ∉ kept := fun hmem =>
        (nodup_append.mp hnodup').2.2 p hmem p mem_cons_self rfl
      rw [erase_append_right _ hnot, erase_cons_head]
    -- after a merge the loop goes on with the merged block
    have hjoin : ∀ {b' s1}, Joins R b p b' s s1 → b' = b ∨ b' = p →
        ∃ c l s', absorb (rest.map s.block) (b', (s.block b).2 + (s.block p).2) = (c, l) ∧
          default_free_pages.merge rest b' s1 = (c.1, s') ∧
          Merges R c (kept ++ l.map fst) s s' := by
      intro b' s1 hj hb'
      have hmem : ∀ q ∈ s1.free_list, q ∈ s.free_list ∧ q ≠ b ∧ q ≠ p := fun q hq => by
        rw [hj.free_list, hnodup'.mem_erase_iff] at hq
        exact ⟨hq.2, fun heq => hb (heq ▸ hq.2), hq.1⟩
      have hfresh : b' ∉ s1.free_list := fun hmem' => by
        obtain ⟨-, hne, hne'⟩ := hmem b' hmem'
        exact hb'.elim hne hne'
      obtain ⟨c, l, s', habs, hmerge, hblock, hfree, hold, hmark', hnr, hres⟩ :=
        ih (nodup_cons.mpr ⟨hfresh, hj.free_list ▸ hnodup'.erase p⟩) hj.marked
          (hj.free_list.trans herase)
      have hrest : rest.map s1.block = rest.map s.block := map_congr_left fun q hq => by
        have hq' : q ∈ s1.free_list := by
          rw [hj.free_list, herase]
          exact mem_append_right kept hq
        obtain ⟨-, hqb, hqp⟩ := hmem q hq'
        exact hj.others q hqb hqp
      rw [hrest, hj.block] at habs
      refine ⟨c, l, s', habs, hmerge, hblock, hfree, fun q hq => ?_, hmark', hnr.trans hj.nr_free,
        fun q => (hres q).trans (hj.reserved q)⟩
      obtain ⟨hq1, heq⟩ := hold q hq
      obtain ⟨hq0, hqb, hqp⟩ := hmem q hq1
      exact ⟨hq0, heq.trans (hj.others q hqb hqp)⟩
    rw [map_cons, absorb, default_free_pages.merge]
    by_cases habove : b + (s.pages b).property = p
    · rw [if_pos habove, if_pos (show (s.block b).1 + (s.block b).2 = (s.block p).1 from habove)]
      exact hjoin (joins_above hnodup hp hmark) (.inl rfl)
    rw [if_neg habove, if_neg (show ¬(s.block b).1 + (s.block b).2 = (s.block p).1 from habove)]
    by_cases hbelow : p + (s.pages p).property = b
    · rw [if_pos hbelow, if_pos (show (s.block p).1 + (s.block p).2 = (s.block b).1 from hbelow),
        Nat.add_comm (s.block p).2]
      exact hjoin (joins_below hnodup hp hmark) (.inr rfl)
    rw [if_neg hbelow, if_neg (show ¬(s.block p).1 + (s.block p).2 = (s.block b).1 from hbelow)]
    obtain ⟨c, l, s', habs, hmerge, hblock, hfree, hrest⟩ :=
      ih hnodup hmark (show s.free_list = (kept ++ [p]) ++ rest by simp [hlist])
    exact ⟨c, s.block p :: l, s', by rw [habs], hmerge, hblock, by simpa [block] using hfree, hrest⟩

end

variable {as bs : List ℕ}

theorem take_free_list (hnodup : s.free_list.Nodup) (hlist : s.free_list = as ++ page :: bs) :
    (default_alloc_pages.take page m s).free_list =
      as ++ (if m < (s.pages page).property then (page + m) :: bs else bs) := by
  have hnot : page ∉ as := fun hmem => by
    rw [hlist] at hnodup
    exact (nodup_append.mp hnodup).2.2 page hmem page mem_cons_self rfl
  by_cases hrest : (s.pages page).property > m
  · rw [if_pos hrest]
    simp only [default_alloc_pages.take, if_pos hrest, ClearPageProperty, setPage, list_del,
      SetPageProperty, setProperty, hlist]
    rw [list_add_append hnot, erase_append_right _ hnot, erase_cons_head]
  · rw [if_neg hrest]
    simp only [default_alloc_pages.take, if_neg hrest, ClearPageProperty, setPage, list_del, hlist]
    rw [erase_append_right _ hnot, erase_cons_head]

theorem take_nr_free : (default_alloc_pages.take page m s).nr_free = s.nr_free - m := by
  unfold default_alloc_pages.take
  split <;> rfl

theorem take_block : (default_alloc_pages.take page m s).block q =
    if q = page + m ∧ m < (s.pages page).property then (q, (s.pages page).property - m)
    else s.block q := by
  unfold default_alloc_pages.take
  refine block_ClearPageProperty.trans ?_
  by_cases hrest : (s.pages page).property > m
  · rw [if_pos hrest]
    refine block_SetPageProperty.trans (block_setProperty.trans ?_)
    by_cases hq : q = page + m
    · rw [if_pos hq, if_pos ⟨hq, hrest⟩, hq]
    · rw [if_neg hq, if_neg fun hand => hq hand.1]
  · rw [if_neg hrest, if_neg fun hand => hrest hand.2]
    rfl

theorem take_flags : ((default_alloc_pages.take page m s).pages q).flags =
    { (s.pages q).flags with
      property := if q = page then false
        else if q = page + m ∧ m < (s.pages page).property then true
        else (s.pages q).flags.property } := by
  unfold default_alloc_pages.take
  refine flags_ClearPageProperty.trans ?_
  by_cases hrest : (s.pages page).property > m
  · rw [if_pos hrest]
    have hflags : (((s.setProperty (page + m) ((s.pages page).property - m)).SetPageProperty
        (page + m)).pages q).flags = { (s.pages q).flags with
          property := if q = page + m then true else (s.pages q).flags.property } := by
      rw [flags_SetPageProperty, flags_setProperty]
    change { (((s.setProperty (page + m) ((s.pages page).property - m)).SetPageProperty
        (page + m)).pages q).flags with property := if q = page then false else
          (((s.setProperty (page + m) ((s.pages page).property - m)).SetPageProperty
        (page + m)).pages q).flags.property } = _
    rw [hflags]
    simp [hrest]
  · rw [if_neg hrest]
    have hlt : ¬(q = page + m ∧ m < (s.pages page).property) := fun hand => hrest hand.2
    rw [if_neg hlt]
    rfl

end ucore.FirstFit
