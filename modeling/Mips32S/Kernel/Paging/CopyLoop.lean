import Mips32S.Kernel.Paging.Copy

open Option Finset

namespace ucore

variable {σ : Type} {A : runs.Allocator σ ℤ} {S : runs.Spec A} {U : S.Supply} {D : Finset ℕ}
  {s s' : Vm σ} {target source n t a b : ℕ}

/-- The loop of `copy_range` from page `a` comes by page `n`. It goes on by whole tables while the
source has none, from a place in a table to the same place in the next. -/
def Reached (s : Vm σ) (source a n : ℕ) : Prop :=
  (∀ i, a / 1024 ≤ i → i < n / 1024 → s.table source i = none) → a % 1024 ≤ n % 1024

def presentPages (s : Vm σ) (source a b : ℕ) : Finset ℕ :=
  (Ico a b).filter fun n => frame (s.pte (slot source (pageAddr n))) ≠ none

/-- The pages that the loop copies. -/
def reachedPages (s : Vm σ) (source a b : ℕ) : Set ℕ :=
  {n | n ∈ presentPages s source a b ∧ Reached s source a n}

theorem mem_presentPages : n ∈ presentPages s source a b ↔
    (a ≤ n ∧ n < b) ∧ frame (s.pte (slot source (pageAddr n))) ≠ none := by
  rw [presentPages, mem_filter, mem_Ico]

theorem table_of_present (hn : n < 2 ^ 20)
    (hp : frame (s.pte (slot source (pageAddr n))) ≠ none) : s.table source (n / 1024) ≠ none := by
  intro hnone
  rw [slot_pageAddr source hn, Vm.pte, hnone] at hp
  exact hp frame_zero

/-- In a table the loop takes every page. -/
theorem reachedPages_of_table (ht : s.table source (a / 1024) = some t) (hab : a < b)  :
    reachedPages s source a b =
      (if frame (s.pte (slot source (pageAddr a))) = none then ∅ else {a}) ∪
        reachedPages s source (a + 1) b := by
  have hstep : ∀ n, a < n → Reached s source a n ∧ Reached s source (a + 1) n := by
    intro n hn
    have hhere : a / 1024 < n / 1024 →
        ¬ ∀ i, a / 1024 ≤ i → i < n / 1024 → s.table source i = none := fun hlt hall => by
      rw [hall (a / 1024) (le_refl _) hlt] at ht
      cases ht
    refine ⟨fun hall => ?_, fun hall => ?_⟩
    · have := mt (hhere ·) (not_not.mpr hall)
      omega
    · by_cases hsame : (a + 1) / 1024 = a / 1024
      · have := mt (hhere ·) (not_not.mpr (hsame ▸ hall))
        omega
      · omega
  have hself : Reached s source a a := fun _ => le_refl _
  ext n
  simp only [reachedPages, mem_presentPages, Set.mem_ofPred_eq, Set.mem_union]
  by_cases hna : n = a
  · subst hna
    by_cases hnone : frame (s.pte (slot source (pageAddr n))) = none
    · simp [hnone]
    · simp [hnone, hself, hab]
  · have hother :
        n ∉ (if frame (s.pte (slot source (pageAddr a))) = none then ∅ else {a} : Set ℕ) := by
      split <;> simp [hna]
    have hbound : a ≤ n ↔ a + 1 ≤ n := by omega
    simp only [hother, false_or, hbound]
    refine and_congr_right fun hn => ?_
    obtain ⟨hr, hr'⟩ := hstep n (by omega)
    exact iff_of_true hr hr'

/-- Where there is no table the loop goes on in the next one, at the same place. -/
theorem reachedPages_of_no_table (ht : s.table source (a / 1024) = none) (hb : b ≤ 2 ^ 20) :
    reachedPages s source a b = reachedPages s source (a + 1024) b := by
  have hdiv : (a + 1024) / 1024 = a / 1024 + 1 := by omega
  have hmod : (a + 1024) % 1024 = a % 1024 := by omega
  ext n
  simp only [reachedPages, mem_presentPages, Set.mem_ofPred_eq, Reached, hdiv, hmod]
  constructor
  · rintro ⟨⟨⟨hlo, hhi⟩, hp⟩, hr⟩
    have hne : n / 1024 ≠ a / 1024 := fun heq => table_of_present (by omega) hp (heq ▸ ht)
    have hr' : (∀ i, a / 1024 + 1 ≤ i → i < n / 1024 → s.table source i = none) →
        a % 1024 ≤ n % 1024 := by
      refine fun hall => hr fun i hi hin => ?_
      rcases Nat.eq_or_lt_of_le hi with rfl | hlt
      · exact ht
      · exact hall i hlt hin
    refine ⟨⟨⟨?_, hhi⟩, hp⟩, hr'⟩
    by_contra hlt
    have := hr' fun i hi hin => by omega
    omega
  · rintro ⟨⟨⟨hlo, hhi⟩, hp⟩, hr⟩
    exact ⟨⟨⟨by omega, hhi⟩, hp⟩, fun hall => hr fun i hi => hall i (by omega)⟩

theorem reachedPages_of_le (h : b ≤ a) : reachedPages s source a b = ∅ := by
  refine Set.eq_empty_iff_forall_notMem.mpr fun n hn => ?_
  have := (mem_presentPages.mp hn.1).1
  omega

theorem CopiesPages.reachedPages_eq {R : Set ℕ} (h : CopiesPages S D target source R s s')
    (hsource : source ∈ D) (hne : source ≠ target) (hb : b ≤ 2 ^ 20) :
    reachedPages s' source a b = reachedPages s source a b := by
  ext n
  simp only [reachedPages, mem_presentPages, Set.mem_ofPred_eq, Reached]
  rw [(h.source_eq hsource hne _).1]
  refine and_congr_right fun hn => ?_
  have htable : (∀ i, a / 1024 ≤ i → i < n / 1024 → s'.table source i = none) ↔
      ∀ i, a / 1024 ≤ i → i < n / 1024 → s.table source i = none :=
    forall_congr' fun i => forall_congr' fun hi => forall_congr' fun hin => by
      rw [h.table source hsource hne i (by omega)]
  rw [htable]

theorem copy_range_next (a : ℕ) : (a * PGSIZE + PTSIZE) / PGSIZE = a + 1024 := by
  change (a * 4096 + 4194304) / 4096 = _
  omega

section
variable (hsize : A.size ≤ 2 ^ 19) (hclear : S.clear = 0)
include hsize hclear
variable (h : s.Wf S D) (htarget : target ∈ D) (hsource : source ∈ D) (hne : source ≠ target)
include h htarget hsource hne

theorem copy_range_body_cases {r : Option ℕ} (ha : a < 2 ^ 20)
    (heq : copy_range.body A target source a s = some (r, s')) :
    s.table source (a / 1024) = none ∧ r = some (a + 1024) ∧ s' = s ∨
    (∃ t, s.table source (a / 1024) = some t) ∧ (r = none ∧ s' = s ∨ r = some (a + 1) ∧
      CopiesPages S D target source
        (if frame (s.pte (slot source (pageAddr a))) = none then ∅ else {a}) s s') := by
  unfold copy_range.body at heq
  cases ht : s.table source (PDX (pageAddr a)) with
  | none =>
    rw [get_pte_of_no_table A ht] at heq
    cases heq
    rw [PDX_pageAddr ha] at ht
    exact .inl ⟨ht, by rw [copy_range_next], rfl⟩
  | some t =>
    have hlt := S.owned_lt_size h.inv (h.table source hsource _ (PDX_lt _) t ht).1
    simp only [get_pte_of_table false ht hlt, bind_eq_bind, bind_some] at heq
    have hread : s.read (t, PTX (pageAddr a)) = s.pte (slot source (pageAddr a)) :=
      (pte_of_table ht).symm
    refine .inr ⟨⟨t, PDX_pageAddr ha ▸ ht⟩, ?_⟩
    rw [hread] at heq
    cases hp : frame (s.pte (slot source (pageAddr a))) with
    | none =>
      simp only [frame_eq_none_iff.mp hp, Bool.false_eq_true, if_false] at heq
      cases heq
      exact .inr ⟨rfl, by simpa using .refl target source h⟩
    | some p =>
      simp only [ptep_present_of_frame hp, if_true] at heq
      simpa using copy_range_copy_spec hsize hclear h htarget hsource hne ha ht hp heq

/-- The loop copies the pages that it reaches, up to the place where it stops. -/
theorem copy_range_loop_spec {done : Bool} (hab : a < b) (hb : b ≤ 2 ^ 20)
    (heq : pageLoop (copy_range.body A target source) b a s = some (done, s')) :
    ∃ R ⊆ reachedPages s source a b, (done = true → R = reachedPages s source a b) ∧
      CopiesPages S D target source R s s' := by
  fun_induction pageLoop (copy_range.body A target source) b a s with
  | case1 a s ih =>
    obtain ⟨⟨next, s1⟩, hround, hrest⟩ := bind_eq_some_iff.mp heq
    have hcont : ∀ m, next = some m → a < m → s1.Wf S D →
        ∃ R ⊆ reachedPages s1 source m b, (done = true → R = reachedPages s1 source m b) ∧
          CopiesPages S D target source R s1 s' := by
      rintro m rfl hm hwf
      dsimp only at hrest
      split at hrest
      · rename_i hnext
        exact ih s1 m hnext hwf hnext.2 hrest
      · cases hrest
        rw [reachedPages_of_le (by omega)]
        exact ⟨∅, subset_rfl, fun _ => rfl, .refl target source hwf⟩
    rcases copy_range_body_cases hsize hclear h htarget hsource hne (by omega) hround with
      ⟨ht, hnext, rfl⟩ | ⟨⟨t, ht⟩, ⟨rfl, rfl⟩ | ⟨hnext, hc⟩⟩
    · rw [reachedPages_of_no_table ht hb]
      exact hcont _ hnext (by omega) h
    · cases hrest
      exact ⟨∅, Set.empty_subset _, by simp, .refl target source h⟩
    · obtain ⟨R, hR, hdone, hc'⟩ := hcont _ hnext (by omega) hc.wf
      rw [hc.reachedPages_eq hsource hne hb] at hR hdone
      rw [reachedPages_of_table ht hab]
      refine ⟨_, Set.union_subset_union_right _ hR, fun h' => by rw [hdone h'],
        hc.trans hc' htarget hsource hne fun n hn hn' => ?_⟩
      have hlo := (mem_presentPages.mp (hR hn').1).1.1
      split at hn
      · exact hn
      · rw [Set.mem_singleton_iff] at hn
        omega

end

/-- The tables that `target` lacks for the pages to be copied. -/
def missingTables (s : Vm σ) (target source a b : ℕ) : Finset ℕ :=
  ((presentPages s source a b).image (· / 1024)).filter fun i => s.table target i = none

def copyNeed (s : Vm σ) (target source a b : ℕ) : ℕ :=
  (presentPages s source a b).card + (missingTables s target source a b).card

variable {m : ℕ}

theorem mem_missingTables : m ∈ missingTables s target source a b ↔
    (∃ n ∈ presentPages s source a b, n / 1024 = m) ∧ s.table target m = none := by
  rw [missingTables, mem_filter, mem_image]

theorem copyNeed_anti (h : a ≤ m) :
    copyNeed s target source m b ≤ copyNeed s target source a b := by
  have hpages : presentPages s source m b ⊆ presentPages s source a b := fun n hn => by
    rw [mem_presentPages] at hn ⊢
    exact ⟨⟨by omega, hn.1.2⟩, hn.2⟩
  refine Nat.add_le_add (card_le_card hpages) (card_le_card ?_)
  exact filter_subset_filter _ (image_subset_image hpages)

theorem le_copyNeed (target : ℕ) (hab : a < b)
    (hp : frame (s.pte (slot source (pageAddr a))) ≠ none) :
    (if s.table target (a / 1024) = none then 1 else 0) + 1 ≤ copyNeed s target source a b := by
  have hmem : a ∈ presentPages s source a b := mem_presentPages.mpr ⟨⟨le_refl a, hab⟩, hp⟩
  have hpos := card_pos.mpr ⟨a, hmem⟩
  unfold copyNeed
  split_ifs with hnone
  · have := card_pos.mpr ⟨_, mem_missingTables.mpr ⟨⟨a, hmem, rfl⟩, hnone⟩⟩
    omega
  · omega

theorem CopiesPages.copyNeed_le (h : CopiesPages S D target source {a} s s') (hsource : source ∈ D)
    (hne : source ≠ target) (hab : a < b) (hb : b ≤ 2 ^ 20)
    (hp : frame (s.pte (slot source (pageAddr a))) ≠ none) :
    copyNeed s' target source (a + 1) b + (if s.table target (a / 1024) = none then 1 else 0) + 1 ≤
      copyNeed s target source a b := by
  have hsame : presentPages s' source (a + 1) b = presentPages s source (a + 1) b := by
    ext n
    rw [mem_presentPages, mem_presentPages, (h.source_eq hsource hne _).1]
  have hinsert : presentPages s source a b = insert a (presentPages s source (a + 1) b) := by
    ext n
    rw [mem_insert, mem_presentPages, mem_presentPages]
    by_cases hna : n = a
    · subst hna
      simp [hab, hp]
    · have hbound : a ≤ n ↔ a + 1 ≤ n := by omega
      simp [hna, hbound]
  have hcard : (presentPages s source a b).card = (presentPages s source (a + 1) b).card + 1 := by
    rw [hinsert]
    exact card_insert_of_notMem fun hmem => by
      have := (mem_presentPages.mp hmem).1
      omega
  have hsub : missingTables s' target source (a + 1) b ⊆
      (missingTables s target source a b).erase (a / 1024) := by
    intro i hi
    obtain ⟨⟨n, hn, rfl⟩, hnone⟩ := mem_missingTables.mp hi
    rw [hsame] at hn
    have hbound := (mem_presentPages.mp hn).1
    refine mem_erase.mpr ⟨fun heq => ?_, mem_missingTables.mpr ⟨⟨n, ?_, rfl⟩, ?_⟩⟩
    · obtain ⟨p, q, -, hq, -⟩ := h.copy a rfl
      exact table_of_present (by omega) (by simp [hq]) (heq ▸ hnone)
    · rw [hinsert]
      exact mem_insert_of_mem hn
    · by_contra hsome
      obtain ⟨t, ht⟩ := ne_none_iff_exists'.mp hsome
      rw [h.kept _ (by omega) t ht] at hnone
      cases hnone
  have hle := card_le_card hsub
  have hmem : s.table target (a / 1024) = none → a / 1024 ∈ missingTables s target source a b :=
    fun hnone => mem_missingTables.mpr
      ⟨⟨a, mem_presentPages.mpr ⟨⟨le_refl a, hab⟩, hp⟩, rfl⟩, hnone⟩
  have hle' := card_erase_le (s := missingTables s target source a b) (a := a / 1024)
  unfold copyNeed
  rw [hsame, hcard]
  split_ifs with hnone
  · have := card_erase_add_one (hmem hnone)
    omega
  · omega

variable (hsize : A.size ≤ 2 ^ 19) (hclear : S.clear = 0)
include hsize hclear
variable (h : s.Wf S D) (htarget : target ∈ D) (hsource : source ∈ D) (hne : source ≠ target)
  (hab : a < b) (hb : b ≤ 2 ^ 20) (hroom : copyNeed s target source a b ≤ U.avail s.pmm)
include h htarget hsource hne hab hb hroom

theorem copy_range_body_supply :
    ∃ m s', copy_range.body A target source a s = some (some m, s') ∧ a < m ∧ s'.Wf S D ∧
      copyNeed s' target source m b ≤ U.avail s'.pmm := by
  have ha : a < 2 ^ 20 := by omega
  unfold copy_range.body
  cases ht : s.table source (PDX (pageAddr a)) with
  | none =>
    rw [get_pte_of_no_table A ht]
    have hnext : a < (a * PGSIZE + PTSIZE) / PGSIZE := by
      rw [copy_range_next]
      omega
    exact ⟨_, s, rfl, hnext, h, (copyNeed_anti hnext.le).trans hroom⟩
  | some t =>
    have hlt := S.owned_lt_size h.inv (h.table source hsource _ (PDX_lt _) t ht).1
    have hread : s.read (t, PTX (pageAddr a)) = s.pte (slot source (pageAddr a)) :=
      (pte_of_table ht).symm
    simp only [get_pte_of_table false ht hlt, bind_eq_bind, bind_some, hread]
    cases hp : frame (s.pte (slot source (pageAddr a))) with
    | none =>
      simp only [frame_eq_none_iff.mp hp, Bool.false_eq_true, if_false]
      exact ⟨_, s, rfl, by omega, h, (copyNeed_anti (by omega)).trans hroom⟩
    | some p =>
      simp only [ptep_present_of_frame hp, if_true]
      have hsome : frame (s.pte (slot source (pageAddr a))) ≠ none := by simp [hp]
      have hneed := le_copyNeed target hab hsome
      obtain ⟨s', hcopy, havail⟩ := copy_range_copy_supply (U := U) hsize hclear h htarget hsource
        hne ht hp (by rw [PDX_pageAddr ha]; omega)
      rcases copy_range_copy_spec hsize hclear h htarget hsource hne ha ht hp hcopy with
        ⟨hfail, -⟩ | ⟨-, hc⟩
      · cases hfail
      have hle := hc.copyNeed_le hsource hne hab hb hsome
      rw [PDX_pageAddr ha] at havail
      exact ⟨_, s', hcopy, by omega, hc.wf, by omega⟩

theorem copy_range_loop_supply :
    ∃ s', pageLoop (copy_range.body A target source) b a s = some (true, s') := by
  fun_induction pageLoop (copy_range.body A target source) b a s with
  | case1 a s ih =>
    obtain ⟨m, s1, hround, hm, hwf, hroom1⟩ :=
      copy_range_body_supply hsize hclear h htarget hsource hne hab hb hroom
    simp only [hround, bind_eq_bind, bind_some]
    split
    · rename_i hnext
      exact ih s1 m hnext hwf hnext.2 hroom1
    · exact ⟨s1, rfl⟩

end ucore
