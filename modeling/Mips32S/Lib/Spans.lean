import Mathlib.Algebra.GroupWithZero.Nat
import Mathlib.Algebra.Order.BigOperators.Group.List
import Mathlib.Algebra.Order.Group.Nat
import Mathlib.Data.List.Sort

open List Prod

namespace spans

variable {a b c : ℕ × ℕ} {l l' : List (ℕ × ℕ)} {x n : ℕ}

/-- There is a gap between the end of `a` and the start of `b`. -/
def Before (a b : ℕ × ℕ) : Prop := a.1 + a.2 < b.1

/-- The spans are sorted, disjoint and never adjacent. -/
structure Spaced (l : List (ℕ × ℕ)) : Prop where
  sorted : l.Pairwise Before
  pos : ∀ a ∈ l, 0 < a.2

/-- The numbers of the spans. -/
def covered (l : List (ℕ × ℕ)) : Set ℕ := {x | ∃ a ∈ l, a.1 ≤ x ∧ x < a.1 + a.2}

/-- How many numbers the spans have together. -/
def total (l : List (ℕ × ℕ)) : ℕ := (l.map snd).sum

@[simp] theorem total_cons : total (a :: l) = a.2 + total l := by simp [total]

@[simp] theorem total_append (l' : List (ℕ × ℕ)) : total (l ++ l') = total l + total l' := by
  simp [total]

theorem mem_covered_cons : x ∈ covered (a :: l) ↔ (a.1 ≤ x ∧ x < a.1 + a.2) ∨ x ∈ covered l := by
  simp [covered]

theorem mem_covered_append (l' : List (ℕ × ℕ)) :
    x ∈ covered (l ++ l') ↔ x ∈ covered l ∨ x ∈ covered l' := by
  simp [covered, or_and_right, exists_or]

theorem covered_perm (h : l.Perm l') : covered l = covered l' := by
  ext x
  simp only [covered, h.mem_iff]

theorem total_perm (h : l.Perm l') : total l = total l' := (h.map snd).sum_eq

theorem le_total (h : a ∈ l) : a.2 ≤ total l := le_sum_of_mem (mem_map_of_mem h)

theorem Spaced.tail (h : Spaced (a :: l)) : Spaced l :=
  ⟨(pairwise_cons.mp h.sorted).2, fun b hb => h.pos b (mem_cons_of_mem a hb)⟩

theorem Spaced.before (h : Spaced (a :: l)) : ∀ b ∈ l, Before a b := (pairwise_cons.mp h.sorted).1

theorem Spaced.sublist (h : Spaced l) (hsub : l'.Sublist l) : Spaced l' :=
  ⟨h.sorted.sublist hsub, fun a ha => h.pos a (hsub.subset ha)⟩

section
variable {as bs : List (ℕ × ℕ)}

/-- What is left of a span when its first `n` numbers are taken. -/
def cutoff (a : ℕ × ℕ) (n : ℕ) : List (ℕ × ℕ) := if n < a.2 then [(a.1 + n, a.2 - n)] else []

theorem Spaced.cutoff (h : Spaced (as ++ a :: bs)) : Spaced (as ++ (cutoff a n ++ bs)) := by
  obtain ⟨has, hbs, hcross⟩ := pairwise_append.mp h.sorted
  obtain ⟨hafter, hbs⟩ := pairwise_cons.mp hbs
  rw [spans.cutoff]
  split
  · rename_i hn
    refine ⟨pairwise_append.mpr ⟨has, pairwise_cons.mpr ⟨fun b hb => ?_, hbs⟩,
      fun b hb c hc => ?_⟩, fun b hb => ?_⟩
    · have := hafter b hb
      unfold Before at this ⊢
      omega
    · rcases mem_cons.mp hc with rfl | hc
      · have := hcross b hb a mem_cons_self
        unfold Before at this ⊢
        omega
      · exact hcross b hb c (mem_cons_of_mem a hc)
    · rcases mem_append.mp hb with hb | hb
      · exact h.pos b (mem_append_left _ hb)
      · rcases mem_cons.mp hb with rfl | hb
        · exact Nat.sub_pos_of_lt hn
        · exact h.pos b (mem_append_right _ (mem_cons_of_mem a hb))
  · exact h.sublist ((sublist_cons_self a bs).append_left as)

theorem total_cutoff (as bs : List (ℕ × ℕ)) (hn : n ≤ a.2) :
    total (as ++ (cutoff a n ++ bs)) + n = total (as ++ a :: bs) := by
  rw [cutoff]
  split
  · simp
    omega
  · simp
    omega

theorem Spaced.not_mem_others (h : Spaced (as ++ a :: bs)) (hlo : a.1 ≤ x) (hhi : x < a.1 + a.2) :
    x ∉ covered (as ++ bs) := by
  obtain ⟨-, hbs, hcross⟩ := pairwise_append.mp h.sorted
  have hafter := (pairwise_cons.mp hbs).1
  rintro ⟨b, hb, hblo, hbhi⟩
  rcases mem_append.mp hb with hb | hb
  · have := hcross b hb a mem_cons_self
    unfold Before at this
    omega
  · have := hafter b hb
    unfold Before at this
    omega

theorem mem_covered_cutoff (h : Spaced (as ++ a :: bs)) (hn : n ≤ a.2) :
    x ∈ covered (as ++ (cutoff a n ++ bs)) ↔
      x ∈ covered (as ++ a :: bs) ∧ ¬(a.1 ≤ x ∧ x < a.1 + n) := by
  have hothers : a.1 ≤ x ∧ x < a.1 + n → x ∉ covered as ∧ x ∉ covered bs := fun hx => by
    have := h.not_mem_others hx.1 (by omega)
    rwa [mem_covered_append, not_or] at this
  have hrest : x ∈ covered (cutoff a n) ↔ (a.1 ≤ x ∧ x < a.1 + a.2) ∧ ¬(a.1 ≤ x ∧ x < a.1 + n) := by
    rw [cutoff]
    split
    · rw [mem_covered_cons]
      simp only [covered, not_mem_nil, false_and, exists_false, Set.ofPred_false,
        Set.mem_empty_iff_false, or_false]
      omega
    · simp only [covered, not_mem_nil, false_and, exists_false, Set.ofPred_false,
        Set.mem_empty_iff_false, false_iff]
      omega
  rw [mem_covered_append, mem_covered_append, mem_covered_append, mem_covered_cons, hrest]
  tauto

end

/-- Going through the list, the span `b` swallows those it is adjacent to. -/
def absorb : List (ℕ × ℕ) → ℕ × ℕ → (ℕ × ℕ) × List (ℕ × ℕ)
  | [], b => (b, [])
  | c :: l, b =>
    if b.1 + b.2 = c.1 then absorb l (b.1, b.2 + c.2)
    else if c.1 + c.2 = b.1 then absorb l (c.1, c.2 + b.2)
    else ((absorb l b).1, c :: (absorb l b).2)

theorem absorb_of_before (h : ∀ c ∈ l, Before b c) (hpos : ∀ c ∈ l, 0 < c.2) :
    absorb l b = (b, l) := by
  induction l with
  | nil => rfl
  | cons c l ih =>
    have hc := h c mem_cons_self
    unfold Before at hc
    rw [absorb, if_neg (by omega), if_neg (by omega),
      ih (fun d hd => h d (mem_cons_of_mem c hd)) fun d hd =>
        hpos d (mem_cons_of_mem c hd)]

theorem lt_absorb (hb : x < b.1) (h : ∀ c ∈ l, x < c.1) : x < (absorb l b).1.1 := by
  induction l generalizing b with
  | nil => exact hb
  | cons c l ih =>
    have hl : ∀ d ∈ l, x < d.1 := fun d hd => h d (mem_cons_of_mem c hd)
    rw [absorb]
    split
    · exact ih hb hl
    · split
      · exact ih (h c mem_cons_self) hl
      · exact ih hb hl

theorem absorb_pos (hb : 0 < b.2) : 0 < (absorb l b).1.2 := by
  induction l generalizing b with
  | nil => exact hb
  | cons c l ih =>
    rw [absorb]
    split
    · exact ih (Nat.add_pos_left hb _)
    · split
      · exact ih (Nat.add_pos_right _ hb)
      · exact ih hb

theorem absorb_sublist : (absorb l b).2.Sublist l := by
  induction l generalizing b with
  | nil => exact Sublist.refl []
  | cons c l ih =>
    rw [absorb]
    split
    · exact ih.cons c
    · split
      · exact ih.cons c
      · exact ih.cons_cons c

theorem total_absorb : (absorb l b).1.2 + total (absorb l b).2 = b.2 + total l := by
  induction l generalizing b with
  | nil => rfl
  | cons c l ih =>
    rw [absorb, total_cons]
    split
    · rw [ih]
      omega
    · split
      · rw [ih]
        omega
      · have := ih (b := b)
        rw [total_cons]
        dsimp only
        omega

theorem covered_absorb : covered ((absorb l b).1 :: (absorb l b).2) = covered (b :: l) := by
  induction l generalizing b with
  | nil => rfl
  | cons c l ih =>
    ext x
    rw [absorb]
    split
    · rename_i hadj
      rw [ih, mem_covered_cons, mem_covered_cons, mem_covered_cons, ← or_assoc]
      refine or_congr_left ?_
      omega
    · split
      · rename_i hadj
        rw [ih, mem_covered_cons, mem_covered_cons, mem_covered_cons, ← or_assoc]
        refine or_congr_left ?_
        omega
      · have := Set.ext_iff.mp (ih (b := b)) x
        simp only [mem_covered_cons] at this ⊢
        rw [or_left_comm, this, or_left_comm]

variable (h : Spaced l) (hb : 0 < b.2)
include h hb

theorem absorb_apart (hdisj : ∀ c ∈ l, c.1 + c.2 ≤ b.1 ∨ b.1 + b.2 ≤ c.1) :
    ∀ c ∈ (absorb l b).2, Before c (absorb l b).1 ∨ Before (absorb l b).1 c := by
  induction l generalizing b with
  | nil => simp [absorb]
  | cons c l ih =>
    have hc := h.pos c mem_cons_self
    have hbefore := h.before
    have hrest : ∀ d ∈ l, d.1 + d.2 ≤ b.1 ∨ b.1 + b.2 ≤ d.1 := fun d hd =>
      hdisj d (mem_cons_of_mem c hd)
    rw [absorb]
    split
    · rename_i hadj
      refine ih h.tail (by dsimp only; omega) fun d hd => ?_
      have hcd := hbefore d hd
      have hd' := h.tail.pos d hd
      unfold Before at hcd
      omega
    · split
      · rename_i hadj
        refine ih h.tail (by dsimp only; omega) fun d hd => ?_
        have hcd := hbefore d hd
        have := hrest d hd
        unfold Before at hcd
        omega
      · rename_i hup hdown
        intro d hd
        rcases mem_cons.mp hd with rfl | hd
        · -- a span that is kept lies below everything that `b` can still swallow, or above `b`
          rcases hdisj d mem_cons_self with hlow | hhigh
          · exact .inl (lt_absorb (by omega) hbefore)
          · have hgap : ∀ c ∈ l, Before b c := fun c hc' => by
              have := hbefore c hc'
              unfold Before at this ⊢
              omega
            rw [absorb_of_before hgap h.tail.pos]
            refine .inr ?_
            unfold Before
            dsimp only
            omega
        · exact ih h.tail hb hrest d hd

theorem Spaced.orderedInsert (hapart : ∀ c ∈ l, Before c b ∨ Before b c) :
    Spaced (l.orderedInsert (fun a c => a.1 < c.1) b) := by
  refine ⟨?_, fun a ha => ?_⟩
  · induction l with
    | nil => exact pairwise_singleton _ _
    | cons c l ih =>
      have hcases := hapart c mem_cons_self
      have hc := h.pos c mem_cons_self
      rw [List.orderedInsert]
      split
      · rename_i hlt
        refine pairwise_cons.mpr ⟨fun d hd => ?_, h.sorted⟩
        have hbc : Before b c := hcases.resolve_left fun hcb => by
          unfold Before at hcb
          omega
        rcases mem_cons.mp hd with rfl | hd
        · exact hbc
        · have := h.before d hd
          unfold Before at this hbc ⊢
          omega
      · rename_i hge
        have hcb : Before c b := hcases.resolve_right fun hbc => by
          unfold Before at hbc
          omega
        refine pairwise_cons.mpr ⟨fun d hd => ?_, ih h.tail fun d hd =>
          hapart d (mem_cons_of_mem c hd)⟩
        rcases mem_cons.mp ((perm_orderedInsert _ _ _).mem_iff.mp hd) with rfl | hd
        · exact hcb
        · exact h.before d hd
  · rcases mem_cons.mp ((perm_orderedInsert _ _ _).mem_iff.mp ha) with rfl | ha
    · exact hb
    · exact h.pos a ha

/-- What `b` makes of the spans, put back into the list, is a spaced list of the same numbers. -/
theorem Spaced.absorb_insert (hdisj : ∀ c ∈ l, c.1 + c.2 ≤ b.1 ∨ b.1 + b.2 ≤ c.1)
    (heq : absorb l b = (c, l')) :
    Spaced (l'.orderedInsert (fun a c => a.1 < c.1) c) ∧
      covered (l'.orderedInsert (fun a c => a.1 < c.1) c) = covered (b :: l) ∧
      total (l'.orderedInsert (fun a c => a.1 < c.1) c) = b.2 + total l ∧ l'.Sublist l := by
  have hpos := absorb_pos (l := l) hb
  have hsub := absorb_sublist (l := l) (b := b)
  have hapart := absorb_apart h hb hdisj
  have hcovered := covered_absorb (l := l) (b := b)
  have htotal := total_absorb (l := l) (b := b)
  rw [heq] at hpos hsub hapart hcovered htotal
  have hperm := perm_orderedInsert (fun a c : ℕ × ℕ => a.1 < c.1) c l'
  exact ⟨(h.sublist hsub).orderedInsert hpos hapart, (covered_perm hperm).trans hcovered,
    (total_perm hperm).trans (total_cons.trans htotal), hsub⟩

end spans
