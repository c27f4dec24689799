import Mathlib.Order.Interval.Finset.Nat

open Finset Function

namespace runs

variable {σ δ : Type}

/-- An allocator of the numbers below `size`. Every number carries a datum for its holder.
An operation that fails an internal check is `none`; an allocation for which there is no room
yields no run. -/
structure Allocator (σ δ : Type) where
  size : ℕ
  alloc : ℕ → σ → Option (Option ℕ × σ)
  free : ℕ → ℕ → σ → Option σ
  get : σ → ℕ → δ
  set : ℕ → δ → σ → σ

/-- What is left of the run `r` when the run of `n` numbers at `p` is taken out of it. -/
def without (r : ℕ × ℕ) (p n : ℕ) : Set (ℕ × ℕ) :=
  {x | (x = (r.1, p - r.1) ∨ x = (p + n, r.1 + r.2 - (p + n))) ∧ 0 < x.2}

/-- A correct allocator: the live runs are disjoint, an allocation of up to `limit` numbers
adds one with cleared data or changes nothing, and freeing a part of a live run removes it and
clears its data. Nothing is said about freeing what is not part of a live run. -/
structure Spec (A : Allocator σ δ) where
  Inv : σ → Prop
  live : σ → Set (ℕ × ℕ)
  limit : ℕ
  limit_pos : 0 < limit
  clear : δ
  le_size : ∀ {s p n}, Inv s → (p, n) ∈ live s → p + n ≤ A.size
  disjoint : ∀ {s p n q m x}, Inv s → (p, n) ∈ live s → (q, m) ∈ live s →
    x ∈ Ico p (p + n) → x ∈ Ico q (q + m) → p = q ∧ n = m
  alloc_cases : ∀ {s} n, Inv s → 0 < n → n ≤ limit →
    A.alloc n s = some (none, s) ∨
    ∃ p s', A.alloc n s = some (some p, s') ∧ Inv s' ∧ live s' = insert (p, n) (live s) ∧
      (∀ q m, (q, m) ∈ live s → Disjoint (Ico p (p + n)) (Ico q (q + m))) ∧
      A.get s' = A.get s ∧ ∀ x ∈ Ico p (p + n), A.get s' x = clear
  free_eq : ∀ {s r p n}, Inv s → r ∈ live s → 0 < n → r.1 ≤ p → p + n ≤ r.1 + r.2 →
    ∃ s', A.free p n s = some s' ∧ Inv s' ∧ live s' = without r p n ∪ live s \ {r} ∧
      ∀ x, A.get s' x = if x ∈ Ico p (p + n) then clear else A.get s x
  set_spec : ∀ {s p n x} d, Inv s → (p, n) ∈ live s → x ∈ Ico p (p + n) →
    Inv (A.set x d s) ∧ live (A.set x d s) = live s ∧
      A.get (A.set x d s) = update (A.get s) x d

namespace Spec

variable {A : Allocator σ δ} (S : Spec A) {s s' : σ} {r : ℕ × ℕ} {p n x : ℕ}

/-- The numbers of the live runs. -/
def owned (s : σ) : Set ℕ := {x | ∃ r ∈ S.live s, x ∈ Ico r.1 (r.1 + r.2)}

theorem owned_lt_size (h : S.Inv s) (hx : x ∈ S.owned s) : x < A.size := by
  obtain ⟨r, hr, hx⟩ := hx
  have hle := S.le_size h hr
  rw [mem_Ico] at hx
  omega

theorem exists_mem_without (hlo : r.1 ≤ p) (hhi : p + n ≤ r.1 + r.2) :
    (∃ r' ∈ without r p n, x ∈ Ico r'.1 (r'.1 + r'.2)) ↔
      x ∈ Ico r.1 (r.1 + r.2) ∧ x ∉ Ico p (p + n) := by
  simp only [without, mem_Ico]
  constructor
  · rintro ⟨r', ⟨rfl | rfl, hpos⟩, hx⟩
    all_goals simp only at hpos hx; omega
  · rintro ⟨hx, hnot⟩
    by_cases hxp : x < p
    · exact ⟨(r.1, p - r.1), ⟨.inl rfl, by simp only; omega⟩, by simp only; omega⟩
    · exact ⟨(p + n, r.1 + r.2 - (p + n)), ⟨.inr rfl, by simp only; omega⟩, by simp only; omega⟩

theorem alloc_run (h : S.Inv s) (hpos : 0 < n) (hn : n ≤ S.limit) : A.alloc n s = some (none, s) ∨
    ∃ p s', A.alloc n s = some (some p, s') ∧ S.Inv s' ∧
      S.owned s' = S.owned s ∪ Ico p (p + n) ∧ A.get s' = A.get s ∧
      ∀ x ∈ Ico p (p + n), x ∉ S.owned s ∧ A.get s x = S.clear := by
  rcases S.alloc_cases n h hpos hn with hnone | ⟨p, s', heq, hinv, hlive, hdisj, hget, hclear⟩
  · exact .inl hnone
  refine .inr ⟨p, s', heq, hinv, ?_, hget, fun x hx => ⟨?_, hget ▸ hclear x hx⟩⟩
  · ext x
    simp [owned, hlive, or_comm]
  · rintro ⟨r, hr, hxr⟩
    exact disjoint_left.mp (hdisj r.1 r.2 hr) hx hxr

theorem free_part (h : S.Inv s) (hr : r ∈ S.live s) (hn : 0 < n) (hlo : r.1 ≤ p)
    (hhi : p + n ≤ r.1 + r.2) :
    ∃ s', A.free p n s = some s' ∧ S.Inv s' ∧ S.owned s' = S.owned s \ Ico p (p + n) ∧
      ∀ x, A.get s' x = if x ∈ Ico p (p + n) then S.clear else A.get s x := by
  obtain ⟨s', heq, hinv, hlive, hget⟩ := S.free_eq h hr hn hlo hhi
  refine ⟨s', heq, hinv, ?_, hget⟩
  ext x
  have hwithout := exists_mem_without (x := x) hlo hhi
  simp only [owned, hlive, Set.mem_union, Set.mem_sdiff, Set.mem_singleton_iff,
    Set.mem_ofPred_eq, mem_coe]
  constructor
  · rintro ⟨r', hr' | ⟨hr', hne⟩, hx⟩
    · exact ⟨⟨r, hr, (hwithout.mp ⟨r', hr', hx⟩).1⟩, (hwithout.mp ⟨r', hr', hx⟩).2⟩
    · refine ⟨⟨r', hr', hx⟩, fun hxp => hne ?_⟩
      -- the freed numbers lie in `r` and in no other live run
      have hxr : x ∈ Ico r.1 (r.1 + r.2) := by
        rw [mem_Ico] at hxp ⊢
        omega
      exact Prod.ext_iff.mpr (S.disjoint h hr' hr hx hxr)
  · rintro ⟨⟨r', hr', hx⟩, hnot⟩
    by_cases heq : r' = r
    · obtain ⟨r'', hr'', hx⟩ := hwithout.mpr ⟨heq ▸ hx, hnot⟩
      exact ⟨r'', .inl hr'', hx⟩
    · exact ⟨r', .inr ⟨hr', heq⟩, hx⟩

theorem free_run (h : S.Inv s) (hr : (p, n) ∈ S.live s) (hn : 0 < n) :
    ∃ s', A.free p n s = some s' ∧ S.Inv s' ∧ S.live s' = S.live s \ {(p, n)} := by
  obtain ⟨s', heq, hinv, hlive, -⟩ := S.free_eq h hr hn (le_refl p) (le_refl (p + n))
  refine ⟨s', heq, hinv, ?_⟩
  have hnone : without (p, n) p n = ∅ := by
    rw [Set.eq_empty_iff_forall_notMem]
    rintro x ⟨rfl | rfl, hpos⟩
    all_goals simp only at hpos; omega
  rw [hlive, hnone, Set.empty_union]

theorem free_one (h : S.Inv s) (hx : x ∈ S.owned s) :
    ∃ s', A.free x 1 s = some s' ∧ S.Inv s' ∧ S.owned s' = S.owned s \ {x} ∧
      A.get s' = update (A.get s) x S.clear := by
  obtain ⟨r, hr, hxr⟩ := hx
  rw [mem_Ico] at hxr
  obtain ⟨s', heq, hinv, howned, hget⟩ := S.free_part h hr Nat.one_pos hxr.1 (by omega)
  refine ⟨s', heq, hinv, by simpa using howned, ?_⟩
  funext y
  simp [hget, update_apply]

/-- From `s` to `s'` numbers have been allocated and none freed. -/
structure Grows (s s' : σ) : Prop where
  inv : S.Inv s'
  keeps : ∀ q ∈ S.owned s, q ∈ S.owned s' ∧ A.get s' q = A.get s q
  new : ∀ q ∈ S.owned s', q ∉ S.owned s → A.get s' q = S.clear

/-- From `s` to `s'` the numbers in `F` have been freed. -/
structure Shrinks (F : Set ℕ) (s s' : σ) : Prop where
  inv : S.Inv s'
  sub : ∀ q ∈ S.owned s', q ∈ S.owned s ∧ A.get s' q = A.get s q
  freed : ∀ q ∈ S.owned s, q ∉ S.owned s' → q ∈ F

theorem alloc_grows {page : Option ℕ} (h : S.Inv s) (hpos : 0 < n) (hn : n ≤ S.limit)
    (heq : A.alloc n s = some (page, s')) : S.Grows s s' := by
  rcases S.alloc_run h hpos hn with hnone | ⟨p, s1, hsome, hinv, howned, hget, hnew⟩
  · rw [hnone] at heq
    cases heq
    exact ⟨h, fun q hq => ⟨hq, rfl⟩, fun q hq hnot => absurd hq hnot⟩
  · rw [hsome] at heq
    cases heq
    refine ⟨hinv, fun q hq => ⟨howned ▸ .inl hq, by rw [hget]⟩, fun q hq hnot => ?_⟩
    rw [howned] at hq
    rw [hget, (hnew q (hq.resolve_left hnot)).2]

theorem free_shrinks (h : S.Inv s) (hr : r ∈ S.live s) (hn : 0 < n) (hlo : r.1 ≤ p)
    (hhi : p + n ≤ r.1 + r.2) (heq : A.free p n s = some s') : S.Shrinks (Ico p (p + n)) s s' := by
  obtain ⟨s1, hsome, hinv, howned, hget⟩ := S.free_part h hr hn hlo hhi
  rw [hsome] at heq
  cases heq
  refine ⟨hinv, fun q hq => ?_, fun q hq hnot => ?_⟩
  · rw [howned] at hq
    exact ⟨hq.1, (hget q).trans (if_neg hq.2)⟩
  · rw [howned] at hnot
    by_contra hne
    exact hnot ⟨hq, hne⟩

/-- From `s` to `s'` a run was allocated, then another one after it, and so on, and all of them
were given back, the last one first. -/
inductive Restores : σ → σ → Prop
  | refl {s : σ} : Restores s s
  | nest {s s1 s2 s3 : σ} {p n : ℕ} : 0 < n → n ≤ S.limit → A.alloc n s = some (some p, s1) →
    Restores s1 s2 → A.free p n s2 = some s3 → Restores s s3

variable {S} in
theorem Restores.live_eq (hr : S.Restores s s') (h : S.Inv s) :
    S.Inv s' ∧ S.live s' = S.live s := by
  induction hr with
  | refl => exact ⟨h, rfl⟩
  | @nest s s1 s2 s3 p n hpos hn halloc _ hfree ih =>
    rcases S.alloc_cases n h hpos hn with hnone | ⟨p', s', heq, hinv, hlive, hdisj, -, -⟩
    · cases hnone.symm.trans halloc
    cases heq.symm.trans halloc
    obtain ⟨hinv2, hlive2⟩ := ih hinv
    have hmem : (p, n) ∈ S.live s2 := by
      rw [hlive2, hlive]
      exact Set.mem_insert _ _
    obtain ⟨s3', heq', hinv3, hlive3⟩ := S.free_run hinv2 hmem hpos
    cases heq'.symm.trans hfree
    have hnew : (p, n) ∉ S.live s := fun hold => by
      have hp : p ∈ Ico p (p + n) := mem_Ico.mpr ⟨le_refl p, by omega⟩
      exact disjoint_left.mp (hdisj p n hold) hp hp
    refine ⟨hinv3, ?_⟩
    rw [hlive3, hlive2, hlive]
    exact Set.insert_sdiff_self_of_notMem hnew

theorem set_owned (d : δ) (h : S.Inv s) (hx : x ∈ S.owned s) :
    S.Inv (A.set x d s) ∧ S.owned (A.set x d s) = S.owned s ∧
      A.get (A.set x d s) = update (A.get s) x d := by
  obtain ⟨r, hr, hxr⟩ := hx
  obtain ⟨hinv, hlive, hget⟩ := S.set_spec d h hr hxr
  exact ⟨hinv, by rw [owned, hlive, owned], hget⟩

/-- How many single numbers the allocator can still hand out. -/
structure Supply where
  avail : σ → ℕ
  alloc : ∀ {s}, S.Inv s → 0 < avail s →
    ∃ p s', A.alloc 1 s = some (some p, s') ∧ avail s = avail s' + 1
  free : ∀ {s s' x}, S.Inv s → x ∈ S.owned s → A.free x 1 s = some s' → avail s ≤ avail s'
  set : ∀ {s} x d, avail (A.set x d s) = avail s

end Spec

end runs
