import Mathlib.Data.List.Nodup

open List

namespace linked

variable {α : Type*}

/-- Following `next` from `start` one visits the nodes of the list, and the links back lead
from each node to the one before it, from the first to `before`. -/
def Linked (prev next : α → Option α) : Option α → Option α → List α → Prop
  | _, start, [] => start = none
  | before, start, x :: l => start = some x ∧ prev x = before ∧ Linked prev next (some x) (next x) l

/-- The first node from `start` on that passes the test, found by at most `fuel` steps. -/
def walk (next : α → Option α) (test : α → Bool) : ℕ → Option α → Option (Option α)
  | _, none => some none
  | 0, some _ => none
  | fuel + 1, some x => if test x then some (some x) else walk next test fuel (next x)

variable {prev next prev' next' : α → Option α} {before start : Option α} {x : α} {l l1 l2 : List α}

theorem Linked.congr (h : Linked prev next before start l)
    (heq : ∀ y ∈ l, prev' y = prev y ∧ next' y = next y) : Linked prev' next' before start l := by
  induction l generalizing before start with
  | nil => exact h
  | cons y l ih =>
    obtain ⟨hstart, hprev, hrest⟩ := h
    obtain ⟨heqp, heqn⟩ := heq y mem_cons_self
    refine ⟨hstart, heqp.trans hprev, ?_⟩
    rw [heqn]
    exact ih hrest fun z hz => heq z (mem_cons_of_mem y hz)

theorem Linked.start_eq (h : Linked prev next before start l) : start = l.head? := by
  cases l with
  | nil => exact h
  | cons y l => exact h.1

section
variable (h : Linked prev next before start (l1 ++ x :: l2))
include h

theorem Linked.next_mem : next x = l2.head? := by
  induction l1 generalizing before start with
  | nil => exact h.2.2.start_eq
  | cons y l ih => exact ih h.2.2

theorem Linked.prev_mem : prev x = l1.getLast?.or before := by
  induction l1 generalizing before start with
  | nil => exact h.2.1
  | cons y l ih =>
    rw [ih h.2.2]
    cases l with
    | nil => rfl
    | cons z l => simp [getLast?_eq_some_getLast]

end

section
variable [DecidableEq α]

theorem Linked.push (h : Linked prev next none start l) (hnodup : l.Nodup)
    (hprev : prev' x = none) (hnext : next' x = start)
    (hprevs : ∀ y ∈ l, prev' y = if start = some y then some x else prev y)
    (hnexts : ∀ y ∈ l, next' y = next y) : Linked prev' next' none (some x) (x :: l) := by
  refine ⟨rfl, hprev, ?_⟩
  rw [hnext]
  cases l with
  | nil => exact h
  | cons y l =>
    obtain ⟨rfl, -, hrest⟩ := h
    refine ⟨rfl, by simp [hprevs y], ?_⟩
    rw [hnexts y mem_cons_self]
    refine hrest.congr fun z hz => ?_
    have hne : y ≠ z := fun heq => (nodup_cons.mp hnodup).1 (heq ▸ hz)
    have hz' := mem_cons_of_mem y hz
    rw [hprevs z hz', hnexts z hz', if_neg (by simpa using hne)]
    exact ⟨rfl, rfl⟩

theorem Linked.remove (h : Linked prev next before start (l1 ++ x :: l2))
    (hnodup : (l1 ++ x :: l2).Nodup) (hbefore : ∀ y ∈ l1 ++ x :: l2, before ≠ some y)
    (hprevs : ∀ y ∈ l1 ++ l2, prev' y = if next x = some y then prev x else prev y)
    (hnexts : ∀ y ∈ l1 ++ l2, next' y = if prev x = some y then next x else next y) :
    Linked prev' next' before (if l1 = [] then next x else start) (l1 ++ l2) := by
  have hnext := h.next_mem
  have hprev := h.prev_mem
  induction l1 generalizing before start with
  | nil =>
    obtain ⟨-, -, hrest⟩ := h
    rw [if_pos rfl]
    cases l2 with
    | nil => exact hrest
    | cons y l =>
      obtain ⟨hstart, -, htail⟩ := hrest
      have hprev : prev x = before := by simpa using hprev
      have hback : ∀ z ∈ y :: l, prev x ≠ some z := fun z hz =>
        hprev ▸ hbefore z (mem_cons_of_mem x hz)
      refine ⟨hstart, ?_, ?_⟩
      · rw [hprevs y mem_cons_self, if_pos hstart, hprev]
      · rw [hnexts y mem_cons_self, if_neg (hback y mem_cons_self)]
        refine htail.congr fun z hz => ?_
        have hne : y ≠ z := fun heq =>
          (nodup_cons.mp (nodup_cons.mp hnodup).2).1 (heq ▸ hz)
        have hz' := mem_cons_of_mem y hz
        rw [hprevs z hz', hnexts z hz', hstart, if_neg (by simpa using hne), if_neg (hback z hz')]
        exact ⟨rfl, rfl⟩
  | cons y l ih =>
    obtain ⟨hstart, hy, hrest⟩ := h
    obtain ⟨hnot, hnodup'⟩ := nodup_cons.mp hnodup
    have hfront : next x ≠ some y := by
      intro heq
      rw [hnext] at heq
      exact hnot (mem_append_right l (mem_cons_of_mem x (mem_of_mem_head? heq)))
    rw [if_neg (cons_ne_nil y l)]
    refine ⟨hstart, ?_, ?_⟩
    · rw [hprevs y mem_cons_self, if_neg hfront, hy]
    · have hstep : next' y = if l = [] then next x else next y := by
        rw [hnexts y mem_cons_self, hrest.prev_mem]
        cases l with
        | nil => simp
        | cons z l =>
          refine if_neg fun heq => ?_
          have hlast : (z :: l).getLast? = some y := by simpa [getLast?_eq_some_getLast] using heq
          exact hnot (mem_append_left _ (mem_of_getLast? hlast))
      rw [hstep]
      exact ih hrest hnodup' (fun z hz heq => hnot (Option.some_inj.mp heq ▸ hz))
        (fun z hz => hprevs z (mem_cons_of_mem y hz))
        (fun z hz => hnexts z (mem_cons_of_mem y hz)) hrest.prev_mem

end

theorem Linked.walk_eq (h : Linked prev next before start l) (test : α → Bool) {fuel : ℕ}
    (hfuel : l.length ≤ fuel) : walk next test fuel start = some (l.find? test) := by
  induction l generalizing before start fuel with
  | nil =>
    obtain rfl : start = none := h
    cases fuel <;> rfl
  | cons y l ih =>
    obtain ⟨rfl, -, hrest⟩ := h
    cases fuel with
    | zero => exact absurd hfuel (Nat.not_succ_le_zero _)
    | succ fuel =>
      rw [walk, find?_cons]
      cases test y with
      | true => rfl
      | false => exact ih hrest (Nat.le_of_succ_le_succ hfuel)

end linked
