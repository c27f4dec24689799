import Mathlib.Data.Option.Basic

namespace outcome

variable {α β : Type} {d : Prop} {o : Option α} {Q : α → Prop}

/-- `d` if the computation stops, and `Q` of its result otherwise: partial correctness if `d` is
`True`, and total correctness if it is `False`. -/
def After (d : Prop) (o : Option α) (Q : α → Prop) : Prop := o.elim d Q

theorem After.bind {f : α → Option β} {R : β → Prop} (h : After d o Q)
    (hf : ∀ a, Q a → After d (f a) R) : After d (o.bind f) R := by
  cases o with
  | none => exact h
  | some a => exact hf a h

theorem After.of_forall (h : ∀ a, o = some a → Q a) : After True o Q := by
  cases o with
  | none => trivial
  | some a => exact h a rfl

theorem After.of_eq {a : α} (h : After d o Q) (heq : o = some a) : Q a := by
  rwa [heq] at h

theorem After.cases (h : After d o Q) : o = none ∧ d ∨ ∃ a, o = some a ∧ Q a := by
  cases o with
  | none => exact .inl ⟨rfl, h⟩
  | some a => exact .inr ⟨a, rfl, h⟩

end outcome
