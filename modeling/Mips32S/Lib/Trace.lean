import Mathlib.Data.List.Basic

namespace trace

variable {σ α β : Type} {s : σ} {x : α} {event : ℕ → Option α} {N : ℕ}

/-- The events of the first `n` cycles of a run, in order. -/
def log (event : ℕ → Option α) : ℕ → List α
  | 0 => []
  | n + 1 => log event n ++ (event n).toList

/-- A list of observations follows a machine: each one is allowed in the machine's
current state, which it then advances. -/
def Follows (ok : σ → α → Prop) (next : σ → α → σ) : σ → List α → Prop
  | _, [] => True
  | s, x :: xs => ok s x ∧ Follows ok next (next s x) xs

variable {ok : σ → α → Prop} {next : σ → α → σ}

theorem follows_concat {xs : List α} :
    Follows ok next s (xs ++ [x]) ↔ Follows ok next s xs ∧ ok (xs.foldl next s) x := by
  induction xs generalizing s with
  | nil => simp [Follows]
  | cons y ys ih => simp [Follows, ih, and_assoc]

theorem follows_map {f : β → α} {xs : List β} :
    Follows ok next s (xs.map f) ↔
      Follows (fun s x => ok s (f x)) (fun s x => next s (f x)) s xs := by
  induction xs generalizing s with
  | nil => rfl
  | cons x xs ih => simp [Follows, ih]

/-- A log follows a machine if the machine's state can be tracked through the run:
it is related to the run at the start, a cycle without event keeps the relation, and
a cycle with an event offers one the machine allows and moves both together. -/
theorem follows_log {Inv : ℕ → σ → Prop} (hzero : Inv 0 s)
    (hnone : ∀ n < N, ∀ c, Inv n c → event n = none → Inv (n + 1) c)
    (hsome : ∀ n < N, ∀ c x, Inv n c → event n = some x → ok c x ∧ Inv (n + 1) (next c x)) :
    Follows ok next s (log event N) := by
  have hall : ∀ n ≤ N, Follows ok next s (log event n) ∧ Inv n ((log event n).foldl next s) := by
    intro n
    induction n with
    | zero => exact fun _ => ⟨trivial, hzero⟩
    | succ n ih =>
      intro hn
      obtain ⟨hfol, hinv⟩ := ih (by omega)
      cases hev : event n with
      | none => simpa [log, hev] using ⟨hfol, hnone n hn _ hinv hev⟩
      | some x =>
        obtain ⟨hok, hinv'⟩ := hsome n hn _ x hinv hev
        simp only [log, hev, Option.toList_some, List.foldl_append, List.foldl_cons, List.foldl_nil]
        exact ⟨follows_concat.mpr ⟨hfol, hok⟩, hinv'⟩
  exact (hall N (Nat.le_refl N)).1

theorem mem_log : x ∈ log event N ↔ ∃ n < N, event n = some x := by
  induction N with
  | zero => simp [log]
  | succ N ih =>
    simp only [log, List.mem_append, ih, Option.mem_toList]
    constructor
    · rintro (⟨n, hn, h⟩ | h)
      · exact ⟨n, by omega, h⟩
      · exact ⟨N, by omega, h⟩
    · rintro ⟨n, hn, h⟩
      obtain hlt | rfl : n < N ∨ n = N := by omega
      · exact .inl ⟨n, hlt, h⟩
      · exact .inr h

end trace
