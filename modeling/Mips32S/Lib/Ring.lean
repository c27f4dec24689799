import Mathlib.Data.BitVec

open Function List BitVec
open BitVec (ofNat add_assoc)

namespace ring

variable {α : Type*} {w : ℕ} {base : BitVec w} {i j : ℕ}

/-- The `i`-th slot behind `base`. -/
def slot (base : BitVec w) (i : ℕ) : BitVec w := base + ofNat w i

theorem slot_succ (base : BitVec w) (i : ℕ) : slot base (i + 1) = slot base i + 1#w := by
  rw [slot, slot, ofNat_add, add_assoc]

theorem slot_add (base : BitVec w) (i j : ℕ) : slot (slot base i) j = slot base (i + j) := by
  rw [slot, slot, slot, ofNat_add, add_assoc]

theorem slot_sub (base : BitVec w) (i : ℕ) : slot base i - base = ofNat w i := by
  rw [slot, BitVec.add_comm, BitVec.add_sub_cancel]

section
variable (hi : i < 2 ^ w) (hj : j < 2 ^ w)
include hi hj

theorem ofNat_inj : ofNat w i = ofNat w j ↔ i = j := by
  rw [← toNat_inj, toNat_ofNat, toNat_ofNat, Nat.mod_eq_of_lt hi, Nat.mod_eq_of_lt hj]

theorem ofNat_lt_ofNat : ofNat w i < ofNat w j ↔ i < j := by
  rw [lt_def, toNat_ofNat, toNat_ofNat, Nat.mod_eq_of_lt hi, Nat.mod_eq_of_lt hj]

theorem slot_inj : slot base i = slot base j ↔ i = j := by
  rw [slot, slot, BitVec.add_right_inj, ofNat_inj hi hj]

end

/-- The slots from `base` on hold the entries of the list. -/
def Window (P : BitVec w → α → Prop) (base : BitVec w) (xs : List α) : Prop :=
  ∀ i x, xs[i]? = some x → P (slot base i) x

namespace Window

variable {P Q : BitVec w → α → Prop} {xs : List α}

theorem nil : Window P base [] := fun _ _ h => nomatch h

variable (h : Window P base xs)
include h

theorem append {x : α} (hx : P (slot base xs.length) x) : Window P base (xs ++ [x]) := by
  intro i y hy
  rw [getElem?_append] at hy
  split_ifs at hy with hi
  · exact h i y hy
  · obtain ⟨hzero, rfl⟩ : i - xs.length = 0 ∧ x = y := by simpa [getElem?_singleton] using hy
    rwa [show i = xs.length by omega]

theorem take (k : ℕ) : Window P base (xs.take k) := by
  intro i x hx
  rw [getElem?_take] at hx
  split_ifs at hx
  exact h i x hx

theorem drop (k : ℕ) : Window P (slot base k) (xs.drop k) := by
  intro i x hx
  rw [getElem?_drop] at hx
  rw [slot_add]
  exact h (k + i) x hx

theorem imp (himp : ∀ i < xs.length, ∀ x, P (slot base i) x → Q (slot base i) x) :
    Window Q base xs :=
  fun i x hx => himp i (List.getElem?_eq_some_iff.mp hx).1 x (h i x hx)

end Window

variable {buf : ℕ → α} {pos : ℕ} {x : α} {xs : List α}

/-- A ring in an array: the cells from `pos` on, which may be more than a turn ahead, hold the
entries of the list. -/
def Stored (w : ℕ) (buf : ℕ → α) (pos : ℕ) (xs : List α) : Prop :=
  Window (fun b x => buf b.toNat = x) (ofNat w pos) xs

theorem slot_ofNat (w pos i : ℕ) : slot (ofNat w pos) i = ofNat w (pos + i) :=
  (ofNat_add pos i).symm

theorem Stored.append (h : Stored w buf pos xs) (hroom : xs.length < 2 ^ w) (x : α) :
    Stored w (update buf ((pos + xs.length) % 2 ^ w) x) pos (xs ++ [x]) := by
  rw [← toNat_ofNat, ← slot_ofNat]
  refine (h.imp fun i hi y hy => ?_).append (update_self _ _ _)
  rwa [update_of_ne]
  intro heq
  have := (slot_inj (hi.trans hroom) hroom).mp (toNat_inj.mp heq)
  omega

theorem Stored.head (h : Stored w buf pos (x :: xs)) : buf (pos % 2 ^ w) = x := by
  have hhead := h 0 x rfl
  rwa [slot_ofNat, toNat_ofNat] at hhead

theorem Stored.tail (h : Stored w buf pos (x :: xs)) : Stored w buf (pos + 1) xs := by
  have hdrop := h.drop 1
  rwa [slot_ofNat] at hdrop

theorem stored_mod : Stored w buf (pos % 2 ^ w) xs ↔ Stored w buf pos xs := by
  rw [Stored, Stored, ← toNat_ofNat, ofNat_toNat, setWidth_eq]

end ring
