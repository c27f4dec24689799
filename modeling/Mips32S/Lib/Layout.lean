import Mathlib.Data.BitVec

namespace layout

variable {α : Type} {dst src f g src' : ℕ → α} {d s n i m : ℕ}

/-- `dst` with the `n` items of `src` from `s` on copied to `d`. -/
def copy (dst : ℕ → α) (d : ℕ) (src : ℕ → α) (s n : ℕ) : ℕ → α := fun i =>
  if d ≤ i ∧ i < d + n then src (s + (i - d)) else dst i

theorem copy_of_mem (hlo : d ≤ i) (hhi : i < d + n) : copy dst d src s n i = src (s + (i - d)) :=
  if_pos ⟨hlo, hhi⟩

theorem copy_of_not (h : ¬(d ≤ i ∧ i < d + n)) : copy dst d src s n i = dst i := if_neg h

theorem copy_zero : copy dst d src s 0 = dst := by
  funext i
  exact copy_of_not (by omega)

theorem copy_copy : copy (copy dst d src s n) (d + n) src (s + n) m = copy dst d src s (n + m) := by
  funext i
  by_cases hlo : d ≤ i ∧ i < d + n
  · rw [copy_of_not (by omega), copy_of_mem hlo.1 hlo.2, copy_of_mem hlo.1 (by omega)]
  · by_cases hhi : d + n ≤ i ∧ i < d + n + m
    · rw [copy_of_mem hhi.1 hhi.2, copy_of_mem (by omega) (by omega)]
      congr 1
      omega
    · rw [copy_of_not hhi, copy_of_not hlo, copy_of_not (by omega)]

theorem copy_congr (h : ∀ i, s ≤ i → i < s + n → src i = src' i) :
    copy dst d src s n = copy dst d src' s n := by
  funext i
  by_cases hi : d ≤ i ∧ i < d + n
  · rw [copy_of_mem hi.1 hi.2, copy_of_mem hi.1 hi.2, h _ (by omega) (by omega)]
  · rw [copy_of_not hi, copy_of_not hi]

/-- The byte number `i` of `x`. -/
def byteOf (x i : ℕ) : BitVec 8 := BitVec.ofNat 8 (x / 256 ^ i)

/-- The number in the first `n` bytes. -/
def value : ℕ → (ℕ → BitVec 8) → ℕ
  | 0, _ => 0
  | n + 1, b => value n b + 256 ^ n * (b n).toNat

theorem value_congr {b c : ℕ → BitVec 8} (h : ∀ i < n, b i = c i) : value n b = value n c := by
  induction n with
  | zero => rfl
  | succ n ih => rw [value, value, ih fun i hi => h i (by omega), h n (by omega)]

theorem value_zero (n : ℕ) : value n (fun _ => 0) = 0 := by
  induction n with
  | zero => rfl
  | succ n ih =>
    rw [value, ih]
    simp

theorem value_byteOf (n x : ℕ) : value n (byteOf x) = x % 256 ^ n := by
  induction n with
  | zero => rw [value, pow_zero, Nat.mod_one]
  | succ n ih =>
    have hsplit := Nat.mod_mul (x := x) (a := 256 ^ n) (b := 256)
    rw [value, ih, byteOf, BitVec.toNat_ofNat, Nat.pow_succ 256 n, hsplit]

end layout
