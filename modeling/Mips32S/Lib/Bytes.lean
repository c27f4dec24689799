import Mathlib.Data.BitVec

open Function BitVec

namespace bytemem

theorem load_width (n : ℕ) : 8 + 8 * n = 8 * (n + 1) := by omega

section
variable {w : ℕ} (m : BitVec w → BitVec 8) (a : BitVec w)

/-- The `n` bytes from address `a`, the first one least significant. -/
def load : (n : ℕ) → BitVec (8 * n)
  | 0 => 0#0
  | n + 1 => (m (a + BitVec.ofNat w n) ++ load n).cast (load_width n)

/-- The array with the low `n` bytes of `x` stored from address `a`. -/
def store {v : ℕ} (n : ℕ) (x : BitVec v) : BitVec w → BitVec 8 := fun b =>
  if (b - a).toNat < n then x.extractLsb' (8 * (b - a).toNat) 8 else m b

theorem getLsbD_load (n k : ℕ) (hk : k < 8 * n) :
    (load m a n).getLsbD k = (m (a + BitVec.ofNat w (k / 8))).getLsbD (k % 8) := by
  induction n with
  | zero => omega
  | succ n ih =>
    rw [load, getLsbD_cast, getLsbD_append]
    by_cases hlow : k < 8 * n
    · rw [if_pos hlow, ih hlow]
    · obtain rfl : n = k / 8 := by omega
      rw [if_neg hlow, show k - 8 * (k / 8) = k % 8 by omega]

end

variable {k n l j v : ℕ} {a b : BitVec (k + 2)} (mem : BitVec k → BitVec 32)

/-- The position of a byte address within its word. -/
def lane (a : BitVec (k + 2)) : ℕ := (a.extractLsb' 0 2).toNat

/-- The word of a byte address. -/
def index (a : BitVec (k + 2)) : BitVec k := a.extractLsb' 2 k

/-- A memory of words as a byte array. -/
def view (a : BitVec (k + 2)) : BitVec 8 := (mem (index a)).extractLsb' (8 * lane a) 8

theorem lane_lt (a : BitVec (k + 2)) : lane a < 4 := (a.extractLsb' 0 2).isLt

theorem pow_add_two (k : ℕ) : 2 ^ (k + 2) = 4 * 2 ^ k := by
  rw [Nat.pow_succ, Nat.pow_succ]
  omega

theorem toNat_eq (a : BitVec (k + 2)) : a.toNat = 4 * (index a).toNat + lane a := by
  have hlt := a.isLt
  have hpow := pow_add_two k
  have hq : a.toNat / 4 < 2 ^ k := by omega
  simp only [index, lane, extractLsb'_toNat, Nat.shiftRight_eq_div_pow]
  rw [Nat.mod_eq_of_lt hq]
  omega

theorem eq_of_toNat {i : BitVec k} (hl : l < 4) (h : a.toNat = 4 * i.toNat + l) :
    index a = i ∧ lane a = l := by
  have ha := toNat_eq a
  have hlane := lane_lt a
  exact ⟨eq_of_toNat_eq (by omega), by omega⟩

theorem add_ofNat (h : lane a + j < 4) :
    index (a + BitVec.ofNat _ j) = index a ∧ lane (a + BitVec.ofNat _ j) = lane a + j := by
  refine eq_of_toNat h ?_
  have ha := toNat_eq a
  have hi := (index a).isLt
  have hpow := pow_add_two k
  rw [toNat_add, toNat_ofNat, Nat.mod_eq_of_lt (by omega : j < 2 ^ (k + 2)),
    Nat.mod_eq_of_lt (by omega)]
  omega

theorem load_view (h : lane a + n ≤ 4) :
    load (view mem) a n = (mem (index a)).extractLsb' (8 * lane a) (8 * n) := by
  ext i hi
  obtain ⟨hindex, hlane⟩ := add_ofNat (a := a) (j := i / 8) (by omega)
  rw [← getLsbD_eq_getElem, getLsbD_load _ _ _ _ hi, view, hindex, hlane,
    getLsbD_extractLsb', getElem_extractLsb']
  rw [decide_eq_true (by omega : i % 8 < 8), Bool.true_and]
  congr 1
  omega

theorem toNat_sub_lt (h : lane a + n ≤ 4) :
    (b - a).toNat < n ↔ index b = index a ∧ lane a ≤ lane b ∧ lane b < lane a + n := by
  have ha := toNat_eq a
  have hb := toNat_eq b
  have hai := (index a).isLt
  have hbi := (index b).isLt
  have hbl := lane_lt b
  have hpow := pow_add_two k
  have hsub : (b - a).toNat =
      if a.toNat ≤ b.toNat then b.toNat - a.toNat else 4 * 2 ^ k - a.toNat + b.toNat := by
    rw [toNat_sub, hpow]
    split_ifs with hle
    · rw [show 4 * 2 ^ k - a.toNat + b.toNat = b.toNat - a.toNat + 4 * 2 ^ k by omega,
        Nat.add_mod_right, Nat.mod_eq_of_lt (by omega)]
    · exact Nat.mod_eq_of_lt (by omega)
  rw [hsub, ← toNat_inj]
  split_ifs with hle <;> constructor <;> intro hlt <;> omega

/-- Storing within a word: the word that holds the stored bytes in their lanes and the
old ones elsewhere. -/
theorem view_update {x : BitVec v} {y : BitVec 32} (h : lane a + n ≤ 4)
    (hin : ∀ j < n, y.extractLsb' (8 * (lane a + j)) 8 = x.extractLsb' (8 * j) 8)
    (hout : ∀ l < 4, ¬ (lane a ≤ l ∧ l < lane a + n) →
      y.extractLsb' (8 * l) 8 = (mem (index a)).extractLsb' (8 * l) 8) :
    view (update mem (index a) y) = store (view mem) a n x := by
  funext b
  have hnear := toNat_sub_lt (b := b) h
  have hb := toNat_eq b
  have ha := toNat_eq a
  unfold store
  by_cases hlt : (b - a).toNat < n
  · obtain ⟨hindex, hlo, hhi⟩ := hnear.mp hlt
    have hsub : (b - a).toNat = lane b - lane a := by
      rw [hindex] at hb
      rw [toNat_sub_of_le (le_def.mpr (by omega))]
      omega
    rw [if_pos hlt, view, hindex, update_self, hsub, ← hin (lane b - lane a) (by omega),
      show lane a + (lane b - lane a) = lane b by omega]
  · rw [if_neg hlt]
    by_cases hindex : index b = index a
    · rw [view, view, hindex, update_self]
      exact hout _ (lane_lt b) fun hl => hlt (hnear.mpr ⟨hindex, hl⟩)
    · rw [view, view, update_of_ne hindex]

end bytemem
