import Mathlib.Data.BitVec
import Mathlib.Logic.Function.Basic
import Mathlib.Tactic.Ring

open Function
open BitVec (ofNat)

namespace ucore

/-- The loop of `memmove` that goes backward, from the ends of the ranges. -/
def memmove.back : ℕ → (d s : BitVec 32) → (BitVec 32 → BitVec 8) → BitVec 32 → BitVec 8
  | 0, _, _, m => m
  | n + 1, d, s, m => back n (d - 1) (s - 1) (update m (d - 1) (m (s - 1)))

def memmove.forth : ℕ → (d s : BitVec 32) → (BitVec 32 → BitVec 8) → BitVec 32 → BitVec 8
  | 0, _, _, m => m
  | n + 1, d, s, m => forth n (d + 1) (s + 1) (update m d (m s))

def memmove (dst src n : BitVec 32) (m : BitVec 32 → BitVec 8) : BitVec 32 → BitVec 8 :=
  if src < dst ∧ src + n > dst then memmove.back n.toNat (dst + n) (src + n) m
  else memmove.forth n.toNat dst src m

/-- The `n` bytes from `src` on, as they are in `m`, in the place of those from `dst` on. -/
def moved (dst src : BitVec 32) (n : ℕ) (m : BitVec 32 → BitVec 8) (a : BitVec 32) : BitVec 8 :=
  if dst.toNat ≤ a.toNat ∧ a.toNat < dst.toNat + n then m (src + (a - dst)) else m a

variable {d s : BitVec 32} {n : ℕ} (m : BitVec 32 → BitVec 8)

theorem memmove.back_eq (hd : d.toNat + n ≤ 2 ^ 32) (h : s < d) :
    back n (d + ofNat 32 n) (s + ofNat 32 n) m = moved d s n m := by
  induction n generalizing m with
  | zero =>
    funext a
    exact (if_neg (by omega)).symm
  | succ n ih =>
    have hstep (x : BitVec 32) : x + ofNat 32 (n + 1) - 1 = x + ofNat 32 n := by
      bv_omega
    rw [back, hstep, hstep, ih _ (by omega)]
    funext a
    have hend : (d + ofNat 32 n).toNat = d.toNat + n := by bv_omega
    simp only [moved, update_apply]
    by_cases ha : a = d + ofNat 32 n
    · subst ha
      have hsub : d + ofNat 32 n - d = ofNat 32 n := by ring
      rw [if_neg (by omega), if_pos rfl, if_pos (by omega), hsub]
    · by_cases hin : d.toNat ≤ a.toNat ∧ a.toNat < d.toNat + n
      · have hne : s + (a - d) ≠ d + ofNat 32 n := by bv_omega
        rw [if_pos hin, if_neg hne, if_pos (by omega)]
      · rw [if_neg hin, if_neg ha, if_neg (by bv_omega)]

theorem memmove.forth_eq (hd : d.toNat + n ≤ 2 ^ 32) (hs : s.toNat + n ≤ 2 ^ 32)
    (h : d ≤ s ∨ s.toNat + n ≤ d.toNat) : forth n d s m = moved d s n m := by
  induction n generalizing d s m with
  | zero =>
    funext a
    exact (if_neg (by omega)).symm
  | succ n ih =>
    rw [forth, ih]
    · funext a
      have hsub : s + 1 + (a - (d + 1)) = s + (a - d) := by ring
      simp only [moved, update_apply, hsub]
      by_cases ha : a = d
      · subst ha
        rw [if_neg (by bv_omega), if_pos rfl, if_pos (by omega), sub_self, add_zero]
      · by_cases hin : d.toNat ≤ a.toNat ∧ a.toNat < d.toNat + (n + 1)
        · have hne : s + (a - d) ≠ d := by bv_omega
          rw [if_pos (by bv_omega), if_neg hne, if_pos hin]
        · rw [if_neg (by bv_omega), if_neg ha, if_neg hin]
    · bv_omega
    · bv_omega
    · bv_omega

/-- `memmove` copies what the source holds before the call, however the ranges overlap. -/
theorem memmove_eq (dst src n : BitVec 32) (m : BitVec 32 → BitVec 8)
    (hdst : dst.toNat + n.toNat ≤ 2 ^ 32) (hsrc : src.toNat + n.toNat ≤ 2 ^ 32) :
    memmove dst src n m = moved dst src n.toNat m := by
  unfold memmove
  split_ifs with h
  · have hback := memmove.back_eq m hdst h.1
    rwa [BitVec.ofNat_toNat, BitVec.setWidth_eq] at hback
  · refine memmove.forth_eq m hdst hsrc ?_
    bv_omega

/-- Four bytes are moved up by two, to the end of the address space. -/
theorem memmove_eq_top :
    [0xfffffffa, 0xfffffffb, 0xfffffffc, 0xfffffffd, 0xfffffffe, 0xffffffff].map
        (memmove 0xfffffffc 0xfffffffa 4 (·.setWidth 8)) =
      [0xfa, 0xfb, 0xfa, 0xfb, 0xfc, 0xfd] := by
  rw [memmove_eq _ _ _ _ (by decide) (by decide)]
  decide

end ucore
