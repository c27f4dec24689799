import Mathlib.Data.BitVec

open BitVec

namespace bits

/-- Assignment to the part-select `x[lo + len - 1 : lo]`: the selected bits take
the value `v`, every other bit of `x` is kept. -/
def setSlice {n len : Nat} (x : BitVec n) (lo : Nat) (v : BitVec len) : BitVec n :=
  (x &&& ~~~((allOnes len).setWidth n <<< lo)) ||| (v.setWidth n <<< lo)

section
variable {n len : Nat} (x : BitVec n) (lo : Nat) (v : BitVec len)
include x lo v

theorem getLsbD_setSlice (k : Nat) (hk : k < n) :
    (setSlice x lo v).getLsbD k =
      if lo ≤ k ∧ k < lo + len then v.getLsbD (k - lo) else x.getLsbD k := by
  unfold setSlice
  simp only [getLsbD_or, getLsbD_and, getLsbD_not, getLsbD_shiftLeft,
    getLsbD_setWidth, getLsbD_allOnes]
  by_cases hlo : lo ≤ k
  · have hstart : ¬ k < lo := by omega
    by_cases hhi : k < lo + len
    · simp [hk, hlo, hhi, hstart, show k - lo < len by omega, show k - lo < n by omega]
    · have hv : v.getLsbD (k - lo) = false := getLsbD_of_ge _ _ (by omega)
      simp [hk, hlo, hhi, hv, show ¬ k - lo < len by omega]
  · simp [hk, hlo, show k < lo by omega]

theorem extractLsb'_setSlice (hfit : lo + len ≤ n) : (setSlice x lo v).extractLsb' lo len = v := by
  ext k hk
  simp only [getElem_extractLsb', getLsbD_setSlice x lo v (lo + k) (by omega)]
  simp [hk, getLsbD_eq_getElem]

theorem extractLsb'_setSlice_disjoint (start width : Nat) (hfit : start + width ≤ n)
    (hdisjoint : start + width ≤ lo ∨ lo + len ≤ start) :
    (setSlice x lo v).extractLsb' start width = x.extractLsb' start width := by
  ext k hk
  simp only [getElem_extractLsb', getLsbD_setSlice x lo v (start + k) (by omega)]
  rw [if_neg (by omega)]

end

theorem extractLsb'_extractLsb' {n : Nat} (x : BitVec n) (lo len start width : Nat)
    (hfit : start + width ≤ len) :
    (x.extractLsb' lo len).extractLsb' start width = x.extractLsb' (lo + start) width := by
  ext k hk
  simp [show start + k < len by omega, Nat.add_assoc]

/-- The bits of `d` where the mask is set and those of `x` elsewhere. -/
def merge {n : Nat} (mask x d : BitVec n) : BitVec n := (x &&& ~~~mask) ||| (d &&& mask)

theorem getLsbD_merge {n : Nat} (mask x d : BitVec n) (k : Nat) (hk : k < n) :
    (merge mask x d).getLsbD k = if mask.getLsbD k then d.getLsbD k else x.getLsbD k := by
  simp only [merge, getLsbD_or, getLsbD_and, getLsbD_not, hk]
  cases mask.getLsbD k <;> simp

theorem setSlice_extractLsb' {n : Nat} (x d : BitVec n) (lo len : Nat) :
    setSlice x lo (d.extractLsb' lo len) =
      merge ((allOnes len).setWidth n <<< lo) x d := by
  refine eq_of_getLsbD_eq fun k hk => ?_
  rw [getLsbD_setSlice _ _ _ _ hk, getLsbD_merge _ _ _ _ hk]
  simp only [getLsbD_shiftLeft, getLsbD_setWidth, getLsbD_allOnes, getLsbD_extractLsb', hk]
  by_cases hlo : lo ≤ k
  · have hin : k - lo < n := by omega
    have hstart : ¬ k < lo := by omega
    by_cases hhi : k < lo + len
    · have hlen : k - lo < len := by omega
      simp [hlo, hhi, hin, hlen, hstart, Nat.add_sub_cancel' hlo]
    · have hlen : ¬ k - lo < len := by omega
      simp [hhi, hlen]
  · have hstart : k < lo := by omega
    simp [hlo, hstart]

theorem merge_merge {n : Nat} (a b x d : BitVec n) :
    merge a (merge b x d) d = merge (a ||| b) x d := by
  refine eq_of_getLsbD_eq fun k hk => ?_
  simp only [getLsbD_merge _ _ _ _ hk, getLsbD_or]
  cases a.getLsbD k <;> simp

theorem extractLsb'_merge {n : Nat} (mask x d : BitVec n) (lo len : Nat) (hfit : lo + len ≤ n) :
    (merge mask x d).extractLsb' lo len =
      merge (mask.extractLsb' lo len) (x.extractLsb' lo len) (d.extractLsb' lo len) := by
  refine eq_of_getLsbD_eq fun k hk => ?_
  rw [getLsbD_merge _ _ _ _ hk]
  simp only [getLsbD_extractLsb', hk, decide_true, Bool.true_and,
    getLsbD_merge mask x d (lo + k) (by omega)]

theorem append_inj {m n : ℕ} {a a' : BitVec m} {b b' : BitVec n} :
    a ++ b = a' ++ b' ↔ a = a' ∧ b = b' := by
  refine ⟨fun h => ⟨?_, ?_⟩, fun h => by rw [h.1, h.2]⟩
  · have hhi := congrArg (extractLsb' n m) h
    simpa [extractLsb'_append_eq_of_le] using hhi
  · have hlo := congrArg (extractLsb' 0 n) h
    simpa [extractLsb'_append_eq_of_add_le] using hlo

end bits
