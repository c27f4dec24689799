import Mips32S.Kernel.Sfs.Transfer

open layout ownership BitVec

namespace ucore.sfs_fs

variable {I : Finset ℕ} {s s' : sfs_fs} {n m size stop hi ino : ℕ} {write : Bool}
  {offset resid : BitVec 32} {buf : ℕ → BitVec 8} {x : Transfer}

/-- The position after the last byte that is asked for and can be moved. -/
def endpos (write : Bool) (size offset resid : ℕ) : ℕ :=
  if write then min (offset + resid) SFS_MAX_FILE_SIZE
  else min (min (offset + resid) SFS_MAX_FILE_SIZE) size

/-- The range starts below the largest size of a file and its end is a position. -/
def Legal (offset resid : ℕ) : Prop := offset < SFS_MAX_FILE_SIZE ∧ offset + resid < 2 ^ 31

theorem endpos_eq (hlegal : Legal offset.toNat resid.toNat) :
    sfs_io_nolock.endpos write size offset resid =
      .ok (if offset.toNat < endpos write size offset.toNat resid.toNat then
        some (endpos write size offset.toNat resid.toNat) else none) := by
  obtain ⟨hstart, hstop⟩ := hlegal
  have hlimit : SFS_MAX_FILE_SIZE = 134217728 := rfl
  have hend : (offset + resid).toNat = offset.toNat + resid.toNat := by
    rw [toNat_add]
    omega
  have hoff : offset.toInt = offset.toNat := by
    rw [toInt_eq_toNat_cond]
    exact if_pos (by omega)
  have hend' : (offset + resid).toInt = offset.toNat + resid.toNat := by
    rw [toInt_eq_toNat_cond, hend, if_pos (by omega)]
    exact Nat.cast_add ..
  have hempty : offset = offset + resid ↔ resid.toNat = 0 := by
    rw [← toNat_inj, hend]
    omega
  simp only [sfs_io_nolock.endpos, hoff, hend', hend, hempty, endpos]
  rw [if_neg (by omega)]
  by_cases hresid : resid.toNat = 0
  · rw [if_pos hresid]
    split_ifs <;> first | rfl | omega
  · rw [if_neg hresid]
    split_ifs <;> first | rfl | omega

theorem endpos_error (hlegal : ¬Legal offset.toNat resid.toNat) :
    sfs_io_nolock.endpos write size offset resid = .error (-E_INVAL) := by
  have hlimit : SFS_MAX_FILE_SIZE = 134217728 := rfl
  have hadd := toNat_add offset resid
  have hoff := toInt_eq_toNat_cond offset
  have hend := toInt_eq_toNat_cond (offset + resid)
  have hlt := offset.isLt
  have hlt' := resid.isLt
  unfold Legal at hlegal
  rw [sfs_io_nolock.endpos, if_pos]
  by_cases hstart : offset.toNat < SFS_MAX_FILE_SIZE
  · refine .inr (.inr ?_)
    have hover : 2 ^ 31 ≤ offset.toNat + resid.toNat := by omega
    split_ifs at hend <;> omega
  · exact .inr (.inl (not_lt.mp hstart))

/-- The size of the file `n` becomes `size`. -/
def setSize (n size : ℕ) (s : sfs_fs) : sfs_fs :=
  (s.modifyDin n fun din => { din with size }).setDirty n true

theorem setSize_eq (n size : ℕ) (s : sfs_fs) : s.setSize n size =
    s.modifySin n fun _ => { s.sin n with din := { (s.sin n).din with size }, dirty := true } := by
  simp [setSize, setDirty, modifyDin, modifySin]

theorem setSize_sin_self :
    (s.setSize n size).sin n = { s.sin n with din := { (s.sin n).din with size }, dirty := true } := by
  simp [setSize_eq, modifySin]

theorem setSize_sin_other (hm : m ≠ n) : (s.setSize n size).sin m = s.sin m := by
  simp [setSize_eq, modifySin, hm]

theorem Consistent.setSize (h : s.Consistent I) (n size : ℕ) :
    (s.setSize n size).Consistent I ∧ slot I (s.setSize n size) = slot I s := by
  rw [setSize_eq]
  exact h.same_refs ⟨fun _ _ => rfl, rfl⟩ fun h => Bool.noConfusion h

/-- A file is never shortened. -/
def grow (n stop : ℕ) (s : sfs_fs) : sfs_fs := if stop > (s.sin n).din.size then s.setSize n stop else s

variable (htype : (s.sin n).din.type ≠ SFS_TYPE_DIR)
include htype

theorem sfs_io_error (hlegal : ¬Legal offset.toNat resid.toNat) :
    s.sfs_io write n buf offset resid ino = some (-E_INVAL, 0, buf, s) := by
  simp [sfs_io, sfs_io_nolock, htype, endpos_error hlegal]

variable (hlegal : Legal offset.toNat resid.toNat)
include hlegal

theorem sfs_io_empty
    (hlt : ¬offset.toNat < endpos write (s.sin n).din.size offset.toNat resid.toNat) :
    s.sfs_io write n buf offset resid ino = some (0, 0, buf, s) := by
  simp [sfs_io, sfs_io_nolock, htype, endpos_eq hlegal, hlt]

theorem sfs_io_transfer (hhi : hi = endpos write (s.sin n).din.size offset.toNat resid.toNat)
    (hlt : offset.toNat < hi)
    (htransfer : sfs_io_nolock.transfer write n offset.toNat hi ⟨ino, buf, 0⟩ s = some (x, s'))
    (halen : x.alen = 0 + (hi - offset.toNat)) :
    s.sfs_io write n buf offset resid ino = some (0, hi - offset.toNat, x.buf, s'.grow n hi) := by
  have hresid : hi - offset.toNat ≤ resid.toNat := by
    rw [hhi, endpos]
    split_ifs <;> omega
  have hstop : offset.toNat + (hi - offset.toNat) = hi := by omega
  rw [hhi] at hlt
  simp only [sfs_io, sfs_io_nolock, endpos_eq hlegal, ← hhi]
  by_cases hgrow : hi > (s'.sin n).din.size
  · simp [htype, htransfer, halen, hstop, hgrow, hresid, grow, setSize, hhi ▸ hlt]
  · simp [htype, htransfer, halen, hstop, hgrow, hresid, grow, hhi ▸ hlt]

end ucore.sfs_fs
