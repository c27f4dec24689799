import Mips32S.Kernel.Sfs.Load
import Mips32S.Lib.Outcome

open layout outcome

namespace ucore.sfs_fs

variable {s s' : sfs_fs} {n b k index lo hi len offset : ℕ} {write : Bool} {x : Transfer} {d : Prop}
  {P : ℕ → ℕ → Transfer → sfs_fs → Prop}

/-- What an operation on the block `b` does to the buffer and to the disk. -/
def BlockOp (write : Bool) (b offset len : ℕ) (x : Transfer) (s : sfs_fs) (buf : ℕ → BitVec 8)
    (s' : sfs_fs) : Prop :=
  if write then buf = x.buf ∧ ∃ y ans, (∀ i, ans i = 0) ∧
    (∀ i < SFS_BLKSIZE, y i = copy (s.disk b) offset x.buf x.alen len i) ∧
    s' = { s with disk := Function.update s.disk b y, answer := ans }
  else buf = copy x.buf x.alen (s.disk b) offset len ∧ Shifted s s'

section
variable (hdev : s.Reliable) (hb : b ≠ 0) (hlt : b < s.blocks)
include hdev hb hlt

theorem buf_op_spec (write : Bool) (hoff : offset < SFS_BLKSIZE)
    (hlen : offset + len ≤ SFS_BLKSIZE) :
    ∃ buf s', s.sfs_buf_op write x.buf x.alen len b offset = some (buf, s') ∧
      BlockOp write b offset len x s buf s' := by
  cases write with
  | true =>
    obtain ⟨s', hs', heq⟩ := hdev.wbuf x.buf x.alen hb hlt hoff hlen
    refine ⟨x.buf, { s' with
      disk := Function.update s.disk b (copy (s.disk b) offset x.buf x.alen len) }, ?_, rfl, _,
      s'.answer, hdev.shifted hs', fun i _ => rfl, ?_⟩
    · simp [sfs_buf_op, heq]
    · obtain ⟨i, rfl⟩ := hs'
      rfl
  | false =>
    obtain ⟨s', hs', heq⟩ := hdev.rbuf x.buf x.alen hb hlt hoff hlen
    refine ⟨_, s', ?_, rfl, hs'⟩
    simp [sfs_buf_op, heq]

theorem block_op_spec (write : Bool) :
    ∃ buf s', s.sfs_block_op write x.buf x.alen b = some (buf, s') ∧
      BlockOp write b 0 SFS_BLKSIZE x s buf s' := by
  cases write with
  | true =>
    obtain ⟨s', hs', heq | ⟨-, -, -, hnot⟩⟩ := wblock_nolock_cases hb hlt
    · refine ⟨x.buf, { s' with
        disk := Function.update s.disk b (copy (fun _ => 0) 0 x.buf x.alen SFS_BLKSIZE) }, ?_, rfl,
        copy (fun _ => 0) 0 x.buf x.alen SFS_BLKSIZE, s'.answer, hdev.shifted hs', fun i hi => ?_,
        ?_⟩
      · rw [sfs_block_op, if_pos rfl, sfs_wblock, heq]
        rfl
      · rw [copy_of_mem (by omega) (by omega), copy_of_mem (by omega) (by omega)]
      · obtain ⟨i, rfl⟩ := hs'
        rfl
    · exact absurd hdev hnot
  | false =>
    obtain ⟨s', hs', heq | ⟨-, -, -, hnot⟩⟩ := rblock_nolock_cases hb hlt
    · refine ⟨_, s', ?_, rfl, hs'⟩
      simp [sfs_block_op, sfs_rblock, heq]
    · exact absurd hdev hnot

end

/-- What the steps of a transfer of the bytes from `lo` to `hi` keep: `P index pos` holds when the
block `index` was mapped last and the bytes before `pos` are done. -/
structure Walk (d : Prop) (write : Bool) (n lo hi : ℕ) (P : ℕ → ℕ → Transfer → sfs_fs → Prop) :
    Prop where
  load : ∀ {index x s}, lo / SFS_BLKSIZE ≤ index → index < hi / SFS_BLKSIZE →
    P index ((index + 1) * SFS_BLKSIZE) x s →
      After d (sfs_io_nolock.load n (index + 1) x s) fun r =>
      P (index + 1) ((index + 1) * SFS_BLKSIZE) r.1 r.2
  buf : ∀ {index offset len x s}, offset < SFS_BLKSIZE → offset + len ≤ SFS_BLKSIZE →
    index * SFS_BLKSIZE + offset + len ≤ hi → P index (index * SFS_BLKSIZE + offset) x s →
    After d (s.sfs_buf_op write x.buf x.alen len x.ino offset) fun r =>
      P index (index * SFS_BLKSIZE + offset + len) ⟨x.ino, r.1, x.alen + len⟩ r.2
  block : ∀ {index x s}, (index + 1) * SFS_BLKSIZE ≤ hi → P index (index * SFS_BLKSIZE) x s →
    After d (s.sfs_block_op write x.buf x.alen x.ino) fun r =>
      P index ((index + 1) * SFS_BLKSIZE) ⟨x.ino, r.1, x.alen + SFS_BLKSIZE⟩ r.2

section
variable (hw : Walk d write n lo hi P)
include hw

theorem Walk.part (len : ℕ) (hoff : offset < SFS_BLKSIZE) (hlen : offset + len ≤ SFS_BLKSIZE)
    (hhi : index * SFS_BLKSIZE + offset + len ≤ hi)
    (hfirst : After d (sfs_io_nolock.load n index x s) fun r =>
      P index (index * SFS_BLKSIZE + offset) r.1 r.2) :
    After d (sfs_io_nolock.part write n index len offset x s) fun r =>
      P index (index * SFS_BLKSIZE + offset + len) r.1 r.2 :=
  hfirst.bind fun _ hP => (hw.buf hoff hlen hhi hP).bind fun _ h => h

theorem Walk.blocks {blkno : ℕ} (hge : lo / SFS_BLKSIZE ≤ blkno)
    (hle : (blkno + 1 + k) * SFS_BLKSIZE ≤ hi) (h : P blkno ((blkno + 1) * SFS_BLKSIZE) x s) :
    After d (sfs_io_nolock.blocks write n k blkno x s) fun r =>
      P (blkno + k) ((blkno + 1 + k) * SFS_BLKSIZE) r.1 r.2 := by
  induction k generalizing blkno x s with
  | zero => exact h
  | succ k ih =>
    have hsum : blkno + 1 + 1 + k = blkno + 1 + (k + 1) := by omega
    have hnext : (blkno + 1 + 1) * SFS_BLKSIZE ≤ hi :=
      le_trans (Nat.mul_le_mul_right _ (by omega)) hle
    have hlt : blkno < hi / SFS_BLKSIZE :=
      (Nat.le_div_iff_mul_le (by decide)).mpr (le_trans (Nat.mul_le_mul_right _ (by omega)) hnext)
    refine (hw.load hge hlt h).bind fun r hP => (hw.block hnext hP).bind fun r' hP' => ?_
    have hrest := @ih r'.2 ⟨r.1.ino, r'.1, r.1.alen + SFS_BLKSIZE⟩ (blkno + 1) (by omega)
      (by rw [hsum]; exact hle) hP'
    rwa [hsum, Nat.add_assoc blkno 1 k, Nat.add_comm 1 k] at hrest

theorem Walk.transfer (hlt : lo < hi)
    (hfirst : After d (sfs_io_nolock.load n (lo / SFS_BLKSIZE) x s) fun r =>
      P (lo / SFS_BLKSIZE) lo r.1 r.2) :
    After d (sfs_io_nolock.transfer write n lo hi x s) fun r =>
      P (hi / SFS_BLKSIZE) hi r.1 r.2 := by
  have hpos : 0 < SFS_BLKSIZE := by decide
  have hoff := Nat.mod_lt lo hpos
  have htail := Nat.mod_lt hi hpos
  have hstart := Nat.div_add_mod' lo SFS_BLKSIZE
  have hend := Nat.div_add_mod' hi SFS_BLKSIZE
  have hdiv : lo / SFS_BLKSIZE ≤ hi / SFS_BLKSIZE := Nat.div_le_div_right hlt.le
  have hfirst' : After d (sfs_io_nolock.load n (lo / SFS_BLKSIZE) x s) fun r =>
      P (lo / SFS_BLKSIZE) (lo / SFS_BLKSIZE * SFS_BLKSIZE + lo % SFS_BLKSIZE) r.1 r.2 := by
    rwa [hstart]
  by_cases hnblks : hi / SFS_BLKSIZE - lo / SFS_BLKSIZE = 0
  · have hsame : hi / SFS_BLKSIZE = lo / SFS_BLKSIZE := by omega
    rw [hsame] at hend
    have hpart := hw.part (hi - lo) hoff (by omega) (by omega) hfirst'
    have hsum : lo + (hi - lo) = hi := by omega
    rw [hstart, hsum] at hpart
    simp only [sfs_io_nolock.transfer, hsame, Nat.sub_self, ne_eq, not_true_eq_false, if_false]
    exact hpart.bind fun _ h => h
  · have hseveral : lo / SFS_BLKSIZE < hi / SFS_BLKSIZE := by omega
    have hhead : lo / SFS_BLKSIZE * SFS_BLKSIZE + lo % SFS_BLKSIZE +
        (SFS_BLKSIZE - lo % SFS_BLKSIZE) =
        (lo / SFS_BLKSIZE + 1) * SFS_BLKSIZE := by
      rw [Nat.succ_mul]
      omega
    have hle : (lo / SFS_BLKSIZE + 1) * SFS_BLKSIZE ≤ hi / SFS_BLKSIZE * SFS_BLKSIZE :=
      Nat.mul_le_mul_right _ (by omega)
    have hpart := hw.part (SFS_BLKSIZE - lo % SFS_BLKSIZE) hoff (by omega) (by omega) hfirst'
    rw [hhead] at hpart
    have hindex : lo / SFS_BLKSIZE + (hi / SFS_BLKSIZE - lo / SFS_BLKSIZE) = hi / SFS_BLKSIZE := by
      omega
    simp only [sfs_io_nolock.transfer, ne_eq, hnblks, not_false_eq_true, if_true, hindex]
    have hcount : lo / SFS_BLKSIZE + 1 + (hi / SFS_BLKSIZE - lo / SFS_BLKSIZE - 1) =
        hi / SFS_BLKSIZE := by omega
    refine hpart.bind fun r hP => ?_
    have hblocks := hw.blocks le_rfl (by rw [hcount]; omega) hP
    refine hblocks.bind fun r' hP' => ?_
    have hprev : lo / SFS_BLKSIZE + (hi / SFS_BLKSIZE - lo / SFS_BLKSIZE - 1) =
        hi / SFS_BLKSIZE - 1 :=
      Nat.eq_sub_of_add_eq (by rwa [Nat.add_right_comm])
    have hnext : hi / SFS_BLKSIZE - 1 + 1 = hi / SFS_BLKSIZE :=
      Nat.sub_add_cancel (Nat.one_le_of_lt hseveral)
    rw [hcount, hprev] at hP'
    have hmap := @Walk.load _ _ _ _ _ _ hw (hi / SFS_BLKSIZE - 1) r'.1 r'.2
      (Nat.le_sub_one_of_lt hseveral) (Nat.sub_one_lt_of_lt hseveral) (by rwa [hnext])
    rw [hnext, ← Nat.add_zero (hi / SFS_BLKSIZE * SFS_BLKSIZE)] at hmap
    have hlast := hw.part (hi % SFS_BLKSIZE) hpos (by omega) (by omega) hmap
    rwa [Nat.add_zero, hend] at hlast

end

/-- The steps on a reliable device: each operation on a block does what it is for. -/
theorem Walk.of_op
    (hrel : ∀ {index pos x s}, P index pos x s → s.Reliable ∧ (d ∨ x.ino ≠ 0 ∧ x.ino < s.blocks))
    (hload : ∀ {index x s}, lo / SFS_BLKSIZE ≤ index → index < hi / SFS_BLKSIZE →
      P index ((index + 1) * SFS_BLKSIZE) x s →
      After d (sfs_io_nolock.load n (index + 1) x s) fun r =>
        P (index + 1) ((index + 1) * SFS_BLKSIZE) r.1 r.2)
    (hop : ∀ {index offset len x s buf s'}, offset + len ≤ SFS_BLKSIZE →
      index * SFS_BLKSIZE + offset + len ≤ hi → P index (index * SFS_BLKSIZE + offset) x s →
      BlockOp write x.ino offset len x s buf s' →
      P index (index * SFS_BLKSIZE + offset + len) ⟨x.ino, buf, x.alen + len⟩ s') :
    Walk d write n lo hi P := by
  refine ⟨hload, fun {index offset len x s} hoff hlen hhi hP => ?_, fun {index x s} hhi hP => ?_⟩
  · by_cases hblock : x.ino ≠ 0 ∧ x.ino < s.blocks
    · obtain ⟨buf, s', heq, hspec⟩ := buf_op_spec (hrel hP).1 hblock.1 hblock.2 write hoff hlen
      rw [heq]
      exact hop hlen hhi hP hspec
    · have hnone : s.sfs_buf_op write x.buf x.alen len x.ino offset = none := by
        simp [sfs_buf_op, sfs_wbuf, sfs_rbuf, sfs_rblock_nolock, hblock]
      rw [hnone]
      exact (hrel hP).2.resolve_right hblock
  · by_cases hblock : x.ino ≠ 0 ∧ x.ino < s.blocks
    · obtain ⟨buf, s', heq, hspec⟩ := block_op_spec (hrel hP).1 hblock.1 hblock.2 write
      rw [heq]
      have hnext : index * SFS_BLKSIZE + 0 + SFS_BLKSIZE = (index + 1) * SFS_BLKSIZE := by
        rw [Nat.add_zero, Nat.succ_mul]
      have hdone := @hop index 0 SFS_BLKSIZE x s buf s' (by omega) (by rwa [hnext])
        (by rwa [Nat.add_zero]) hspec
      rwa [hnext] at hdone
    · have hnone : s.sfs_block_op write x.buf x.alen x.ino = none := by
        simp [sfs_block_op, sfs_wblock, sfs_rblock, sfs_rblock_nolock, sfs_wblock_nolock, hblock]
      rw [hnone]
      exact (hrel hP).2.resolve_right hblock

end ucore.sfs_fs
