import Mips32S.Kernel.Sfs.ByteArray
import Mips32S.Kernel.Sfs.Limit

open layout ownership

namespace ucore.sfs_fs

variable {I : Finset ℕ} {s s' : sfs_fs} {n last lo hi ino : ℕ} {buf : ℕ → BitVec 8}
    {x x' : Transfer}

/-- The first `alen` bytes of the buffer are in the file `n` from `offset` on, and nothing else has
changed but the size and the blocks of this file. -/
structure Contained (I : Finset ℕ) (n offset : ℕ) (buf : ℕ → BitVec 8) (s : sfs_fs) (alen : ℕ)
    (s' : sfs_fs) : Prop where
  stored : ∀ i < alen, (offset + i) / SFS_BLKSIZE < (s'.sin n).din.blocks ∧
    data I s' n (offset + i) = buf i
  size : (s'.sin n).din.size = max (s.sin n).din.size (offset + alen)
  bytes : ∀ m p, slot I s (m, fileSlot (p / SFS_BLKSIZE)) ≠ 0 →
    ¬(m = n ∧ offset ≤ p ∧ p < offset + alen) → data I s' m p = data I s m p
  slots : ∀ r, slot I s r ≠ 0 → slot I s' r = slot I s r
  inodes : ∀ m ∈ I, m ≠ n → s'.dinode m = s.dinode m

theorem grow_din (s : sfs_fs) (n stop : ℕ) : ((s.grow n stop).sin n).din =
    { (s.sin n).din with size := max (s.sin n).din.size stop } := by
  rw [grow]
  split_ifs with hlt
  · rw [setSize_sin_self, Nat.max_eq_right hlt.le]
  · rw [Nat.max_eq_left (not_lt.mp hlt)]

theorem Transferred.contained (ht : Transferred I true n lo hi last ⟨ino, buf, 0⟩ s x' s')
    (hlt : lo < hi) (hlast : (hi - 1) / SFS_BLKSIZE ≤ last) :
    Contained I n lo buf s (hi - lo) (s'.grow n hi) := by
  obtain ⟨-, hslot, hdata⟩ := ht.consistent.grow n hi
  have hend : lo + (hi - lo) = hi := by omega
  refine ⟨fun i hi' => ⟨?_, ?_⟩, by rw [grow_din, ht.frame.size, hend], fun m p hp hnot => ?_,
    fun r hr => by rw [hslot, ht.frame.slot r hr], fun m hm hne => ht.dinode_other hne hm⟩
  · have hdiv : (lo + i) / SFS_BLKSIZE ≤ (hi - 1) / SFS_BLKSIZE := Nat.div_le_div_right (by omega)
    rw [grow_din, ht.nblocks]
    omega
  · rw [hdata, ht.written rfl _ (.inr ⟨by omega, by omega⟩), copy_of_mem (by omega) (by omega)]
    simp
  · rw [hdata]
    by_cases hm : m = n
    · rw [hm] at hp ⊢
      rw [ht.written rfl p (.inl hp), copy_of_not]
      exact fun hin => hnot ⟨hm, hin⟩
    · rw [data, data, ht.frame.slot _ hp]
      exact ht.others m hm _ hp _ (Nat.mod_lt _ (by decide))

section
variable (h : s.Consistent I) (hn : n ∈ s.inode_list) (hdev : s.Reliable) (hf : Filled I s n)
  (ht : Tight I s n)
include h hn hdev hf ht

theorem enough_of_transferred (hlt : lo < hi)
    (heq : sfs_io_nolock.transfer true n lo hi x s = some (x', s'))
    (hcount : (hi - 1) / SFS_BLKSIZE < (s'.sin n).din.blocks) :
    s.Enough n ((hi - 1) / SFS_BLKSIZE) := by
  by_cases henough : s.Enough n (lo / SFS_BLKSIZE)
  · have hg := (transfer_grown h hn hdev hf ht (.inr henough) hlt heq).1
    exact hg.back _ (enough_of_lt (hg.safe.list ▸ hn) hcount (hg.filled _ hcount))
  · -- The only block is not mapped, and its bytes go to whatever block `x.ino` is.
    have hfew := (transfer_few h hn hdev hf ht henough hlt heq).1
    have hdiv : lo / SFS_BLKSIZE ≤ (hi - 1) / SFS_BLKSIZE := Nat.div_le_div_right (by omega)
    omega

/-- A write of a regular file whose blocks are the counted ones, with a device that reports no
errors: its bytes stay where they belong exactly if there is a free block for each of them. -/
theorem write_contained {off resid : BitVec 32} (htype : (s.sin n).din.type ≠ SFS_TYPE_DIR)
    (hlegal : Legal off.toNat resid.toNat)
    (hhi : hi = min (off.toNat + resid.toNat) SFS_MAX_FILE_SIZE)
    (hlt : off.toNat < hi) :
    (∃ ret alen buf' s', s.sfs_io true n buf off resid ino = some (ret, alen, buf', s') ∧
      Contained I n off.toNat buf s alen s') ↔
    off.toNat / SFS_BLKSIZE ≤ (s.sin n).din.blocks ∧
      hi / SFS_BLKSIZE < SFS_NDIRECT + SFS_BLK_NENTRY ∧ s.Enough n ((hi - 1) / SFS_BLKSIZE) := by
  have hhi' : hi = endpos true (s.sin n).din.size off.toNat resid.toNat := hhi
  constructor
  · rintro ⟨ret, alen, buf', s', heq, hc⟩
    have hmap := (sfs_io_isSome h hn hdev hf ht htype).mp (Option.isSome_iff_exists.mpr ⟨_, heq⟩)
      hlegal (by rwa [← hhi'])
    rw [← hhi'] at hmap
    refine ⟨hmap.1, hmap.2.1, ?_⟩
    obtain ⟨⟨x', s1⟩, htrans⟩ := Option.isSome_iff_exists.mp
      ((transfer_isSome (x := ⟨ino, buf, 0⟩) h hn hdev hf ht hlt).mpr hmap)
    have hres := sfs_io_transfer htype hlegal hhi' hlt htrans (transfer_alen hlt htrans)
    rw [heq] at hres
    cases hres
    obtain ⟨hlast, -⟩ := hc.stored (hi - 1 - off.toNat) (by omega)
    have hpos : off.toNat + (hi - 1 - off.toNat) = hi - 1 := by omega
    rw [hpos, grow_din] at hlast
    exact enough_of_transferred h hn hdev hf ht hlt htrans hlast
  · rintro ⟨hle, hk, henough⟩
    have hlast : (hi - 1) / SFS_BLKSIZE ≤ hi / SFS_BLKSIZE := Nat.div_le_div_right (by omega)
    rcases transfer_cases h hn hdev henough true ⟨ino, buf, 0⟩ hlt with
      ⟨-, hwhy⟩ | ⟨x', s', heq, hm⟩ | ⟨hmod, -, x', s', heq, hm⟩
    · exact absurd ⟨hf, hle, hk⟩ hwhy
    · exact ⟨0, _, _, _, sfs_io_transfer htype hlegal hhi' hlt heq hm.alen,
        hm.contained hlt hlast⟩
    · refine ⟨0, _, _, _, sfs_io_transfer htype hlegal hhi' hlt heq hm.alen,
        hm.contained hlt ?_⟩
      have hmod' : hi % 4096 = 0 := hmod
      change (hi - 1) / 4096 ≤ hi / 4096 - 1
      omega

end

/-- Five blocks are written where four are free, the last one with a single byte. That byte is
counted, but goes to the start of the fourth block. -/
theorem write_reuses_block : emptyFile.Consistent {3} ∧ emptyFile.Reliable ∧
    ((emptyFile.sfs_io true 3 (fun i => BitVec.ofNat 8 (i / SFS_BLKSIZE)) 0 0x4001 0).map
      fun r => r.2.2.2.byteAt 3 0x3000) = some 4 ∧
    ¬∃ ret alen buf' s', emptyFile.sfs_io true 3
      (fun i => BitVec.ofNat 8 (i / SFS_BLKSIZE)) 0 0x4001
      0 = some (ret, alen, buf', s') ∧
      Contained {3} 3 0 (fun i => BitVec.ofNat 8 (i / SFS_BLKSIZE)) emptyFile alen s' := by
  refine ⟨emptyFile_consistent, emptyFile_reliable, by decide +kernel, ?_⟩
  rintro ⟨ret, alen, buf', s', heq, hc⟩
  have hrun : ((emptyFile.sfs_io true 3 (fun i => BitVec.ofNat 8 (i / SFS_BLKSIZE)) 0 0x4001 0).map
      fun r => (r.2.1, (r.2.2.2.sin 3).din.blocks)) = some (0x4001, 4) := by decide +kernel
  simp only [heq, Option.map_some, Option.some.injEq, Prod.mk.injEq] at hrun
  obtain ⟨rfl, hblocks⟩ := hrun
  obtain ⟨hlast, -⟩ := hc.stored 0x4000 (by decide)
  rw [hblocks] at hlast
  exact absurd hlast (by decide)

/-- Four blocks are written where four are free. The end is aligned, so that the transfer asks for
a fifth block; it gets none, and the bytes are where they belong. -/
theorem write_contained_aligned :
    ((emptyFile.sfs_io true 3 (fun i => BitVec.ofNat 8 (i / SFS_BLKSIZE)) 0 0x4000 0).map
      fun r => (r.2.1, (r.2.2.2.sin 3).din.blocks, r.2.2.2.unused_blocks)) = some (0x4000, 4, 0) ∧
    ∃ ret alen buf' s', emptyFile.sfs_io true 3 (fun i => BitVec.ofNat 8 (i / SFS_BLKSIZE)) 0 0x4000
      0 = some (ret, alen, buf', s') ∧
      Contained {3} 3 0 (fun i => BitVec.ofNat 8 (i / SFS_BLKSIZE)) emptyFile alen s' :=
  ⟨by decide +kernel,
    (write_contained emptyFile_consistent (by decide) emptyFile_reliable emptyFile_filled
      emptyFile_tight (by decide) ⟨by decide, by decide⟩ (show 0x4000 = _ by decide)
      (by decide)).mpr ⟨by decide, by decide, by decide⟩⟩

end ucore.sfs_fs
