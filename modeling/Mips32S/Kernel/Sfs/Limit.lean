import Mips32S.Kernel.Sfs.Atomic
import Mips32S.Kernel.Sfs.Safety

open layout ownership outcome Option

namespace ucore.sfs_fs

variable {I : Finset ℕ} {s s' s'' : sfs_fs} {n b k index last lo hi ino offset : ℕ} {write : Bool}
  {x x' : Transfer} {buf : ℕ → BitVec 8}

section

theorem enough_of_lt (hn : n ∈ s.inode_list) (hlt : last < (s.sin n).din.blocks)
    (hslot : slot I s (n, fileSlot last) ≠ 0) : s.Enough n last := by
  have hind : ¬(SFS_NDIRECT ≤ last ∧ (s.sin n).din.indirect = 0) := by
    rintro ⟨hle, hzero⟩
    rw [fileSlot_entry (not_lt.mpr hle)] at hslot
    exact hslot (slot_entry_none (by rwa [dinode_of_loaded hn]))
  rw [Enough, if_neg hind]
  omega

theorem slot_of_capacity (hle : SFS_NDIRECT + SFS_BLK_NENTRY ≤ k) :
    slot I s (n, fileSlot k) = 0 := by
  rw [fileSlot_entry (by omega), slot]
  split_ifs
  · exact if_neg fun h => by omega
  · rfl

variable (h : s.Consistent I) (hn : n ∈ s.inode_list) (hdev : s.Reliable)
include h hn hdev

theorem load_enough_back (ht : Tight I s n) (hl : Loaded I n index b s s')
    (heq : s.sfs_bmap_load_nolock n index = some (.ok b, s')) (he : s'.Enough n last) :
    s.Enough n last := by
  rcases hl.index_le.lt_or_eq with hlt | hindex
  · have hs' := hl.shifted hlt
    unfold Enough at he ⊢
    rwa [hs'.sin, hs'.unused] at he
  have hk : index < SFS_NDIRECT + SFS_BLK_NENTRY := by
    by_contra hle
    exact hl.ne_zero (hl.slot.symm.trans (slot_of_capacity (not_lt.mp hle)))
  rcases get_create h hdev hn hk (ht index hindex.ge) with ⟨b', s1, hget, hc⟩ | ⟨s1, hget, -⟩
  swap
  · rw [hindex] at hget
    simp [sfs_bmap_load_nolock, hindex, hget] at heq
  have hload := load_of_get hl.index_le
      (by simpa [hindex] using hget) hc.consistent hc.slot hc.ne_zero
  rw [heq, if_pos hindex] at hload
  simp only [some.injEq, Prod.mk.injEq] at hload
  obtain ⟨-, hs'⟩ := hload
  have hblocks := hl.nblocks
  have hunused : s'.unused_blocks = s1.unused_blocks := by rw [hs']; rfl
  have hindirect : (s'.sin n).din.indirect = (s1.sin n).din.indirect := by
    rw [hs']
    simp [modifyDin, modifySin]
  have hcost := hc.unused
  have hlarge := hc.indirect
  have hsmall := (get_retains hget).2.1
  unfold Enough at he ⊢
  unfold cost at hcost
  rw [hblocks, hindirect, hunused] at he
  by_cases hdirect : index < SFS_NDIRECT
  · split_ifs at * <;> omega
  · have hne := hlarge (not_lt.mp hdirect)
    split_ifs at * <;> omega

end

/-- What a part of a transfer leaves of a file that has its counted blocks and no others. -/
structure Grown (write : Bool) (I : Finset ℕ) (n : ℕ) (s : sfs_fs) (x' : Transfer) (s' : sfs_fs) :
    Prop extends Next write I n s x' s' where
  filled : Filled I s' n
  counted : (s.sin n).din.blocks ≤ (s'.sin n).din.blocks
  back : ∀ last, s'.Enough n last → s.Enough n last

theorem load_grown (h : s.Consistent I) (hn : n ∈ s.inode_list) (hdev : s.Reliable)
    (hf : Filled I s n) (ht : Tight I s n) (hready : Ready write I n x s ∨ s.Enough n index)
    (heq : sfs_io_nolock.load n index x s = some (x', s')) : Grown write I n s x' s' := by
  have hnext := load_next h hn hdev hready heq
  rcases mapped h hn hdev heq with ⟨b, hsome, rfl, hl⟩ | ⟨rfl, href, -⟩
  · have hm : Moved I write n 0 0 index x s _ s' := moved_load hl
    exact ⟨hnext, hm.filled hf, hm.nblocks ▸ le_max_left _ _,
      fun last => load_enough_back h hn hdev ht hl hsome⟩
  · refine ⟨hnext, href.enlarged.filled hf, by rw [href.sin], fun last he => ?_⟩
    have hunused : s'.unused_blocks = s.unused_blocks := by
      rw [href.consistent.unused, h.unused]
      exact congrArg (fun y => y.free.card) href.store
    unfold Enough at he ⊢
    rwa [href.sin, hunused] at he

theorem buf_op_isSome {len d : ℕ} (s : sfs_fs) :
    (s.sfs_buf_op write buf d len b offset).isSome ↔
      (offset < SFS_BLKSIZE ∧ offset + len ≤ SFS_BLKSIZE) ∧ b ≠ 0 ∧ b < s.blocks := by
  by_cases hrange : offset < SFS_BLKSIZE ∧ offset + len ≤ SFS_BLKSIZE
  swap
  · simp [sfs_buf_op, sfs_wbuf, sfs_rbuf, hrange]
  by_cases hblock : b ≠ 0 ∧ b < s.blocks
  swap
  · simp [sfs_buf_op, sfs_wbuf, sfs_rbuf, sfs_rblock_nolock, hblock]
  refine iff_of_true ?_ ⟨hrange, hblock⟩
  cases write with
  | true =>
    obtain ⟨s', -, heq | ⟨ret, -, heq, -⟩⟩ := wbuf_cases buf d hblock.1 hblock.2 hrange.1 hrange.2
    all_goals simp [sfs_buf_op, heq]
  | false =>
    obtain ⟨s', -, heq | ⟨ret, -, heq, -⟩⟩ := rbuf_cases buf d hblock.1 hblock.2 hrange.1 hrange.2
    all_goals simp [sfs_buf_op, heq]

theorem part_isSome {len : ℕ} :
    (sfs_io_nolock.part write n index len offset x s).isSome ↔
      ∃ x1 s1, sfs_io_nolock.load n index x s = some (x1, s1) ∧
        (offset < SFS_BLKSIZE ∧ offset + len ≤ SFS_BLKSIZE) ∧ x1.ino ≠ 0 ∧ x1.ino < s1.blocks := by
  cases hload : sfs_io_nolock.load n index x s with
  | none => simp [sfs_io_nolock.part, hload]
  | some r =>
    obtain ⟨x1, s1⟩ := r
    simp [sfs_io_nolock.part, hload, isSome_bind, buf_op_isSome]

/-- The end of a transfer of several blocks may be moved to the start of its last block. -/
theorem transfer_aligned (hlt : lo / SFS_BLKSIZE < hi / SFS_BLKSIZE) :
    (sfs_io_nolock.transfer write n lo hi x s).isSome ↔
      (sfs_io_nolock.transfer write n lo (hi / SFS_BLKSIZE * SFS_BLKSIZE) x s).isSome := by
  have hpos : 0 < SFS_BLKSIZE := by decide
  have hmod := Nat.mod_lt hi hpos
  have hnblks : hi / SFS_BLKSIZE - lo / SFS_BLKSIZE ≠ 0 := by omega
  have hlen : hi % SFS_BLKSIZE ≤ SFS_BLKSIZE := hmod.le
  simp only [sfs_io_nolock.transfer, Nat.mul_div_cancel _ hpos, Nat.mul_mod_left, ne_eq, hnblks,
    not_false_eq_true, if_true]
  simp only [bind_eq_bind, isSome_bind, any_eq_true]
  simp [part_isSome, hlen, hpos]

theorem load_alen (heq : sfs_io_nolock.load n index x s = some (x', s')) : x'.alen = x.alen := by
  simp only [sfs_io_nolock.load, bind_eq_bind, bind_eq_some_iff, Prod.exists] at heq
  obtain ⟨r, s1, -, heq⟩ := heq
  cases r with
  | ok ino =>
    cases heq
    rfl
  | error e =>
    cases heq
    rfl

theorem transfer_alen (hlt : lo < hi)
    (heq : sfs_io_nolock.transfer write n lo hi x s = some (x', s')) :
    x'.alen = x.alen + (hi - lo) := by
  have hwalk : Walk True write n lo hi fun _ pos y _ => lo ≤ pos ∧
      y.alen = x.alen + (pos - lo) := by
    refine ⟨fun _ _ hP => .of_forall fun r hmap => ⟨hP.1, (load_alen hmap).trans hP.2⟩,
      fun _ _ _ hP => .of_forall fun r _ => ⟨by omega, ?_⟩,
      fun _ hP => .of_forall fun r _ => ⟨?_, ?_⟩⟩
    · dsimp only
      omega
    · rw [Nat.succ_mul]
      omega
    · rw [Nat.succ_mul]
      dsimp only
      omega
  refine ((hwalk.transfer hlt (.of_forall fun r hmap => ⟨le_rfl, ?_⟩)).of_eq heq).2
  rw [load_alen hmap]
  omega

/-- The first block of the range is there or the next one, the last one can be mapped, and there
are free blocks for all but the last block, or for the only one. The variable `ino` may hold the
number of a block by chance. -/
def Mappable (n lo hi ino : ℕ) (s : sfs_fs) : Prop :=
  lo / SFS_BLKSIZE ≤ (s.sin n).din.blocks ∧ hi / SFS_BLKSIZE < SFS_NDIRECT + SFS_BLK_NENTRY ∧
  if lo / SFS_BLKSIZE < hi / SFS_BLKSIZE then s.Enough n (hi / SFS_BLKSIZE - 1)
  else s.Enough n (lo / SFS_BLKSIZE) ∨ ino ≠ 0 ∧ ino < s.blocks

section
variable (h : s.Consistent I) (hn : n ∈ s.inode_list) (hdev : s.Reliable) (hf : Filled I s n)
  (ht : Tight I s n)
include h hn hdev hf

theorem load_isSome : (sfs_io_nolock.load n index x s).isSome ↔
    index ≤ (s.sin n).din.blocks ∧ index < SFS_NDIRECT + SFS_BLK_NENTRY := by
  by_cases hle : index ≤ (s.sin n).din.blocks
  swap
  · simp [sfs_io_nolock.load, sfs_bmap_load_nolock, hle]
  by_cases hk : index < SFS_NDIRECT + SFS_BLK_NENTRY
  swap
  · have hdirect : ¬index < SFS_NDIRECT := by omega
    have hentry : ¬index - SFS_NDIRECT < SFS_BLK_NENTRY := by omega
    simp [sfs_io_nolock.load, sfs_bmap_load_nolock, sfs_bmap_get_nolock, hdirect, hentry, hk]
  refine iff_of_true ?_ ⟨hle, hk⟩
  rcases load_cases h hn hdev index with ⟨-, hwhy⟩ | ⟨b, s', heq, -⟩ | ⟨s', heq, -⟩
  · rcases hwhy with hwhy | hwhy | ⟨hlt, hslot⟩
    · omega
    · omega
    · exact absurd hslot (hf index hlt)
  · simp [sfs_io_nolock.load, heq]
  · simp [sfs_io_nolock.load, heq]

include ht

theorem load_few (hfew : ¬s.Enough n index) (heq : sfs_io_nolock.load n index x s = some (x', s')) :
    x' = x ∧ Refused I s s' ∧ index = (s.sin n).din.blocks := by
  have hindex := (load_isSome h hn hdev hf).mp (isSome_iff_exists.mpr ⟨_, heq⟩)
  rcases mapped h hn hdev heq with ⟨b, hsome, -, hl⟩ | ⟨rfl, href, -⟩
  · have hlt : index < (s'.sin n).din.blocks := by
      rw [hl.nblocks]
      omega
    have hslot : slot I s' (n, fileSlot index) ≠ 0 := hl.slot ▸ hl.ne_zero
    exact absurd (load_enough_back h hn hdev ht hl hsome
      (enough_of_lt (hl.keeps.list ▸ hn) hlt hslot)) hfew
  · refine ⟨rfl, href, le_antisymm hindex.1 (not_lt.mp fun hlt => hfew ?_)⟩
    exact enough_of_lt hn hlt (hf index hlt)

theorem transfer_grown (hready : Ready write I n x s ∨ s.Enough n (lo / SFS_BLKSIZE))
    (hlt : lo < hi) (heq : sfs_io_nolock.transfer write n lo hi x s = some (x', s')) :
    Grown write I n s x' s' ∧ hi / SFS_BLKSIZE ≤ (s'.sin n).din.blocks ∧
      hi / SFS_BLKSIZE < SFS_NDIRECT + SFS_BLK_NENTRY := by
  have hwalk : Walk True write n lo hi fun index _ x1 s1 => Grown write I n s x1 s1 ∧
      index ≤ (s1.sin n).din.blocks ∧ index < SFS_NDIRECT + SFS_BLK_NENTRY := by
    refine .of_op (fun hP => ⟨hP.1.reliable, .inl trivial⟩)
      (fun _ _ ⟨hP, _⟩ => .of_forall fun r hmap => ?_) fun _ _ ⟨hP, hindex⟩ hop => ?_
    · have hn' := hP.safe.list ▸ hn
      have hg := load_grown hP.safe.consistent hn' hP.reliable hP.filled (hP.safe.tight n ht)
        (.inl hP.ready) hmap
      have hsome := (load_isSome hP.safe.consistent hn' hP.reliable hP.filled).mp
        (isSome_iff_exists.mpr ⟨r, hmap⟩)
      exact ⟨⟨hP.toNext.trans hg.toNext, hg.filled, hP.counted.trans hg.counted,
        fun last he => hP.back last (hg.back last he)⟩, hsome.1.trans hg.counted, hsome.2⟩
    · obtain ⟨disk, answer, hs', -, hslot, -⟩ := hop.spec hP.safe.consistent hP.reliable hP.ready
      have hsin := congrArg sfs_fs.sin hs'
      refine ⟨⟨hP.toNext.trans (hop.next hP.safe.consistent hP.reliable hP.ready _), fun k hk => ?_,
        by rw [hsin]; exact hP.counted, fun last he => hP.back last ?_⟩, by rwa [hsin]⟩
      · rw [hslot]
        exact hP.filled k (by rwa [hsin] at hk)
      · rwa [hs'] at he
  refine (hwalk.transfer hlt (.of_forall fun r hmap => ?_)).of_eq heq
  have hg := load_grown h hn hdev hf ht hready hmap
  have hsome := (load_isSome h hn hdev hf).mp (isSome_iff_exists.mpr ⟨r, hmap⟩)
  exact ⟨hg, hsome.1.trans hg.counted, hsome.2⟩

theorem transfer_few (hfew : ¬s.Enough n (lo / SFS_BLKSIZE)) (hlt : lo < hi)
    (heq : sfs_io_nolock.transfer write n lo hi x s = some (x', s')) :
    (s'.sin n).din.blocks ≤ lo / SFS_BLKSIZE ∧ hi / SFS_BLKSIZE = lo / SFS_BLKSIZE := by
  have hwalk : Walk True write n lo hi fun index _ _ s1 => s1.Reliable ∧
      (s1.sin n).din.blocks ≤ lo / SFS_BLKSIZE ∧ index = lo / SFS_BLKSIZE := by
    refine .of_op (fun hP => ⟨hP.1, .inl trivial⟩)
      (fun {index _ s1} hge _ hP => .of_forall fun r hmap => ?_) fun _ _ hP hop => ?_
    · have hnot : ¬index + 1 ≤ (s1.sin n).din.blocks := by omega
      simp [sfs_io_nolock.load, sfs_bmap_load_nolock, hnot] at hmap
    · unfold BlockOp at hop
      split_ifs at hop
      · obtain ⟨-, y, ans, hans, -, rfl⟩ := hop
        exact ⟨hans, hP.2⟩
      · obtain ⟨-, hs'⟩ := hop
        exact ⟨hP.1.shifted hs', hs'.sin ▸ hP.2⟩
  refine ((hwalk.transfer hlt (.of_forall fun r hmap => ?_)).of_eq heq).2
  obtain ⟨-, href, hindex⟩ := load_few h hn hdev hf ht hfew hmap
  exact ⟨(href.keeps n).reliable hdev, href.sin ▸ hindex.ge, rfl⟩

theorem transfer_isSome (hlt : lo < hi) :
    (sfs_io_nolock.transfer write n lo hi x s).isSome ↔ Mappable n lo hi x.ino s := by
  have hsize : SFS_BLKSIZE = 4096 := rfl
  have hpos : 0 < SFS_BLKSIZE := by decide
  have hdiv : lo / SFS_BLKSIZE ≤ hi / SFS_BLKSIZE := Nat.div_le_div_right hlt.le
  unfold Mappable
  split_ifs with hseveral
  · constructor
    · intro hsome
      obtain ⟨⟨x', s'⟩, heq⟩ := isSome_iff_exists.mp hsome
      have hfirst : s.Enough n (lo / SFS_BLKSIZE) := by_contra fun hfew =>
        hseveral.ne' (transfer_few h hn hdev hf ht hfew hlt heq).2
      obtain ⟨hg, hle, hk⟩ := transfer_grown h hn hdev hf ht (.inr hfirst) hlt heq
      obtain ⟨⟨x1, s1⟩, hhead, -⟩ := bind_eq_some_iff.mp heq
      obtain ⟨x0, s0, hload0, -⟩ := part_isSome.mp (isSome_iff_exists.mpr ⟨_, hhead⟩)
      have hstart := (load_isSome h hn hdev hf).mp (isSome_iff_exists.mpr ⟨_, hload0⟩)
      have hlast : hi / SFS_BLKSIZE - 1 < (s'.sin n).din.blocks :=
        Nat.sub_one_lt_of_le (Nat.zero_lt_of_lt hseveral) hle
      exact ⟨hstart.1, hk, hg.back _ (enough_of_lt (hg.safe.list ▸ hn) hlast (hg.filled _ hlast))⟩
    · rintro ⟨hle, hk, henough⟩
      rw [transfer_aligned hseveral]
      have hbefore : lo < hi / SFS_BLKSIZE * SFS_BLKSIZE := by
        rw [hsize] at *
        omega
      have hlast : (hi / SFS_BLKSIZE * SFS_BLKSIZE - 1) / SFS_BLKSIZE = hi / SFS_BLKSIZE - 1 := by
        rw [hsize] at *
        omega
      have hend : hi / SFS_BLKSIZE * SFS_BLKSIZE / SFS_BLKSIZE = hi / SFS_BLKSIZE :=
        Nat.mul_div_cancel _ hpos
      rcases transfer_cases h hn hdev (by rwa [hlast]) write x hbefore with
        ⟨-, hwhy⟩ | ⟨x', s', heq, -⟩ | ⟨-, -, x', s', heq, -⟩
      · exact absurd ⟨hf, hle, by rwa [hend]⟩ hwhy
      · simp [heq]
      · simp [heq]
  · have hsame : hi / SFS_BLKSIZE = lo / SFS_BLKSIZE := by omega
    have hrange : lo % SFS_BLKSIZE < SFS_BLKSIZE ∧ lo % SFS_BLKSIZE + (hi - lo) ≤ SFS_BLKSIZE := by
      rw [hsize] at *
      omega
    have htransfer : sfs_io_nolock.transfer write n lo hi x s =
        sfs_io_nolock.part write n (lo / SFS_BLKSIZE) (hi - lo) (lo % SFS_BLKSIZE) x s := by
      simp only [sfs_io_nolock.transfer, hsame, Nat.sub_self, ne_eq, not_true_eq_false, if_false]
      exact bind_pure _
    rw [htransfer, part_isSome, hsame, ← and_assoc, ← load_isSome h hn hdev hf (x := x)]
    by_cases henough : s.Enough n (lo / SFS_BLKSIZE)
    · constructor
      · rintro ⟨x1, s1, hload, -⟩
        exact ⟨by simp [hload], .inl henough⟩
      · rintro ⟨hsome, -⟩
        rcases map_cases h hn hdev x le_rfl henough with ⟨hnone, -⟩ | ⟨b, s1, hload, hl⟩
        · rw [hnone] at hsome
          cases hsome
        · exact ⟨_, s1, hload, hrange, hl.ne_zero, hl.slot ▸ hl.consistent.slot_lt _⟩
    · constructor
      · rintro ⟨x1, s1, hload, -, hino⟩
        refine ⟨by simp [hload], .inr ?_⟩
        obtain ⟨rfl, href, -⟩ := load_few h hn hdev hf ht henough hload
        rwa [(href.keeps n).blocks] at hino
      · rintro ⟨hsome, hino⟩
        obtain ⟨⟨x1, s1⟩, hload⟩ := isSome_iff_exists.mp hsome
        obtain ⟨rfl, href, -⟩ := load_few h hn hdev hf ht henough hload
        refine ⟨x1, s1, hload, hrange, ?_⟩
        rw [(href.keeps n).blocks]
        exact hino.resolve_left henough

theorem sfs_io_isSome {off resid : BitVec 32} (htype : (s.sin n).din.type ≠ SFS_TYPE_DIR) :
    (s.sfs_io write n buf off resid ino).isSome ↔ (Legal off.toNat resid.toNat →
      off.toNat < endpos write (s.sin n).din.size off.toNat resid.toNat →
      Mappable n off.toNat (endpos write (s.sin n).din.size off.toNat resid.toNat) ino s) := by
  by_cases hlegal : Legal off.toNat resid.toNat
  swap
  · simp [sfs_io_error htype hlegal, hlegal]
  by_cases hlt : off.toNat < endpos write (s.sin n).din.size off.toNat resid.toNat
  swap
  · simp [sfs_io_empty htype hlegal hlt, hlt]
  generalize hhi : endpos write (s.sin n).din.size off.toNat resid.toNat = hi at *
  have hiff : (sfs_io_nolock.transfer write n off.toNat hi ⟨ino, buf, 0⟩ s).isSome ↔
    Mappable n off.toNat hi ino s := transfer_isSome h hn hdev hf ht hlt
  simp only [hlegal, hlt, true_imp_iff]
  rw [← hiff]
  cases heq : sfs_io_nolock.transfer write n off.toNat hi ⟨ino, buf, 0⟩ s with
  | none => simp [sfs_io, sfs_io_nolock, endpos_eq hlegal, hhi, hlt, heq]
  | some r =>
    obtain ⟨x', s'⟩ := r
    simp [sfs_io_transfer htype hlegal hhi.symm hlt heq (transfer_alen hlt heq)]

end

section
variable (h : s.Consistent I) (hn : n ∈ s.inode_list) (hdev : s.Reliable) (hf : Filled I s n)
  (ht : Tight I s n)
include h hn hdev hf ht

theorem enlarge_isSome :
    (sfs_truncfile.enlarge n k (s.sin n).din.blocks s).isSome ↔
      ((s.sin n).din.blocks + k ≤ SFS_NDIRECT + SFS_BLK_NENTRY ∨
        ¬s.Enough n (SFS_NDIRECT + SFS_BLK_NENTRY - 1)) := by
  have hcap : (s.sin n).din.blocks ≤ SFS_NDIRECT + SFS_BLK_NENTRY := by
    by_contra hlt
    exact hf (SFS_NDIRECT + SFS_BLK_NENTRY) (not_le.mp hlt) (slot_of_capacity le_rfl)
  have hpos : 0 < SFS_NDIRECT + SFS_BLK_NENTRY := by decide
  induction k generalizing s with
  | zero => exact iff_of_true rfl (.inl hcap)
  | succ k ih =>
    by_cases hfull : (s.sin n).din.blocks = SFS_NDIRECT + SFS_BLK_NENTRY
    · have hlast : SFS_NDIRECT + SFS_BLK_NENTRY - 1 < (s.sin n).din.blocks := by omega
      have henough := enough_of_lt hn hlast (hf _ hlast)
      have hdirect : ¬(s.sin n).din.blocks < SFS_NDIRECT := by omega
      have hentry : ¬(s.sin n).din.blocks - SFS_NDIRECT < SFS_BLK_NENTRY := by omega
      refine iff_of_false ?_ fun hwhy => hwhy.elim (by omega) fun hfew => hfew henough
      simp [sfs_truncfile.enlarge, sfs_bmap_load_nolock, sfs_bmap_get_nolock, hdirect, hentry]
    rcases load_cases h hn hdev (s.sin n).din.blocks with
      ⟨heq, hwhy⟩ | ⟨b, s1, heq, hl⟩ | ⟨s', heq, href, hfew⟩
    · omega
    · have hg := hl.enlarged rfl
      have hcount := hg.nblocks
      have hiff := ih hg.consistent (hl.keeps.list ▸ hn) (hl.keeps.reliable hdev) (hg.filled hf)
        (hg.safe.tight n ht) (by omega)
      have hsame : s1.Enough n (SFS_NDIRECT + SFS_BLK_NENTRY - 1) ↔
          s.Enough n (SFS_NDIRECT + SFS_BLK_NENTRY - 1) :=
        ⟨load_enough_back h hn hdev ht hl heq, hl.enough _ (by omega)⟩
      have hstep : sfs_truncfile.enlarge n (k + 1) (s.sin n).din.blocks s =
          sfs_truncfile.enlarge n k (s1.sin n).din.blocks s1 := by
        simp [sfs_truncfile.enlarge, heq, hcount]
      rw [hstep]
      refine hiff.trans ?_
      rw [hsame, hcount, Nat.add_right_comm, Nat.add_assoc]
    · exact iff_of_true (by simp [sfs_truncfile.enlarge, heq]) (.inr (hfew _ (by omega)))

/-- A file is not made longer than the slots of its inode allow, or the free blocks run out before
that; a length that stays goes with the blocks. -/
def Resizable (n len : ℕ) (s : sfs_fs) : Prop :=
  if (s.sin n).din.size = len then ROUNDUP_DIV_2N len PGSHIFT = (s.sin n).din.blocks
  else ROUNDUP_DIV_2N len PGSHIFT ≤ SFS_NDIRECT + SFS_BLK_NENTRY ∨
    ¬s.Enough n (SFS_NDIRECT + SFS_BLK_NENTRY - 1)

theorem truncfile_isSome {len : BitVec 32} : (s.sfs_truncfile n len).isSome ↔
    (¬(len.toInt < 0 ∨ len.toNat > SFS_MAX_FILE_SIZE) → Resizable n len.toNat s) := by
  unfold Resizable
  set tblks := ROUNDUP_DIV_2N len.toNat PGSHIFT with htblks
  rw [sfs_truncfile]
  simp only [← htblks]
  by_cases hbad : len.toInt < 0 ∨ len.toNat > SFS_MAX_FILE_SIZE
  · simp [hbad]
  rw [if_neg hbad, imp_iff_right hbad]
  by_cases hsize : (s.sin n).din.size = len.toNat
  · rw [if_pos hsize, if_pos hsize]
    split_ifs with hblocks
    · simp [hblocks]
    · simp [hblocks]
  rw [if_neg hsize, if_neg hsize, sfs_truncfile.resize]
  by_cases hlt : (s.sin n).din.blocks < tblks
  · have hsum : (s.sin n).din.blocks + (tblks - (s.sin n).din.blocks) = tblks := by omega
    have hiff := enlarge_isSome (k := tblks - (s.sin n).din.blocks) h hn hdev hf ht
    rw [hsum] at hiff
    rw [if_pos hlt, ← hiff]
    rcases enlarge_cases h hn hdev (tblks - (s.sin n).din.blocks) with
      ⟨heq, -⟩ | ⟨s', heq, hg⟩ | ⟨ret, s', j, heq, -⟩
    · simp [heq]
    · have hblocks := hg.nblocks
      rw [hsum] at hblocks
      simp [heq, hblocks]
    · simp [heq]
  · have hcap : (s.sin n).din.blocks ≤ SFS_NDIRECT + SFS_BLK_NENTRY := by
      by_contra hlt
      exact hf (SFS_NDIRECT + SFS_BLK_NENTRY) (not_le.mp hlt) (slot_of_capacity le_rfl)
    rw [if_neg hlt]
    refine iff_of_true ?_ (.inl (by omega))
    rcases reduce_cases h hn (Nat.sub_le (s.sin n).din.blocks tblks) with
      ⟨s', heq, hr⟩ | ⟨ret, s', j, heq, -⟩
    · have hblocks := hr.nblocks
      have hcount : (s'.sin n).din.blocks = tblks := by omega
      simp [heq, hcount]
    · simp [heq]

/-- With a device that reports no errors, the operations on a regular file whose blocks are the
counted ones reach their end exactly if the blocks of the range can be mapped. -/
theorem size_limit (htype : (s.sin n).din.type ≠ SFS_TYPE_DIR) :
    (∀ write buf (off resid : BitVec 32) ino, (s.sfs_io write n buf off resid ino).isSome ↔
      (Legal off.toNat resid.toNat →
        off.toNat < endpos write (s.sin n).din.size off.toNat resid.toNat →
        Mappable n off.toNat (endpos write (s.sin n).din.size off.toNat resid.toNat) ino s)) ∧
    (∀ len : BitVec 32, (s.sfs_truncfile n len).isSome ↔
      (¬(len.toInt < 0 ∨ len.toNat > SFS_MAX_FILE_SIZE) → Resizable n len.toNat s)) ∧
    ∀ pos : BitVec 32, (s.sfs_tryseek n pos).isSome ↔
      (¬(pos.toInt < 0 ∨ pos.toNat ≥ SFS_MAX_FILE_SIZE) → (s.sin n).din.size < pos.toNat →
        Resizable n pos.toNat s) := by
  refine ⟨fun _ _ _ _ _ => sfs_io_isSome h hn hdev hf ht htype,
    fun _ => truncfile_isSome h hn hdev hf ht, fun pos => ?_⟩
  rw [sfs_tryseek]
  split_ifs with hbad hlt
  · simp [hbad]
  · have hrange : ¬(pos.toInt < 0 ∨ pos.toNat > SFS_MAX_FILE_SIZE) := by omega
    rw [truncfile_isSome h hn hdev hf ht, imp_iff_right hrange, imp_iff_right hbad,
      imp_iff_right hlt]
  · simp [hlt]

end

theorem emptyFile_tight : Tight {3} emptyFile 3 := by
  intro k _
  rw [slot_emptyFile]
  exact if_neg fun heq => (fileSlot_ne k).1 (Prod.ext_iff.mp heq).2

theorem emptyFile_filled : Filled {3} emptyFile 3 := fun _ hk => absurd hk (Nat.not_lt_zero _)

theorem emptyFile_reliable : emptyFile.Reliable := fun _ => rfl

/-- A byte is written one block behind the end of a file without blocks: the range is accepted, and
the assertion about the number of blocks fails. -/
theorem write_beyond_blocks : emptyFile.Consistent {3} ∧ emptyFile.Reliable ∧ Legal 4096 1 ∧
    emptyFile.sfs_io true 3 (fun _ => 0) 4096 1 0 = none :=
  ⟨emptyFile_consistent, emptyFile_reliable, ⟨by decide, by decide⟩, by decide +kernel⟩

theorem size_limit_emptyFile : (emptyFile.sfs_tryseek 3 0x5000).isSome :=
  ((size_limit emptyFile_consistent (by decide) emptyFile_reliable emptyFile_filled emptyFile_tight
    (by decide)).2.2 0x5000).mpr fun _ _ => .inl (by decide +kernel)

end ucore.sfs_fs
