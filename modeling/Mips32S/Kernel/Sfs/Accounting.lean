import Mips32S.Kernel.Sfs.ByteArray
import Mips32S.Kernel.Sfs.Truncate

open layout ownership Relation

namespace ucore.sfs_fs

variable {I F : Finset ℕ} {s s' s'' : sfs_fs} {n m k hi last size len : ℕ}

/-- The blocks that a file of this size needs. -/
def blocksFor (size : ℕ) : ℕ := (size + SFS_BLKSIZE - 1) / SFS_BLKSIZE

theorem roundup_eq (size : ℕ) : ROUNDUP_DIV_2N size PGSHIFT = blocksFor size :=
  Nat.shiftRight_eq_div_pow ..

/-- The file has the blocks that its size needs, and they are there. -/
structure Accounted (I : Finset ℕ) (s : sfs_fs) (m : ℕ) : Prop where
  count : (s.dinode m).blocks = blocksFor (s.dinode m).size
  blocks : ∀ k < (s.dinode m).blocks, slot I s (m, fileSlot k) ≠ 0

theorem le_blocksFor (size : ℕ) : size ≤ blocksFor size * SFS_BLKSIZE := by
  have hsize : SFS_BLKSIZE = 4096 := rfl
  rw [blocksFor, hsize]
  omega

theorem Accounted.sound (h : Accounted I s n) : Sound I s n := ⟨h.blocks, h.count ▸ le_blocksFor _⟩

theorem Accounted.congr (h : Accounted I s m) (hdin : s'.dinode m = s.dinode m)
    (hslot : ∀ k, slot I s (m, fileSlot k) ≠ 0 →
      slot I s' (m, fileSlot k) = slot I s (m, fileSlot k)) : Accounted I s' m := by
  refine ⟨by rw [hdin, h.count], fun k hk => ?_⟩
  rw [hdin] at hk
  rw [hslot k (h.blocks k hk)]
  exact h.blocks k hk

/-- A file system on a device without errors, in which the blocks of the files of `F` are
accounted for. -/
structure Books (I F : Finset ℕ) (s : sfs_fs) : Prop where
  consistent : s.Consistent I
  reliable : s.Reliable
  subset : F ⊆ I
  accounted : ∀ m ∈ F, Accounted I s m

/-- A call on one of the files of `F`. -/
inductive Access (F : Finset ℕ)
  | io (op : Op F)
  | seek (n : F) (pos : BitVec 32)
  | truncate (n : F) (len : BitVec 32)

namespace Access

def exec : Access F → sfs_fs → Option sfs_fs
  | io op, s => (op.exec s).map Prod.snd
  | seek n pos, s => (s.sfs_tryseek n pos).map Prod.snd
  | truncate n len, s => (s.sfs_truncfile n len).map Prod.snd

def IsRead : Access F → Prop
  | io op => op.write = false
  | seek _ _ => False
  | truncate _ _ => False

/-- The bytes that are moved, if there are any, start in or right behind the blocks of the file, end
before the end of the last block that a file can have, and find enough free blocks; and if they end
with a block, the file goes on behind it. -/
structure IoApt (op : Op F) (s : sfs_fs) (hi : ℕ) : Prop where
  start : op.offset.toNat / SFS_BLKSIZE ≤ (s.dinode op.n).blocks
  stop : hi / SFS_BLKSIZE < SFS_NDIRECT + SFS_BLK_NENTRY
  enough : s.Enough op.n ((hi - 1) / SFS_BLKSIZE)
  aligned : hi % SFS_BLKSIZE = 0 → hi < (s.dinode op.n).size

/-- A file that gets this length has at most as many blocks as it can have, and there are enough
free ones. -/
structure LengthApt (n : F) (len : ℕ) (s : sfs_fs) : Prop where
  blocks : blocksFor len ≤ SFS_NDIRECT + SFS_BLK_NENTRY
  enough : (s.dinode n).blocks < blocksFor len → s.Enough n (blocksFor len - 1)

/-- The call keeps the blocks accounted for. -/
def Apt (s : sfs_fs) : Access F → Prop
  | io op => op.n.1 ∈ s.inode_list ∧ (s.dinode op.n).type = SFS_TYPE_FILE ∧
      ∀ hi, hi = endpos op.write (s.dinode op.n).size op.offset.toNat op.resid.toNat →
        Legal op.offset.toNat op.resid.toNat → op.offset.toNat < hi → IoApt op s hi
  | seek n pos => n.1 ∈ s.inode_list ∧ (pos.toNat < SFS_MAX_FILE_SIZE →
      (s.dinode n).size < pos.toNat → LengthApt n pos.toNat s)
  | truncate n len => n.1 ∈ s.inode_list ∧ (len.toNat ≤ SFS_MAX_FILE_SIZE →
      (s.dinode n).size ≠ len.toNat → LengthApt n len.toNat s)

end Access

section
variable (h : Books I F s)
include h

theorem Books.update (hcons : s'.Consistent I) (hrel : s'.Reliable) (hself : Accounted I s' n)
    (hdin : ∀ m ∈ I, m ≠ n → s'.dinode m = s.dinode m)
    (hslot : ∀ m ≠ n, ∀ k, slot I s (m, fileSlot k) ≠ 0 →
      slot I s' (m, fileSlot k) = slot I s (m, fileSlot k)) :
    Books I F s' := by
  refine ⟨hcons, hrel, h.subset, fun m hm => ?_⟩
  by_cases hmn : m = n
  · rwa [hmn]
  · exact (h.accounted m hm).congr (hdin m (h.subset hm) hmn) (hslot m hmn)

theorem Books.io {op : Op F} (hapt : (Access.io op).Apt s) :
    ∃ s', (Access.io op).exec s = some s' ∧ Books I F s' ∧ (op.write = false → Shifted s s') := by
  obtain ⟨hn, hfile, hrange⟩ := hapt
  have hdin := dinode_of_loaded hn
  have hacc := h.accounted op.n op.n.2
  have hsame : Shifted s s := ⟨0, rfl⟩
  have htype : (s.sin op.n).din.type ≠ SFS_TYPE_DIR := by
    rw [← hdin, hfile]
    decide
  by_cases hlegal : Legal op.offset.toNat op.resid.toNat
  swap
  · exact ⟨s, by simp [Access.exec, Op.exec, sfs_io_error htype hlegal], h, fun _ => hsame⟩
  by_cases hlt : op.offset.toNat < endpos op.write (s.sin op.n).din.size op.offset.toNat op.resid.toNat
  swap
  · exact ⟨s, by simp [Access.exec, Op.exec, sfs_io_empty htype hlegal hlt], h, fun _ => hsame⟩
  set hi := endpos op.write (s.sin op.n).din.size op.offset.toNat op.resid.toNat with hhi
  have ha := hrange hi (by rw [hhi, hdin]) hlegal hlt
  have hblk : SFS_BLKSIZE = 4096 := rfl
  have hcount := hacc.count
  rw [blocksFor] at hcount
  rcases transfer_cases h.consistent hn h.reliable ha.enough op.write ⟨op.ino, op.buf, 0⟩
    hlt with ⟨-, hwhy⟩ | ⟨x', s', heq, hm⟩ | ⟨hzero, hfew, -⟩
  · exact absurd ⟨fun k hk => hacc.blocks k (by rwa [hdin]), by rw [← hdin]; exact ha.start, ha.stop⟩
      hwhy
  · have hsound := hm.sound hn hacc.sound (by rw [hblk]; omega)
    refine ⟨s'.grow op.n hi, ?_, h.update (hm.consistent.grow _ _).1
      (grow_reliable (hm.frame.reliable h.reliable)) ⟨?_, hsound.blocks⟩
      (fun m hI hmn => hm.dinode_other hmn hI) fun m _ k hk => ?_, fun hr => ?_⟩
    · simp [Access.exec, Op.exec, sfs_io_transfer htype hlegal hhi hlt heq hm.alen]
    · have haligned := ha.aligned
      rw [hm.dinode_blocks hn, hm.dinode_size hn, blocksFor, hcount]
      rw [hblk] at haligned ⊢
      omega
    · rw [(hm.consistent.grow _ _).2.1, hm.frame.slot _ hk]
    · rw [hr, endpos, if_neg (by simp)] at hhi
      have hle : hi ≤ (s'.sin op.n).din.size := by
        rw [hm.frame.size]
        omega
      rw [grow, if_neg (not_lt.mpr hle)]
      refine hm.shifted hr ?_
      have haligned := ha.aligned
      rw [hdin] at hcount haligned
      rw [hcount]
      rw [hblk] at haligned ⊢
      omega
  · exact absurd (hacc.sound.enough hn (ha.aligned hzero)) hfew

omit h in
theorem setSize_dinode_self (hn : n ∈ s.inode_list) :
    (s.setSize n size).dinode n = { s.dinode n with size } := by
  have hn' : n ∈ (s.setSize n size).inode_list := hn
  rw [dinode_of_loaded hn', dinode_of_loaded hn, setSize_sin_self]

theorem Books.resized (hn : n ∈ s.inode_list) (hcons : s'.Consistent I) (hp : Preserves I n s s')
    (hblocks : (s'.sin n).din.blocks = blocksFor len)
    (hself : ∀ k < blocksFor len, slot I s' (n, fileSlot k) ≠ 0)
    (hslot : ∀ m ≠ n, ∀ k, slot I s (m, fileSlot k) ≠ 0 →
      slot I s' (m, fileSlot k) = slot I s (m, fileSlot k)) :
    Books I F (s'.setSize n len) := by
  have hn' : n ∈ s'.inode_list := hp.list ▸ hn
  obtain ⟨hcons', hslot'⟩ := hcons.setSize n len
  refine h.update hcons' (hp.reliable h.reliable) ⟨?_, fun k hk => ?_⟩
    (fun m hI hm => (setSize_dinode_other hm).trans (hp.dinode_other hm hI)) fun m hm k hk => ?_
  · rw [setSize_dinode_self hn', dinode_of_loaded hn', hblocks]
  · rw [setSize_dinode_self hn', dinode_of_loaded hn', hblocks] at hk
    rw [hslot']
    exact hself k hk
  · rw [hslot', hslot m hm k hk]

theorem Books.resize {n : F} (hn : n.1 ∈ s.inode_list) (hapt : Access.LengthApt n len s) :
    ∃ s', sfs_truncfile.resize n (s.sin n).din.blocks (blocksFor len) s = some (.ok (), s') ∧
      (s'.sin n).din.blocks = blocksFor len ∧ Books I F (s'.setSize n len) := by
  have hdin := dinode_of_loaded hn
  have hacc := h.accounted n n.2
  have hmax := hapt.blocks
  by_cases hlt : (s.sin n).din.blocks < blocksFor len
  · have hsum : (s.sin n).din.blocks + (blocksFor len - (s.sin n).din.blocks) = blocksFor len := by
      omega
    rw [sfs_truncfile.resize, if_pos hlt]
    rcases enlarge_cases h.consistent hn h.reliable (blocksFor len - (s.sin n).din.blocks) with
      ⟨-, hmany⟩ | ⟨s', heq, hg⟩ | ⟨ret, s', j, -, -, hfew⟩
    · omega
    · have hblocks := hg.nblocks
      rw [hsum] at hblocks
      refine ⟨s', heq, hblocks, h.resized hn hg.consistent hg.keeps.toPreserves hblocks
        (fun k hk => ?_) fun m _ k hk => hg.keeps.slot _ hk⟩
      exact hg.filled (fun k hk => hacc.blocks k (by rwa [hdin])) k (by rwa [hblocks])
    · rw [hsum] at hfew
      exact absurd (hapt.enough (by rwa [hdin])) hfew
  · rw [sfs_truncfile.resize, if_neg hlt]
    rcases reduce_cases h.consistent hn
      (Nat.sub_le (s.sin n).din.blocks (blocksFor len)) with
      ⟨s', heq, hr⟩ | ⟨ret, s', j, -, -, hdev⟩
    · have hblocks : (s'.sin n).din.blocks = blocksFor len := by
        have hcount := hr.nblocks
        omega
      refine ⟨s', heq, hblocks, h.resized hn hr.consistent hr.preserves hblocks (fun k hk => ?_)
        fun m hm k _ => hr.kept _ fun j _ _ heq => hm (Prod.ext_iff.mp heq).1⟩
      rw [hr.kept _ fun j hle _ heq => ?_]
      · exact hacc.blocks k (by rw [hdin]; omega)
      · have hsame := fileSlot_inj (Prod.ext_iff.mp heq).2
        omega
    · exact absurd h.reliable hdev

omit h in
theorem Books.truncfile {n : F} (len : BitVec 32) (h : Books I F s) (hn : n.1 ∈ s.inode_list)
    (hapt : len.toNat ≤ SFS_MAX_FILE_SIZE → (s.dinode n).size ≠ len.toNat →
      Access.LengthApt n len.toNat s) :
    ∃ r s', s.sfs_truncfile n len = some (r, s') ∧ Books I F s' := by
  have hdin := dinode_of_loaded hn
  rw [sfs_truncfile]
  simp only [roundup_eq]
  by_cases hbad : len.toInt < 0 ∨ len.toNat > SFS_MAX_FILE_SIZE
  · exact ⟨_, s, if_pos hbad, h⟩
  rw [if_neg hbad]
  by_cases hsize : (s.sin n).din.size = len.toNat
  · have hcount : blocksFor len.toNat = (s.sin n).din.blocks := by
      rw [← hdin, (h.accounted n n.2).count, hdin, hsize]
    exact ⟨_, s, by rw [if_pos hsize, if_pos hcount], h⟩
  · obtain ⟨s', heq, hblocks, hbooks⟩ := h.resize hn (hapt (by omega) (by rwa [hdin]))
    refine ⟨.ok (), s'.setSize n len.toNat, ?_, hbooks⟩
    rw [if_neg hsize, heq]
    simp [hblocks, setSize]

theorem Books.step {a : Access F} (hapt : a.Apt s) :
    ∃ s', a.exec s = some s' ∧ Books I F s' ∧ (a.IsRead → Shifted s s') := by
  cases a with
  | io op => exact h.io hapt
  | seek n pos =>
    obtain ⟨hn, hlength⟩ := hapt
    have hdin := dinode_of_loaded hn
    rw [hdin] at hlength
    by_cases hbad : pos.toInt < 0 ∨ pos.toNat ≥ SFS_MAX_FILE_SIZE
    · exact ⟨s, by simp [Access.exec, sfs_tryseek, hbad], h, False.elim⟩
    by_cases hlt : (s.sin n).din.size < pos.toNat
    · obtain ⟨r, s', heq, hbooks⟩ := h.truncfile pos hn fun _ _ => hlength (by omega) hlt
      exact ⟨s', by simp [Access.exec, sfs_tryseek, hbad, hlt, heq], hbooks, False.elim⟩
    · exact ⟨s, by simp [Access.exec, sfs_tryseek, hbad, hlt], h, False.elim⟩
  | truncate n len =>
    obtain ⟨hn, hlength⟩ := hapt
    obtain ⟨r, s', heq, hbooks⟩ := h.truncfile len hn hlength
    exact ⟨s', by simp [Access.exec, heq], hbooks, False.elim⟩

end

/-- Apt calls one after the other. -/
def Run (F : Finset ℕ) : sfs_fs → sfs_fs → Prop :=
  ReflTransGen fun s s' => ∃ a : Access F, a.Apt s ∧ a.exec s = some s'

theorem Books.run (h : Books I F s) (hrun : Run F s s') : Books I F s' := by
  induction hrun with
  | refl => exact h
  | tail _ hstep ih =>
    obtain ⟨a, hapt, hexec⟩ := hstep
    obtain ⟨s1, heq, hbooks, -⟩ := ih.step hapt
    rw [hexec] at heq
    exact Option.some.inj heq ▸ hbooks

/-- After every apt call the number of blocks of a file is its size over the size of a block, rounded
up, and a read has changed nothing. -/
theorem Books.accounting (h : Books I F s) (hrun : Run F s s') {a : Access F} (hapt : a.Apt s') :
    ∃ s'', a.exec s' = some s'' ∧
      (∀ m ∈ F, (s''.dinode m).blocks = ((s''.dinode m).size + SFS_BLKSIZE - 1) / SFS_BLKSIZE) ∧
      (a.IsRead → Shifted s' s'') := by
  obtain ⟨s'', heq, hbooks, hread⟩ := (h.run hrun).step hapt
  exact ⟨s'', heq, fun m hm => (hbooks.accounted m hm).count, hread⟩

theorem emptyFile_books : Books {3} {3} emptyFile := by
  refine ⟨emptyFile_consistent, fun _ => rfl, Finset.Subset.refl _, fun m hm => ?_⟩
  rw [Finset.mem_singleton.mp hm]
  exact ⟨rfl, fun k hk => absurd hk (Nat.not_lt_zero k)⟩

/-- The file ends in its second block. -/
theorem accounting_writeAcross : ∃ s', (Access.io writeAcross).exec emptyFile = some s' ∧
    (∀ m ∈ ({3} : Finset ℕ),
      (s'.dinode m).blocks = ((s'.dinode m).size + SFS_BLKSIZE - 1) / SFS_BLKSIZE) ∧
    ((Access.io writeAcross).IsRead → Shifted emptyFile s') := by
  refine emptyFile_books.accounting .refl ⟨by decide, rfl, fun hi hhi _ _ => ?_⟩
  have hend : hi = 0x1002 := hhi
  rw [hend]
  exact ⟨by decide, by decide, by decide, fun h => absurd h (by decide)⟩

/-- A whole block is written. -/
def writeBlock : Op {3} := { writeFull with resid := 4096 }

/-- A whole block is read. -/
def readBlock : Op {3} := { readAcross with offset := 0, resid := 4096 }

/-- A write that ends with a block leaves one block too many, and a read of a file that ends with a
block appends one and takes it from the free blocks. -/
theorem aligned_end : Books {3} {3} emptyFile ∧
    ((Access.io writeBlock).exec emptyFile).map (fun s => ((s.dinode 3).size, (s.dinode 3).blocks)) =
      some (4096, 2) ∧
    ((Access.truncate readBlock.n 4096).exec emptyFile).map
      (fun s => ((s.dinode 3).size, (s.dinode 3).blocks, s.unused_blocks)) = some (4096, 1, 3) ∧
    (((Access.truncate readBlock.n 4096).exec emptyFile).bind (Access.io readBlock).exec).map
      (fun s => ((s.dinode 3).size, (s.dinode 3).blocks, s.unused_blocks)) = some (4096, 2, 2) := by
  refine ⟨emptyFile_books, ?_, ?_, ?_⟩
  · decide +kernel
  · decide +kernel
  · decide +kernel

end ucore.sfs_fs
