import Mips32S.Kernel.Sfs.Reclaim

open ownership Relation Option Prod

namespace ucore.sfs_fs

variable {I I' : Finset ℕ} {s s' : sfs_fs} {ans : ℕ → ℤ}

/-- The device is asked anew. -/
def answered (ans : ℕ → ℤ) (s : sfs_fs) : sfs_fs := { s with answer := ans }

/-- A call of an operation on the inode `n`. -/
inductive Call
  | io (write : Bool) (n : ℕ) (buf : ℕ → BitVec 8) (offset resid : BitVec 32) (ino : ℕ)
  | truncate (n : ℕ) (len : BitVec 32)
  | seek (n : ℕ) (pos : BitVec 32)
  | load (n : ℕ)
  | sync (n : ℕ)
  | ref_dec (n : ℕ)
  | reclaim (n : ℕ)

namespace Call

/-- The call, with the answers `ans` of the device. -/
def exec (ans : ℕ → ℤ) (s : sfs_fs) : Call → Option sfs_fs
  | io write n buf offset resid ino =>
    ((s.answered ans).sfs_io write n buf offset resid ino).map fun r => r.2.2.2
  | truncate n len => ((s.answered ans).sfs_truncfile n len).map snd
  | seek n pos => ((s.answered ans).sfs_tryseek n pos).map snd
  | load n => ((s.answered ans).sfs_load_inode n).map snd
  | sync n => ((s.answered ans).sfs_fsync n).map snd
  | ref_dec n => (s.answered ans).inode_ref_dec n
  | reclaim n => ((s.answered ans).sfs_reclaim n).map snd

/-- The inode is in memory, or is one of the file system for `load`. Bytes are moved and blocks
appended only if the device reports no error, and a write finds its first block or can append it. -/
def Apt (I : Finset ℕ) (ans : ℕ → ℤ) (s : sfs_fs) : Call → Prop
  | io write n _ offset resid _ => n ∈ s.inode_list ∧ (Legal offset.toNat resid.toNat →
      offset.toNat < endpos write (s.sin n).din.size offset.toNat resid.toNat →
      (∀ i, ans i = 0) ∧ (write = true → s.Enough n (offset.toNat / SFS_BLKSIZE)))
  | truncate n len => n ∈ s.inode_list ∧
      ((s.sin n).din.blocks < ROUNDUP_DIV_2N len.toNat PGSHIFT → ∀ i, ans i = 0)
  | seek n pos => n ∈ s.inode_list ∧
      ((s.sin n).din.blocks < ROUNDUP_DIV_2N pos.toNat PGSHIFT → ∀ i, ans i = 0)
  | load n => n ∈ I
  | sync n => n ∈ s.inode_list
  | ref_dec n => n ∈ s.inode_list
  | reclaim n => n ∈ s.inode_list

end Call

theorem Mounted.answered (h : Mounted I s) (ans : ℕ → ℤ) : Mounted I (s.answered ans) :=
  ⟨{ h.consistent with }, h.unlinked⟩

theorem Follows.answered (h : Follows I (s.answered ans) s') : Follows I s s' := ⟨h.mounted, h.steps⟩

theorem Mounted.step {c : Call} (h : Mounted I s) (hapt : c.Apt I ans s)
    (hexec : c.exec ans s = some s') : Follows I s s' := by
  have h' := h.answered ans
  suffices hf : Follows I (s.answered ans) s' from hf.answered
  cases c with
  | io write n buf offset resid ino =>
    obtain ⟨⟨ret, alen, buf', s1⟩, heq, rfl⟩ := map_eq_some_iff.mp hexec
    exact (io_safe h'.consistent hapt.1 hapt.2 heq).follows h'
  | truncate n len =>
    obtain ⟨⟨r, s1⟩, heq, rfl⟩ := map_eq_some_iff.mp hexec
    exact (truncfile_safe h'.consistent hapt.1 hapt.2 heq).1.follows h'
  | seek n pos =>
    obtain ⟨⟨r, s1⟩, heq, rfl⟩ := map_eq_some_iff.mp hexec
    exact (tryseek_safe h'.consistent hapt.1 hapt.2 heq).follows h'
  | load n =>
    obtain ⟨⟨r, s1⟩, heq, rfl⟩ := map_eq_some_iff.mp hexec
    exact load_follows h' hapt heq
  | sync n =>
    obtain ⟨⟨r, s1⟩, heq, rfl⟩ := map_eq_some_iff.mp hexec
    exact (fsync_safe h'.consistent hapt heq).1.follows h'
  | ref_dec n => exact ref_dec_follows h' hapt hexec
  | reclaim n =>
    obtain ⟨⟨r, s1⟩, heq, rfl⟩ := map_eq_some_iff.mp hexec
    exact reclaim_follows h' hapt heq

/-- One call, with the inodes of the file system before and after it. -/
def CallStep (p p' : Finset ℕ × sfs_fs) : Prop :=
  ∃ (c : Call) (ans : ℕ → ℤ), c.Apt p.1 ans p.2 ∧ c.exec ans p.2 = some p'.2 ∧
    p'.1 = survivors p.1 p.2 p'.2

theorem Mounted.run {p p' : Finset ℕ × sfs_fs} (h : Mounted p.1 p.2)
    (hrun : ReflTransGen CallStep p p') :
    Mounted p'.1 p'.2 ∧ (p.2.store p.1).Steps (p'.2.store p'.1) := by
  induction hrun with
  | refl => exact ⟨h, .refl⟩
  | @tail p1 p2 _ hstep ih =>
    obtain ⟨c, ans, hapt, hexec, hI⟩ := hstep
    obtain ⟨hmounted, hsteps⟩ := ih
    have hf := hmounted.step hapt hexec
    rw [hI]
    exact ⟨hf.mounted, hsteps.trans hf.steps⟩

/-- After every run the number of unused blocks is that of the free ones, the blocks in the slots are
not free and are in one slot each, and a block that was free and no longer is is in a slot. -/
theorem Mounted.free_map (h : Mounted I s) (hrun : ReflTransGen CallStep (I, s) (I', s')) :
    s'.unused_blocks = s'.freemap.free.card ∧
    (∀ r, slot I' s' r ∉ s'.freemap.free) ∧
    (∀ r r', slot I' s' r = slot I' s' r' → slot I' s' r ≠ 0 → r = r') ∧
    ∀ b ∈ s.freemap.free, b ∉ s'.freemap.free → ∃ r, slot I' s' r = b := by
  obtain ⟨h', hsteps⟩ := h.run hrun
  refine ⟨h'.consistent.unused, h'.consistent.not_free, h'.consistent.store.once,
    fun b hb hnot => ?_⟩
  by_contra hnone
  have hlost : (s'.store I').Lost b :=
    ⟨fun hzero => h.consistent.store.zero (hzero ▸ hb), hnot, fun r heq => hnone ⟨r, heq⟩⟩
  exact (hsteps.lost hlost).2.1 hb

theorem emptyFile_mounted : Mounted {3} emptyFile :=
  ⟨emptyFile_consistent, fun _ _ hlinks => absurd hlinks Nat.one_ne_zero⟩

theorem free_map_emptyFile : ∃ s', (Call.truncate 3 1).exec (fun _ => 0) emptyFile = some s' ∧
    s'.unused_blocks = s'.freemap.free.card ∧
    ∀ b ∈ emptyFile.freemap.free, b ∉ s'.freemap.free →
      ∃ r, slot (survivors {3} emptyFile s') s' r = b := by
  have hsome : ((Call.truncate 3 1).exec (fun _ => 0) emptyFile).isSome := by decide +kernel
  obtain ⟨s', hexec⟩ := isSome_iff_exists.mp hsome
  have hstep : CallStep ({3}, emptyFile) (survivors {3} emptyFile s', s') :=
    ⟨.truncate 3 1, fun _ => 0, ⟨by decide, fun _ _ => rfl⟩, hexec, rfl⟩
  obtain ⟨hunused, -, -, hfree⟩ := emptyFile_mounted.free_map (.single hstep)
  exact ⟨s', hexec, hunused, hfree⟩

/-- The first free block is taken for a file of one byte, but cannot be cleared: it stays in use
although no slot holds it. -/
theorem emptyFile_leak : Mounted {3} emptyFile ∧ ∃ s',
    (Call.truncate 3 1).exec (fun _ => -1) emptyFile = some s' ∧ 4 ∈ emptyFile.freemap.free ∧
      4 ∉ s'.freemap.free ∧ ∀ r, slot {3} s' r ≠ 4 := by
  have hexec : (Call.truncate 3 1).exec (fun _ => -1) emptyFile = some { emptyFile with
      freemap := emptyFile.freemap.setWord 0 0xe0#32, unused_blocks := 3, super_dirty := true
      answer := fun _ => -1 } := rfl
  refine ⟨emptyFile_mounted, _, hexec, by decide, by decide, fun r => ?_⟩
  change slot {3} emptyFile r ≠ 4
  rw [slot_emptyFile]
  split_ifs <;> decide

end ucore.sfs_fs
