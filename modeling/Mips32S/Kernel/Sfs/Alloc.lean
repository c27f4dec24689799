import Mips32S.Kernel.Sfs.Invariant

open layout ownership Function

namespace ucore.sfs_fs

variable {I : Finset ℕ} {s s' s'' : sfs_fs} {n m b c k : ℕ} {x : ℕ → BitVec 8}

/-- The device answers without errors. -/
def Reliable (s : sfs_fs) : Prop := ∀ i, s.answer i = 0

/-- Some answers of the device have been used. -/
def Shifted (s s' : sfs_fs) : Prop := ∃ i, s' = { s with answer := fun j => s.answer (j + i) }

section

theorem Reliable.shifted (h : s.Reliable) (hs : Shifted s s') : s'.Reliable := by
  obtain ⟨i, rfl⟩ := hs
  exact fun j => h (j + i)

theorem Shifted.trans (h : Shifted s s') (h' : Shifted s' s'') : Shifted s s'' := by
  obtain ⟨i, rfl⟩ := h
  obtain ⟨j, rfl⟩ := h'
  exact ⟨j + i, by simp only [Nat.add_assoc]⟩

theorem shifted_dop_answer (s : sfs_fs) : Shifted s s.dop_answer.2 := ⟨1, rfl⟩

variable {buf : ℕ → BitVec 8} {d len offset : ℕ}

theorem rblock_nolock_cases (hc : c ≠ 0) (hlt : c < s.blocks) : ∃ s', Shifted s s' ∧
    (s.sfs_rblock_nolock c = some (.ok (s.disk c), s') ∨
      ∃ ret ≠ 0, s.sfs_rblock_nolock c = some (.error ret, s') ∧ ¬s.Reliable) := by
  refine ⟨s.dop_answer.2, shifted_dop_answer s, ?_⟩
  by_cases hret : s.answer 0 = 0
  · refine .inl ?_
    simp [sfs_rblock_nolock, dop_answer, hc, hlt, hret]
  · refine .inr ⟨s.answer 0, hret, ?_, fun hdev => hret (hdev 0)⟩
    simp [sfs_rblock_nolock, dop_answer, hc, hlt, hret]

theorem wblock_nolock_cases (hc : c ≠ 0) (hlt : c < s.blocks) : ∃ s', Shifted s s' ∧
    (s.sfs_wblock_nolock x c = some (.ok (), { s' with disk := update s.disk c x }) ∨
      ∃ ret ≠ 0, s.sfs_wblock_nolock x c = some (.error ret, s') ∧ ¬s.Reliable) := by
  refine ⟨s.dop_answer.2, shifted_dop_answer s, ?_⟩
  by_cases hret : s.answer 0 = 0
  · refine .inl ?_
    simp [sfs_wblock_nolock, dop_answer, hc, hlt, hret]
  · refine .inr ⟨s.answer 0, hret, ?_, fun hdev => hret (hdev 0)⟩
    simp [sfs_wblock_nolock, dop_answer, hc, hlt, hret]

theorem rbuf_cases (buf : ℕ → BitVec 8) (d : ℕ) (hc : c ≠ 0) (hlt : c < s.blocks)
    (hoff : offset < SFS_BLKSIZE) (hlen : offset + len ≤ SFS_BLKSIZE) : ∃ s', Shifted s s' ∧
    (s.sfs_rbuf buf d len c offset = some (0, copy buf d (s.disk c) offset len, s') ∨
      ∃ ret ≠ 0, s.sfs_rbuf buf d len c offset = some (ret, buf, s') ∧ ¬s.Reliable) := by
  obtain ⟨s', hs', hr | ⟨ret, hret, hr, hdev⟩⟩ := rblock_nolock_cases hc hlt
  · refine ⟨s', hs', .inl ?_⟩
    simp [sfs_rbuf, hoff, hlen, hr]
  · refine ⟨s', hs', .inr ⟨ret, hret, ?_, hdev⟩⟩
    simp [sfs_rbuf, hoff, hlen, hr]

theorem wbuf_cases (buf : ℕ → BitVec 8) (d : ℕ) (hc : c ≠ 0) (hlt : c < s.blocks)
    (hoff : offset < SFS_BLKSIZE) (hlen : offset + len ≤ SFS_BLKSIZE) : ∃ s', Shifted s s' ∧
    (s.sfs_wbuf buf d len c offset = some (.ok (), { s' with
        disk := update s.disk c (copy (s.disk c) offset buf d len) }) ∨
      ∃ ret ≠ 0, s.sfs_wbuf buf d len c offset = some (.error ret, s') ∧ ¬s.Reliable) := by
  obtain ⟨s1, hs1, hr | ⟨ret, hret, hr, hdev⟩⟩ := rblock_nolock_cases hc hlt
  · have hlt1 : c < s1.blocks := by
      obtain ⟨i, rfl⟩ := hs1
      exact hlt
    obtain ⟨s2, hs2, hw | ⟨ret, hret, hw, hdev⟩⟩ := wblock_nolock_cases
      (x := copy (s.disk c) offset buf d len) hc hlt1
    · refine ⟨s2, hs1.trans hs2, .inl ?_⟩
      have hdisk : s1.disk = s.disk := by
        obtain ⟨i, rfl⟩ := hs1
        rfl
      simp [sfs_wbuf, hoff, hlen, hr, hw, hdisk]
    · refine ⟨s2, hs1.trans hs2, .inr ⟨ret, hret, ?_, fun hdev' => hdev (hdev'.shifted hs1)⟩⟩
      simp [sfs_wbuf, hoff, hlen, hr, hw]
  · refine ⟨s1, hs1, .inr ⟨ret, hret, ?_, hdev⟩⟩
    simp [sfs_wbuf, hoff, hlen, hr]

theorem Reliable.rbuf (hdev : s.Reliable) (buf : ℕ → BitVec 8) (d : ℕ) (hc : c ≠ 0)
    (hlt : c < s.blocks) (hoff : offset < SFS_BLKSIZE) (hlen : offset + len ≤ SFS_BLKSIZE) :
    ∃ s', Shifted s s' ∧
      s.sfs_rbuf buf d len c offset = some (0, copy buf d (s.disk c) offset len, s') := by
  obtain ⟨s', hs', heq | ⟨-, -, -, hnot⟩⟩ := rbuf_cases buf d hc hlt hoff hlen
  · exact ⟨s', hs', heq⟩
  · exact absurd hdev hnot

theorem Reliable.wbuf (hdev : s.Reliable) (buf : ℕ → BitVec 8) (d : ℕ) (hc : c ≠ 0)
    (hlt : c < s.blocks) (hoff : offset < SFS_BLKSIZE) (hlen : offset + len ≤ SFS_BLKSIZE) :
    ∃ s', Shifted s s' ∧
      s.sfs_wbuf buf d len c offset = some (.ok (), { s' with
        disk := update s.disk c (copy (s.disk c) offset buf d len) }) := by
  obtain ⟨s', hs', heq | ⟨-, -, -, hnot⟩⟩ := wbuf_cases buf d hc hlt hoff hlen
  · exact ⟨s', hs', heq⟩
  · exact absurd hdev hnot

variable (hs : Shifted s s')
include hs

theorem Shifted.consistent (h : s.Consistent I) : s'.Consistent I := by
  obtain ⟨i, rfl⟩ := hs
  exact { h with }

theorem Shifted.blocks : s'.blocks = s.blocks := by
  obtain ⟨i, rfl⟩ := hs
  rfl

theorem Shifted.list : s'.inode_list = s.inode_list := by
  obtain ⟨i, rfl⟩ := hs
  rfl

theorem Shifted.sin : s'.sin = s.sin := by
  obtain ⟨i, rfl⟩ := hs
  rfl

theorem Shifted.unused : s'.unused_blocks = s.unused_blocks := by
  obtain ⟨i, rfl⟩ := hs
  rfl

theorem Shifted.store : s'.store I = s.store I := by
  obtain ⟨i, rfl⟩ := hs
  rfl

theorem Shifted.freemap : s'.freemap = s.freemap := by
  obtain ⟨i, rfl⟩ := hs
  rfl

theorem Shifted.slot : slot I s' = slot I s := by
  obtain ⟨i, rfl⟩ := hs
  rfl

end

theorem Mapped.block_inuse (h : s.Mapped I) (hc : c ≠ 0) (hlt : c < s.blocks) :
    s.sfs_block_inuse c = some (decide (c ∉ s.freemap.free)) := by
  rw [sfs_block_inuse, if_pos ⟨hc, hlt⟩, bitmap.test_eq (lt_of_lt_of_le hlt h.nbits)]
  simp

/-- What the allocation of the block `b` does. -/
structure Alloc (I : Finset ℕ) (b : ℕ) (s s' : sfs_fs) : Prop where
  fresh : b ∈ s.freemap.free
  consistent : s'.Consistent I
  slot : slot I s' = slot I s
  lost : (s'.store I).Lost b
  free : s'.freemap.free = s.freemap.free.erase b
  unused : s'.unused_blocks + 1 = s.unused_blocks
  blocks : s'.blocks = s.blocks
  list : s'.inode_list = s.inode_list
  sin : s'.sin = s.sin
  disk : s'.disk = update s.disk b fun _ => 0
  reliable : s'.Reliable

theorem Consistent.alloc_spec (h : s.Consistent I) (hdev : s.Reliable) :
    s.sfs_block_alloc = some (.error (-E_NO_MEM), s) ∧ s.unused_blocks = 0 ∨
    ∃ b s', s.sfs_block_alloc = some (.ok b, s') ∧ Alloc I b s s' := by
  rcases h.ok.alloc_spec with ⟨heq, hfree⟩ | ⟨b, fm, heq, hb, hok, hnbits, hfree⟩
  · refine .inl ⟨?_, by rw [h.unused, hfree, Finset.card_empty]⟩
    simp [sfs_block_alloc, heq]
  · have hb0 : b ≠ 0 := fun hzero => h.store.zero (hzero ▸ hb)
    have hlt := h.free_lt b hb
    have hcard := Finset.card_erase_add_one hb
    have hunused := h.unused
    set s1 : sfs_fs := { s with
      freemap := fm, unused_blocks := s.unused_blocks - 1, super_dirty := true }
    have hinuse : s1.sfs_block_inuse b = some true := by
      have htest := bitmap.test_eq (by rw [hnbits]; exact lt_of_lt_of_le hlt h.nbits)
      rw [hfree] at htest
      simp [sfs_block_inuse, s1, hb0, hlt, htest]
    set s2 : sfs_fs := { s1 with
      disk := update s.disk b fun _ => 0, answer := fun i => s.answer (i + 1) } with hs2
    obtain ⟨hcons, hslot, hlost⟩ := h.take hb hok hnbits hfree hs2
    refine .inr ⟨b, s2, ?_, hb, hcons, hslot, hlost, hfree, ?_, rfl, rfl, rfl, rfl, fun i =>
      hdev (i + 1)⟩
    · have hpos : s.unused_blocks > 0 := by omega
      have hclear : s1.sfs_clear_block b = some (.ok (), { s1 with
          disk := update s.disk b fun _ => 0, answer := fun i => s.answer (i + 1) }) := by
        have hret : s.answer 0 = 0 := hdev 0
        simp [sfs_clear_block, sfs_wblock_nolock, dop_answer, s1, hb0, hlt, hret]
      simp only [sfs_block_alloc, heq, Option.bind_eq_bind, Option.bind_some, guard, if_pos hpos,
        Option.pure_def]
      change (s1.sfs_block_inuse b).bind _ = _
      simp only [hinuse, Option.bind_some, if_true]
      rw [hclear]
      rfl
    · dsimp only [s2, s1]
      omega

/-- A block in use is freed; nothing is said about who refers to it. -/
theorem Mapped.block_free_eq (h : s.Mapped I) (hc : c ≠ 0) (hlt : c < s.blocks)
    (hused : c ∉ s.freemap.free) :
    ∃ fm, s.sfs_block_free c = some { s with
        freemap := fm, unused_blocks := s.unused_blocks + 1, super_dirty := true } ∧
      fm.Ok ∧ fm.nbits = s.freemap.nbits ∧ fm.free = insert c s.freemap.free := by
  obtain ⟨fm, heq, hok, hnbits, hfree⟩ := h.ok.free_spec (lt_of_lt_of_le hlt h.nbits) hused
  refine ⟨fm, ?_, hok, hnbits, hfree⟩
  simp [sfs_block_free, h.block_inuse hc hlt, hused, heq]

/-- What freeing the block `b`, to which nobody refers, does. -/
structure Freed (I : Finset ℕ) (b : ℕ) (s s' : sfs_fs) : Prop where
  consistent : s'.Consistent I
  slot : slot I s' = slot I s
  free : s'.freemap.free = insert b s.freemap.free
  unused : s'.unused_blocks = s.unused_blocks + 1
  blocks : s'.blocks = s.blocks
  list : s'.inode_list = s.inode_list
  sin : s'.sin = s.sin
  disk : s'.disk = s.disk
  answer : s'.answer = s.answer

theorem Consistent.free_spec (h : s.Consistent I) (hb : (s.store I).Lost b) (hlt : b < s.blocks) :
    ∃ s', s.sfs_block_free b = some s' ∧ Freed I b s s' := by
  obtain ⟨fm, heq, hok, hnbits, hfree⟩ := h.block_free_eq hb.1 hlt hb.2.1
  obtain ⟨hcons, hslot⟩ := h.give hb hlt hok hnbits hfree rfl
  exact ⟨_, heq, hcons, hslot, hfree, rfl, rfl, rfl, rfl, rfl, rfl⟩

end ucore.sfs_fs
