import Mips32S.Kernel.Sfs.Transfer

open layout ownership Function

namespace ucore.sfs_fs

variable {I : Finset ℕ} {s s' s'' : sfs_fs} {n m b k index : ℕ}

/-- The block number `index` of the file `n` has been freed. -/
structure Unmapped (I : Finset ℕ) (n index : ℕ) (s s' : sfs_fs) : Prop where
  consistent : s'.Consistent I
  steps : (s.store I).Steps (s'.store I)
  preserves : Preserves I n s s'
  slot : slot I s' = update (slot I s) (n, fileSlot index) 0
  nblocks : (s'.sin n).din.blocks = (s.sin n).din.blocks

theorem steps_drop {r : ℕ × Slot} (hr : slot I s r ≠ 0) (hslot : slot I s' = update (slot I s) r 0)
    (hfree : s'.freemap.free = insert (slot I s r) s.freemap.free) :
    (s.store I).Step (s'.store I) := by
  have heq : s'.store I = (s.store I).drop r := by
    rw [store, hslot, hfree]
    rfl
  rw [heq]
  exact .drop hr

theorem Shifted.unmapped (hs' : Shifted s s') (h : s.Consistent I)
    (hslot : sfs_fs.slot I s (n, fileSlot index) = 0) : Unmapped I n index s s' := by
  refine ⟨hs'.consistent h, hs'.store ▸ .refl, hs'.keeps.toPreserves, ?_, by rw [hs'.sin]⟩
  rw [hs'.slot, ← hslot, update_eq_self]

section
variable (h : s.Consistent I) (hn : n ∈ s.inode_list)
include h hn

theorem free_direct (hindex : index < SFS_NDIRECT) :
    ∃ s', s.sfs_bmap_free_nolock n index = some (.ok (), s') ∧ Unmapped I n index s s' := by
  have hI := h.loaded n hn
  have hfile := fileSlot_direct hindex
  have hold : slot I s (n, fileSlot index) = (s.sin n).din.direct index := by
    rw [hfile, slot_direct hI hindex, dinode_of_loaded hn]
  by_cases hzero : (s.sin n).din.direct index = 0
  · refine ⟨s, ?_, Shifted.unmapped ⟨0, rfl⟩ h (hold.trans hzero)⟩
    simp [sfs_bmap_free_nolock, hindex, hzero]
  · have hne : slot I s (n, fileSlot index) ≠ 0 := by rwa [hold]
    have hlt : (s.sin n).din.direct index < s.blocks := hold ▸ h.slot_lt _
    obtain ⟨fm, heq, hok, hnbits, hfree⟩ := h.block_free_eq hzero hlt (hold ▸ h.not_free _)
    have hcons := h.set_direct hn hindex (.inl rfl)
    have hset := slot_set_direct (b := 0) hn hI hindex
    set s1 := (s.modifyDin n fun d =>
      { d with direct := update d.direct index 0 }).setDirty n true with hs1
    -- The source frees the block first; the state is the same if the slot is emptied first.
    have hlost : (s1.store I).Lost ((s.sin n).din.direct index) := by
      rw [store, hset, ← hold, ← hfile]
      exact h.store.set_zero_lost hne
    obtain ⟨hcons', hslot'⟩ := hcons.give hlost hlt hok hnbits hfree rfl
    have hslot : slot I { s1 with
        freemap := fm, unused_blocks := s1.unused_blocks + 1, super_dirty := true } =
        update (slot I s) (n, fileSlot index) 0 := by rw [hslot', hset, hfile]
    have hself : s1.sin n = { s.sin n with dirty := true, din := { (s.sin n).din with
        direct := update (s.sin n).din.direct index 0 } } := by
      simp [hs1, setDirty, modifyDin, modifySin]
    refine ⟨_, ?_, hcons', .single (steps_drop hne hslot (by rwa [hold])),
      ⟨rfl, rfl, fun m hm => ?_, ?_, ?_, ?_, ?_, ?_, id, fun _ _ => rfl⟩, hslot, ?_⟩
    · simp [sfs_bmap_free_nolock, hindex, hzero, heq]
      rfl
    · simp [hs1, setDirty, modifyDin, modifySin, hm]
    all_goals
      rw [hself]

theorem free_entry (hind : (s.sin n).din.indirect ≠ 0) (hindex : ¬index < SFS_NDIRECT)
    (hk : index - SFS_NDIRECT < SFS_BLK_NENTRY) :
    (∃ s', s.sfs_bmap_free_nolock n index = some (.ok (), s') ∧ Unmapped I n index s s') ∨
    ∃ ret s', s.sfs_bmap_free_nolock n index = some (.error ret, s') ∧ Shifted s s' ∧
      ¬s.Reliable := by
  have hI := h.loaded n hn
  have hfile := fileSlot_entry hindex
  set ent := (s.sin n).din.indirect with hent
  set k := index - SFS_NDIRECT with hk'
  have hold_ind : slot I s (n, .indirect) = ent := by rw [slot_indirect hI, dinode_of_loaded hn]
  have hold : slot I s (n, fileSlot index) = s.entry ent k := by
    rw [hfile, slot_entry hI hk (by rwa [dinode_of_loaded hn]), dinode_of_loaded hn]
  have hlt : ent < s.blocks := hold_ind ▸ h.slot_lt _
  have hinuse : s.sfs_block_inuse ent = some true := by
    rw [h.block_inuse hind hlt]
    simp [← hold_ind, h.not_free]
  obtain ⟨hoff, hlen⟩ := entry_bounds hk
  have hfree : s.sfs_bmap_free_nolock n index = s.sfs_bmap_free_sub_nolock ent k := by
    simp [sfs_bmap_free_nolock, hindex, hk, ← hent, hind, ← hk']
  rw [hfree]
  obtain ⟨s1, hs1, hread | ⟨ret, hret, hread, hdev⟩⟩ := rbuf_cases (fun _ => 0) 0 hind hlt hoff hlen
  swap
  · refine .inr ⟨ret, s1, ?_, hs1, hdev⟩
    rw [sfs_bmap_free_sub_nolock, hread]
    simp [hinuse, hk, hret]
  have hbuf : value 4 (copy (fun _ => 0) 0 (s.disk ent) (k * 4) 4) = s.entry ent k := value_entry
  generalize copy (fun _ => 0) 0 (s.disk ent) (k * 4) 4 = buf at hread hbuf
  by_cases hzero : s.entry ent k = 0
  · refine .inl ⟨s1, ?_, hs1.unmapped h (hold.trans hzero)⟩
    rw [sfs_bmap_free_sub_nolock, hread]
    simp [hinuse, hk, hzero, hbuf]
  have hne : slot I s (n, fileSlot index) ≠ 0 := by rwa [hold]
  obtain ⟨s2, hs2, hwrite | ⟨ret, hret, hwrite, hdev⟩⟩ := wbuf_cases (byteOf 0) 0 hind
    (hs1.blocks ▸ hlt) hoff hlen
  swap
  · refine .inr ⟨ret, s2, ?_, hs1.trans hs2, fun hrel => hdev (hrel.shifted hs1)⟩
    rw [sfs_bmap_free_sub_nolock, hread]
    simp [hinuse, hk, hzero, hwrite, hbuf]
  have hs := hs1.trans hs2
  have hdisk1 : s1.disk = s.disk := by
    obtain ⟨i, rfl⟩ := hs1
    rfl
  rw [hdisk1] at hwrite
  set s3 : sfs_fs := { s2 with
    disk := update s.disk ent (copy (s.disk ent) (k * 4) (byteOf 0) 0 4) } with hs3
  have hs3' : s3 = { s with
      disk := update s.disk ent (copy (s.disk ent) (k * 4) (byteOf 0) 0 4)
      answer := s2.answer } := by
    obtain ⟨i, hi⟩ := hs
    rw [hs3, hi]
  obtain ⟨hcons, hset⟩ := h.set_entry hn hent.symm hind hk (.inl rfl) hs3'
  have hlost : (s3.store I).Lost (s.entry ent k) := by
    have hlost' := h.store.set_zero_lost hne
    rwa [store, hset, hs3', ← hold, ← hfile]
  have hltb : s.entry ent k < s3.blocks := by
    rw [hs3', ← hold]
    exact h.slot_lt _
  obtain ⟨s4, heq4, hf⟩ := hcons.free_spec hlost hltb
  have hslot : slot I s4 = update (slot I s) (n, fileSlot index) 0 := by
    rw [hf.slot, hset, hfile]
  have hsin : s4.sin = s.sin := by rw [hf.sin, hs3']
  refine .inl ⟨s4, ?_, hf.consistent, ?_, ⟨?_, ?_, fun m _ => ?_, ?_, ?_, ?_, ?_, ?_, fun hrel i => ?_,
    fun m hm => ?_⟩, hslot, by rw [hsin]⟩
  · rw [sfs_bmap_free_sub_nolock, hread]
    simp [hinuse, hk, hzero, hwrite, hbuf, heq4]
  · refine .single (steps_drop hne hslot ?_)
    rw [hf.free, hs3', hold]
  · rw [hf.blocks, hs3']
  · rw [hf.list, hs3']
  · rw [hsin]
  · rw [hsin]
  · rw [hsin]
  · rw [hsin]
  · rw [hsin]
  · rw [hsin]
  · rw [hf.answer]
    exact hrel.shifted hs i
  · have hne' : m ≠ ent := fun heq => by
      have hsame := h.slot_unique (hold_ind.trans (heq.symm.trans (slot_inode hm).symm))
        (hold_ind ▸ hind)
      cases hsame
    rw [hf.disk, hs3']
    exact update_of_ne hne' _ _

theorem free_cases (index : ℕ) :
    (∃ s', s.sfs_bmap_free_nolock n index = some (.ok (), s') ∧ Unmapped I n index s s') ∨
    ∃ ret s', s.sfs_bmap_free_nolock n index = some (.error ret, s') ∧ Shifted s s' ∧
      ¬s.Reliable := by
  by_cases hindex : index < SFS_NDIRECT
  · exact .inl (free_direct h hn hindex)
  by_cases hk : index - SFS_NDIRECT < SFS_BLK_NENTRY ∧ (s.sin n).din.indirect ≠ 0
  · exact free_entry h hn hk.2 hindex hk.1
  · refine .inl ⟨s, by simp only [sfs_bmap_free_nolock, if_neg hindex, if_neg hk]; rfl,
      Shifted.unmapped ⟨0, rfl⟩ h ?_⟩
    rw [fileSlot_entry hindex, slot, if_pos (h.loaded n hn), dinode_of_loaded hn]
    exact if_neg hk

end

section

/-- The last `k` blocks of the file `n` have been freed. -/
structure Reduced (I : Finset ℕ) (n k : ℕ) (s s' : sfs_fs) : Prop where
  consistent : s'.Consistent I
  steps : (s.store I).Steps (s'.store I)
  preserves : Preserves I n s s'
  nblocks : (s'.sin n).din.blocks + k = (s.sin n).din.blocks
  freed : ∀ j, (s'.sin n).din.blocks ≤ j → j < (s.sin n).din.blocks →
    sfs_fs.slot I s' (n, fileSlot j) = 0
  kept : ∀ r, (∀ j, (s'.sin n).din.blocks ≤ j → j < (s.sin n).din.blocks → r ≠ (n, fileSlot j)) →
    sfs_fs.slot I s' r = sfs_fs.slot I s r

theorem Shifted.reduced (hs' : Shifted s s') (h : s.Consistent I) : Reduced I n 0 s s' := by
  refine ⟨hs'.consistent h, hs'.store ▸ .refl, hs'.keeps.toPreserves, by rw [hs'.sin]; rfl,
    fun j hle hlt => ?_, fun r _ => by rw [hs'.slot]⟩
  rw [hs'.sin] at hle
  omega

theorem Reduced.trans {i j : ℕ} (h : Reduced I n i s s') (h' : Reduced I n j s' s'') :
    Reduced I n (i + j) s s'' := by
  have hi := h.nblocks
  have hj := h'.nblocks
  refine ⟨h'.consistent, h.steps.trans h'.steps, h.preserves.trans h'.preserves, by omega,
    fun l hle hlt => ?_, fun r hr => ?_⟩
  · rcases Nat.lt_or_ge l (s'.sin n).din.blocks with hl | hl
    · exact h'.freed l hle hl
    · rw [h'.kept _ fun l' _ hlt' heq => ?_, h.freed l hl hlt]
      have hsame := fileSlot_inj (Prod.ext_iff.mp heq).2
      omega
  · rw [h'.kept r fun l hle hlt => hr l hle (by omega),
      h.kept r fun l hle hlt => hr l (by omega) hlt]

variable (h : s.Consistent I) (hn : n ∈ s.inode_list)
include h hn

theorem truncate_cases (hpos : (s.sin n).din.blocks ≠ 0) :
    (∃ s', s.sfs_bmap_truncate_nolock n = some (.ok (), s') ∧ Reduced I n 1 s s') ∨
    ∃ ret s', s.sfs_bmap_truncate_nolock n = some (.error ret, s') ∧ Shifted s s' ∧
      ¬s.Reliable := by
  rcases free_cases h hn ((s.sin n).din.blocks - 1) with
    ⟨s1, heq, hu⟩ | ⟨ret, s', heq, hs', hdev⟩
  swap
  · exact .inr ⟨ret, s', by simp [sfs_bmap_truncate_nolock, hpos, heq], hs', hdev⟩
  set s2 := (s1.modifyDin n fun d => { d with blocks := d.blocks - 1 }).setDirty n true with hs2
  have hmodify : s2 = s1.modifySin n fun _ => { s1.sin n with
      din := { (s1.sin n).din with blocks := (s1.sin n).din.blocks - 1 }, dirty := true } := by
    simp [hs2, setDirty, modifyDin, modifySin]
  have hself : s2.sin n = { s1.sin n with
      din := { (s1.sin n).din with blocks := (s1.sin n).din.blocks - 1 }, dirty := true } := by
    simp [hmodify, modifySin]
  obtain ⟨hcons, hslot⟩ : s2.Consistent I ∧ slot I s2 = slot I s1 := by
    rw [hmodify]
    exact hu.consistent.same_refs ⟨fun _ _ => rfl, rfl⟩ fun h => Bool.noConfusion h
  have hpreserves : Preserves I n s1 s2 := by
    refine ⟨rfl, rfl, fun m hm => ?_, ?_, ?_, ?_, ?_, ?_, id, fun _ _ => rfl⟩
    · simp [hmodify, modifySin, hm]
    all_goals rw [hself]
  have hnblocks : (s2.sin n).din.blocks = (s.sin n).din.blocks - 1 := by rw [hself, ← hu.nblocks]
  have hstore : s2.store I = s1.store I := by
    rw [store, hslot]
    rfl
  refine .inl ⟨s2, by simp [sfs_bmap_truncate_nolock, hpos, heq, hs2], hcons, hstore ▸ hu.steps,
    hu.preserves.trans hpreserves, by omega, fun j hle hlt => ?_, fun r hr => ?_⟩
  · have hj : j = (s.sin n).din.blocks - 1 := by omega
    rw [hslot, hu.slot, hj, update_self]
  · rw [hslot, hu.slot, update_of_ne (hr _ (by omega) (by omega))]

theorem reduce_cases (hk : k ≤ (s.sin n).din.blocks) :
    (∃ s', sfs_truncfile.reduce n k s = some (.ok (), s') ∧ Reduced I n k s s') ∨
    ∃ ret s' j, sfs_truncfile.reduce n k s = some (.error ret, s') ∧ Reduced I n j s s' ∧
      ¬s.Reliable := by
  induction k generalizing s with
  | zero => exact .inl ⟨s, rfl, Shifted.reduced ⟨0, rfl⟩ h⟩
  | succ k ih =>
    rcases truncate_cases h hn (by omega) with ⟨s1, heq, hr⟩ | ⟨ret, s', heq, hs', hdev⟩
    · have hcount := hr.nblocks
      rcases ih hr.consistent (hr.preserves.list ▸ hn) (by omega) with
        ⟨s', heq', hr'⟩ | ⟨ret, s', j, heq', hr', hdev⟩
      · refine .inl ⟨s', by simp [sfs_truncfile.reduce, heq, heq'], ?_⟩
        rw [Nat.add_comm]
        exact hr.trans hr'
      · exact .inr ⟨ret, s', 1 + j, by simp [sfs_truncfile.reduce, heq, heq'], hr.trans hr',
          fun hrel => hdev (hr.preserves.reliable hrel)⟩
    · exact .inr ⟨ret, s', 0, by simp [sfs_truncfile.reduce, heq], hs'.reduced h, hdev⟩

end

/-- `k` blocks have been appended to the file `n`. -/
structure Enlarged (I : Finset ℕ) (n k : ℕ) (s s' : sfs_fs) : Prop where
  consistent : s'.Consistent I
  steps : (s.store I).Steps (s'.store I)
  keeps : Keeps I n s s'
  nblocks : (s'.sin n).din.blocks = (s.sin n).din.blocks + k
  filled : Filled I s n → Filled I s' n
  others : ∀ m j, (m = n → (s'.sin n).din.blocks ≤ j) →
    slot I s' (m, fileSlot j) = slot I s (m, fileSlot j)

theorem Refused.enlarged (h : Refused I s s') : Enlarged I n 0 s s' := by
  have hslot : slot I s' = slot I s := congrArg Store.slot h.store
  refine ⟨h.consistent, h.store ▸ .refl, h.keeps n, by rw [h.sin]; rfl, fun hf j hj => ?_,
    fun m j _ => by rw [hslot]⟩
  rw [h.sin] at hj
  rw [hslot]
  exact hf j hj

theorem Loaded.enlarged (h : Loaded I n index b s s') (hindex : index = (s.sin n).din.blocks) :
    Enlarged I n 1 s s' := by
  have hblocks : (s'.sin n).din.blocks = (s.sin n).din.blocks + 1 := by
    rw [h.nblocks]
    omega
  have hm : Moved I false n 0 0 index ⟨0, fun _ => 0, 0⟩ s ⟨b, fun _ => 0, 0⟩ s' := moved_load h
  refine ⟨h.consistent, h.steps, h.keeps, hblocks, hm.filled,
    fun m j hj => h.others m j fun heq => ?_⟩
  obtain ⟨rfl, rfl⟩ := Prod.ext_iff.mp heq
  have hle := hj rfl
  omega

theorem Enlarged.trans {i j : ℕ} (h : Enlarged I n i s s') (h' : Enlarged I n j s' s'') :
    Enlarged I n (i + j) s s'' := by
  have hi := h.nblocks
  have hj := h'.nblocks
  refine ⟨h'.consistent, h.steps.trans h'.steps, h.keeps.trans h'.keeps, by omega,
    fun hf => h'.filled (h.filled hf), fun m l hl => ?_⟩
  rw [h'.others m l hl, h.others m l fun hm => ?_]
  have hle := hl hm
  omega

variable (h : s.Consistent I) (hn : n ∈ s.inode_list) (hdev : s.Reliable)
include h hn hdev

/-- Blocks are appended until none is left. A file with too many blocks is an error of the
caller. -/
theorem enlarge_cases (k : ℕ) :
    sfs_truncfile.enlarge n k (s.sin n).din.blocks s = none ∧
      SFS_NDIRECT + SFS_BLK_NENTRY < (s.sin n).din.blocks + k ∨
    (∃ s', sfs_truncfile.enlarge n k (s.sin n).din.blocks s = some (.ok (), s') ∧
      Enlarged I n k s s') ∨
    ∃ ret s' j, sfs_truncfile.enlarge n k (s.sin n).din.blocks s = some (.error ret, s') ∧
      Enlarged I n j s s' ∧ ¬s.Enough n ((s.sin n).din.blocks + k - 1) := by
  induction k generalizing s with
  | zero => exact .inr (.inl ⟨s, rfl, h, .refl, Shifted.keeps ⟨0, rfl⟩, rfl, id, fun _ _ _ => rfl⟩)
  | succ k ih =>
    rcases load_cases h hn hdev (s.sin n).din.blocks with
      ⟨heq, hwhy⟩ | ⟨b, s1, heq, hl⟩ | ⟨s', heq, href, hfew⟩
    · exact .inl ⟨by simp [sfs_truncfile.enlarge, heq], by omega⟩
    · have hg := hl.enlarged rfl
      have hcount : (s1.sin n).din.blocks = (s.sin n).din.blocks + 1 := hg.nblocks
      have hstep : sfs_truncfile.enlarge n (k + 1) (s.sin n).din.blocks s =
          sfs_truncfile.enlarge n k (s1.sin n).din.blocks s1 := by
        simp [sfs_truncfile.enlarge, heq, hcount]
      rw [hstep, Nat.add_comm k 1]
      rcases ih hl.consistent (hl.keeps.list ▸ hn) (hl.keeps.reliable hdev) with
        ⟨heq', hmax⟩ | ⟨s', heq', hg'⟩ | ⟨ret, s', j, heq', hg', hfew⟩
      · exact .inl ⟨heq', by omega⟩
      · exact .inr (.inl ⟨s', heq', hg.trans hg'⟩)
      · refine .inr (.inr ⟨ret, s', 1 + j, heq', hg.trans hg', fun henough => hfew ?_⟩)
        rw [hcount, Nat.add_assoc]
        exact hl.enough _ (by omega) henough
    · exact .inr (.inr ⟨-E_NO_MEM, s', 0, by simp [sfs_truncfile.enlarge, heq], href.enlarged,
        hfew _ (by omega)⟩)

end ucore.sfs_fs
