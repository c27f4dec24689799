import Mips32S.Kernel.Sfs.Alloc

open layout ownership Function Finset
open Option (bind_eq_bind bind_some)

namespace ucore.sfs_fs

variable {I : Finset ℕ} {s s' s'' v : sfs_fs} {n m b c k ent index j : ℕ} {ans : ℕ → ℤ}
  {f : sfs_disk_inode → sfs_disk_inode} {r : ℕ × Slot}

section
variable (hn : n ∈ s.inode_list) (hI : n ∈ I)
include hn hI

theorem slot_modify {τ : Slot} (hself : s.slotOf (f (s.sin n).din) n τ = b)
    (hothers : ∀ σ ≠ τ, s.slotOf (f (s.sin n).din) n σ = s.slotOf (s.sin n).din n σ) :
    slot I ((s.modifyDin n f).setDirty n true) = update (slot I s) (n, τ) b := by
  rw [slot_setDirty]
  funext ⟨m, σ⟩
  rw [slot_modifyDin hn hI]
  by_cases hm : m = n
  · subst hm
    rw [if_pos rfl]
    by_cases hσ : σ = τ
    · rw [hσ, update_self, hself]
    · rw [update_of_ne (by simp [hσ]), hothers σ hσ, slot, if_pos hI, dinode_of_loaded hn]
  · rw [if_neg hm, update_of_ne (by simp [hm])]

theorem slot_set_direct (hk : k < SFS_NDIRECT) :
    slot I ((s.modifyDin n fun d =>
      { d with direct := update d.direct k b }).setDirty n true) =
      update (slot I s) (n, .direct k) b := by
  refine slot_modify hn hI (by simp [slotOf, hk]) fun σ hσ => ?_
  cases σ with
  | direct j =>
    have hj : j ≠ k := fun heq => hσ (heq ▸ rfl)
    simp [slotOf, hj]
  | inode => rfl
  | indirect => rfl
  | entry j => rfl

theorem slot_set_indirect (hind : (s.sin n).din.indirect = 0) (hzero : s.disk ent = fun _ => 0) :
    slot I ((s.modifyDin n fun d => { d with indirect := ent }).setDirty n true) =
      update (slot I s) (n, .indirect) ent := by
  refine slot_modify hn hI rfl fun σ hσ => ?_
  cases σ with
  | indirect => exact absurd rfl hσ
  | inode => rfl
  | direct j => rfl
  | entry j =>
    have hentry : s.entry ent j = 0 := by
      rw [entry, hzero]
      exact value_zero 4
    simp [slotOf, hind, hentry]

end

theorem entry_write (hb : b < 2 ^ 32) (j : ℕ)
    (hdisk : s'.disk ent = copy (s.disk ent) (k * 4) (byteOf b) 0 4) :
    s'.entry ent j = if j = k then b else s.entry ent j := by
  unfold entry
  rw [hdisk]
  split
  · rename_i heq
    subst heq
    have hpow : 256 ^ 4 = 2 ^ 32 := rfl
    rw [value_congr fun i hi => ?_, value_byteOf, hpow, Nat.mod_eq_of_lt hb]
    rw [copy_of_mem (by omega) (by omega), Nat.zero_add, Nat.add_sub_cancel_left]
  · rename_i hne
    refine value_congr fun i hi => copy_of_not ?_
    omega

theorem slot_set_entry (h : s.Mapped I) (hn : n ∈ s.inode_list) (hI : n ∈ I)
    (hind : (s.sin n).din.indirect = ent) (hent : ent ≠ 0) (hk : k < SFS_BLK_NENTRY)
    (hb : b < 2 ^ 32) (hlist : s'.inode_list = s.inode_list) (hsin : s'.sin = s.sin)
    (hdisk : s'.disk = update s.disk ent (copy (s.disk ent) (k * 4) (byteOf b) 0 4)) :
    slot I s' = update (slot I s) (n, .entry k) b := by
  have hslot : slot I s (n, .indirect) = ent := by
    rw [slot_indirect hI, dinode_of_loaded hn, hind]
  have hinode : ∀ m ∈ I, m ≠ ent := fun m hm heq => by
    have hsame := h.slot_unique (hslot.trans (heq.symm.trans (slot_inode hm).symm)) (hslot ▸ hent)
    cases hsame
  have hdinode : ∀ m ∈ I, s'.dinode m = s.dinode m := fun m hm => by
    unfold dinode
    rw [hlist, hsin, hdisk, update_of_ne (hinode m hm)]
  have hself : s'.disk ent = copy (s.disk ent) (k * 4) (byteOf b) 0 4 := by
    rw [hdisk, update_self]
  funext ⟨m, σ⟩
  by_cases hm : m ∈ I
  · by_cases hmn : m = n
    · subst hmn
      have hd : s.dinode m = (s.sin m).din := dinode_of_loaded hn
      rw [slot, if_pos hm, hdinode m hm]
      cases σ with
      | entry j =>
        by_cases hj : j = k
        · subst hj
          rw [update_self]
          simp only [slotOf, hd, hind]
          rw [if_pos ⟨hk, hent⟩, entry_write hb j hself, if_pos rfl]
        · rw [update_of_ne (by simp [hj]), slot, if_pos hm]
          simp only [slotOf, hd, hind]
          rw [entry_write hb j hself, if_neg hj]
      | inode =>
        rw [update_of_ne (by simp), slot, if_pos hm]
        rfl
      | indirect =>
        rw [update_of_ne (by simp), slot, if_pos hm]
        rfl
      | direct j =>
        rw [update_of_ne (by simp), slot, if_pos hm]
        rfl
    · rw [update_of_ne (by simp [hmn]), slot, slot, if_pos hm, if_pos hm]
      refine slotOf_congr (hdinode m hm ▸ ⟨fun _ _ => rfl, rfl⟩) fun hne j hj => ?_
      have hother : (s.dinode m).indirect ≠ ent := fun heq => by
        have hboth : slot I s (m, .indirect) = slot I s (n, .indirect) := by
          rw [slot_indirect hm, heq, hslot]
        have hsame := h.slot_unique hboth (by rwa [slot_indirect hm])
        exact hmn (Prod.ext_iff.mp hsame).1
      rw [entry, entry, hdisk, update_of_ne hother]
  · rw [update_of_ne (by rintro ⟨⟩; exact hm hI), slot, slot, if_neg hm, if_neg hm]

theorem Consistent.set_din (h : s.Consistent I)
    (hslot : slot I ((s.modifyDin n f).setDirty n true) = update (slot I s) r b)
    (hb : b = 0 ∨ (s.store I).Lost b ∧ b < s.blocks) :
    ((s.modifyDin n f).setDirty n true).Consistent I := by
  refine h.set rfl rfl rfl rfl hslot hb fun m hm hdirty => ?_
  have hmn : m ≠ n := by
    rintro rfl
    simp [setDirty, modifySin] at hdirty
  simp only [setDirty, modifyDin, modifySin, update_of_ne hmn] at hdirty ⊢
  exact h.clean m hm hdirty

section
variable (h : s.Consistent I) (hn : n ∈ s.inode_list)
include h hn

theorem Consistent.set_direct (hk : k < SFS_NDIRECT)
    (hb : b = 0 ∨ (s.store I).Lost b ∧ b < s.blocks) :
    ((s.modifyDin n fun d =>
      { d with direct := update d.direct k b }).setDirty n true).Consistent I :=
  h.set_din (slot_set_direct hn (h.loaded n hn) hk) hb

theorem Consistent.set_indirect (hind : (s.sin n).din.indirect = 0)
    (hzero : s.disk ent = fun _ => 0) (hent : (s.store I).Lost ent) (hlt : ent < s.blocks) :
    ((s.modifyDin n fun d => { d with indirect := ent }).setDirty n true).Consistent I :=
  h.set_din (slot_set_indirect hn (h.loaded n hn) hind hzero) (.inr ⟨hent, hlt⟩)

theorem Consistent.set_entry (hind : (s.sin n).din.indirect = ent) (hent : ent ≠ 0)
    (hk : k < SFS_BLK_NENTRY) (hb : b = 0 ∨ (s.store I).Lost b ∧ b < s.blocks)
    (hs' : s' = { s with
      disk := update s.disk ent (copy (s.disk ent) (k * 4) (byteOf b) 0 4), answer := ans }) :
    s'.Consistent I ∧ slot I s' = update (slot I s) (n, .entry k) b := by
  have hI := h.loaded n hn
  have hsmall : b < 2 ^ 32 := by
    rcases hb with rfl | ⟨-, hlt⟩
    · decide
    · exact lt_of_lt_of_le hlt h.small
  have hslot : slot I s' = update (slot I s) (n, .entry k) b := by
    subst hs'
    exact slot_set_entry h.toMapped hn hI hind hent hk hsmall rfl rfl rfl
  refine ⟨?_, hslot⟩
  subst hs'
  refine h.set rfl rfl rfl rfl hslot hb fun m hm hdirty => ?_
  have hne : m ≠ ent := fun heq => by
    have hind' : slot I s (n, .indirect) = ent := by
      rw [slot_indirect hI, dinode_of_loaded hn, hind]
    have hsame := h.slot_unique (hind'.trans (heq.symm.trans (slot_inode (h.loaded m hm)).symm))
      (hind' ▸ hent)
    cases hsame
  dsimp only
  rw [update_of_ne hne]
  exact h.clean m hm hdirty

end

/-- What stays when only the file `n` changes. -/
structure Preserves (I : Finset ℕ) (n : ℕ) (s s' : sfs_fs) : Prop where
  blocks : s'.blocks = s.blocks
  list : s'.inode_list = s.inode_list
  other : ∀ m ≠ n, s'.sin m = s.sin m
  size : (s'.sin n).din.size = (s.sin n).din.size
  type : (s'.sin n).din.type = (s.sin n).din.type
  nlinks : (s'.sin n).din.nlinks = (s.sin n).din.nlinks
  ref_count : (s'.sin n).ref_count = (s.sin n).ref_count
  reclaim_count : (s'.sin n).reclaim_count = (s.sin n).reclaim_count
  reliable : s.Reliable → s'.Reliable
  inode : ∀ m ∈ I, s'.disk m = s.disk m

/-- What stays while the file `n` is read or written: also every block that is in a slot. -/
structure Frame (I : Finset ℕ) (n : ℕ) (s s' : sfs_fs) : Prop extends Preserves I n s s' where
  slot : ∀ r, slot I s r ≠ 0 → slot I s' r = slot I s r

/-- What stays when blocks are appended to the file `n`: also the data of the files. -/
structure Keeps (I : Finset ℕ) (n : ℕ) (s s' : sfs_fs) : Prop extends Frame I n s s' where
  disk : ∀ m k, sfs_fs.slot I s (m, fileSlot k) ≠ 0 →
    s'.disk (sfs_fs.slot I s (m, fileSlot k)) = s.disk (sfs_fs.slot I s (m, fileSlot k))

theorem Preserves.trans (h : Preserves I n s s') (h' : Preserves I n s' s'') :
    Preserves I n s s'' :=
  ⟨h'.blocks.trans h.blocks, h'.list.trans h.list,
    fun m hm => (h'.other m hm).trans (h.other m hm), h'.size.trans h.size, h'.type.trans h.type,
    h'.nlinks.trans h.nlinks, h'.ref_count.trans h.ref_count,
    h'.reclaim_count.trans h.reclaim_count, fun hdev => h'.reliable (h.reliable hdev),
    fun m hm => (h'.inode m hm).trans (h.inode m hm)⟩

theorem Frame.trans (h : Frame I n s s') (h' : Frame I n s' s'') : Frame I n s s'' := by
  refine ⟨h.toPreserves.trans h'.toPreserves, fun r hr => ?_⟩
  rw [h'.slot r (h.slot r hr ▸ hr), h.slot r hr]

theorem Keeps.trans (h : Keeps I n s s') (h' : Keeps I n s' s'') : Keeps I n s s'' := by
  refine ⟨h.toFrame.trans h'.toFrame, fun m k hr => ?_⟩
  have hsame := h.slot _ hr
  have hdisk := h'.disk m k (hsame ▸ hr)
  rw [hsame] at hdisk
  rw [hdisk, h.disk m k hr]

theorem Shifted.keeps (hs : Shifted s s') : Keeps I n s s' := by
  have hdev : s.Reliable → s'.Reliable := fun hdev => hdev.shifted hs
  obtain ⟨i, rfl⟩ := hs
  exact ⟨⟨⟨rfl, rfl, fun _ _ => rfl, rfl, rfl, rfl, rfl, rfl, hdev, fun _ _ => rfl⟩, fun _ _ => rfl⟩,
    fun _ _ _ => rfl⟩

theorem Alloc.keeps (ha : Alloc I b s s') : Keeps I n s s' := by
  have hne : ∀ r, sfs_fs.slot I s r ≠ b := fun r heq => by
    refine ha.lost.2.2 r ?_
    rwa [store, ha.slot]
  refine ⟨⟨⟨ha.blocks, ha.list, fun m _ => by rw [ha.sin], by rw [ha.sin], by rw [ha.sin],
    by rw [ha.sin], by rw [ha.sin], by rw [ha.sin], fun _ => ha.reliable, fun m hm => ?_⟩,
    fun r _ => by rw [ha.slot]⟩, fun m k _ => ?_⟩
  · rw [ha.disk, update_of_ne fun heq => hne (m, .inode) ((slot_inode hm).trans heq)]
  · rw [ha.disk, update_of_ne (hne _)]

theorem Freed.keeps (hf : Freed I b s s') : Keeps I n s s' :=
  ⟨⟨⟨hf.blocks, hf.list, fun m _ => by rw [hf.sin], by rw [hf.sin], by rw [hf.sin], by rw [hf.sin],
    by rw [hf.sin], by rw [hf.sin], fun hdev i => by rw [hf.answer]; exact hdev i,
    fun m _ => by rw [hf.disk]⟩, fun r _ => by rw [hf.slot]⟩, fun m k _ => by rw [hf.disk]⟩

theorem keeps_modifyDin {v : Bool} (hsize : ∀ d, (f d).size = d.size)
    (htype : ∀ d, (f d).type = d.type) (hnlinks : ∀ d, (f d).nlinks = d.nlinks)
    (hr : slot I s r = 0)
    (hslot : slot I ((s.modifyDin n f).setDirty n v) = update (slot I s) r b) :
    Keeps I n s ((s.modifyDin n f).setDirty n v) := by
  have hself : ((s.modifyDin n f).setDirty n v).sin n = { s.sin n with
      din := f (s.sin n).din, dirty := v } := by
    simp [setDirty, modifyDin, modifySin]
  refine ⟨⟨⟨rfl, rfl, fun m hm => ?_, ?_, ?_, ?_, ?_, ?_, fun hdev => hdev, fun _ _ => rfl⟩,
    fun r' hr' => ?_⟩, fun _ _ _ => rfl⟩
  · simp [setDirty, modifyDin, modifySin, hm]
  · rw [hself]
    exact hsize _
  · rw [hself]
    exact htype _
  · rw [hself]
    exact hnlinks _
  · rw [hself]
  · rw [hself]
  · rw [hslot, update_of_ne]
    rintro rfl
    exact hr' hr

/-- The number of blocks that the next block of a file needs. -/
def cost (din : sfs_disk_inode) (index : ℕ) : ℕ :=
  if SFS_NDIRECT ≤ index ∧ din.indirect = 0 then 2 else 1

/-- The block number `index` of the file `n` is new. -/
structure Created (I : Finset ℕ) (n index b : ℕ) (s s' : sfs_fs) : Prop where
  consistent : s'.Consistent I
  steps : (s.store I).Steps (s'.store I)
  keeps : Keeps I n s s'
  slot : slot I s' (n, fileSlot index) = b
  ne_zero : b ≠ 0
  others : ∀ m k, (m, k) ≠ (n, index) →
    sfs_fs.slot I s' (m, fileSlot k) = sfs_fs.slot I s (m, fileSlot k)
  nblocks : (s'.sin n).din.blocks = (s.sin n).din.blocks
  unused : s'.unused_blocks + cost (s.sin n).din index = s.unused_blocks
  indirect : SFS_NDIRECT ≤ index → (s'.sin n).din.indirect ≠ 0

/-- There is no block left. -/
structure Refused (I : Finset ℕ) (s s' : sfs_fs) : Prop where
  consistent : s'.Consistent I
  store : s'.store I = s.store I
  keeps : ∀ n, Keeps I n s s'
  sin : s'.sin = s.sin

theorem fileSlot_inj (h : fileSlot j = fileSlot k) : j = k := by
  unfold fileSlot at h
  split at h <;> split at h
  · injection h
  · cases h
  · cases h
  · rename_i hj hk
    injection h with h
    omega

theorem fileSlot_direct (hk : k < SFS_NDIRECT) : fileSlot k = .direct k := if_pos hk

theorem fileSlot_entry (hk : ¬k < SFS_NDIRECT) : fileSlot k = .entry (k - SFS_NDIRECT) := if_neg hk

theorem fileSlot_ne (k : ℕ) : fileSlot k ≠ .inode ∧ fileSlot k ≠ .indirect := by
  unfold fileSlot
  split <;> simp

theorem steps_take (hr : slot I s r = 0) (hb : b ∈ s.freemap.free)
    (hslot : slot I s' = update (slot I s) r b) (hfree : s'.freemap.free = s.freemap.free.erase b) :
    (s.store I).Step (s'.store I) := by
  have heq : s'.store I = (s.store I).take r b := by
    rw [store, hslot, hfree]
    rfl
  rw [heq]
  exact .take hr hb

theorem get_out (h : s.Mapped I) (hb : b ≠ 0) (hlt : b < s.blocks) (hused : b ∉ s.freemap.free) :
    sfs_bmap_get_nolock.out b s = some (.ok b, s) := by
  have hinuse : s.sfs_block_inuse b = some true := by
    rw [h.block_inuse hb hlt]
    simp [hused]
  simp [sfs_bmap_get_nolock.out, hinuse]

theorem entry_bounds (hk : k < SFS_BLK_NENTRY) : k * 4 < SFS_BLKSIZE ∧ k * 4 + 4 ≤ SFS_BLKSIZE := by
  have hsize : SFS_BLKSIZE = 4096 := rfl
  have hentry : SFS_BLK_NENTRY = 1024 := rfl
  omega

theorem value_entry : value 4 (copy (fun _ => 0) 0 (s.disk ent) (k * 4) 4) = s.entry ent k :=
  value_congr fun i hi => by rw [copy_of_mem (by omega) (by omega), Nat.sub_zero]

theorem get_sub_eq (create : Bool) {buf : ℕ → BitVec 8} (hk : k < SFS_BLK_NENTRY) (hent : ent ≠ 0)
    (hbuf : value 4 buf = s.entry ent k)
    (hrbuf : s.sfs_rbuf (fun _ => 0) 0 4 ent (k * 4) = some (0, buf, s')) :
    s.sfs_bmap_get_sub_nolock ent k create =
      if s.entry ent k ≠ 0 ∨ ¬create then some (.ok (ent, s.entry ent k), s')
      else sfs_bmap_get_sub_nolock.create ent k false s' := by
  unfold sfs_bmap_get_sub_nolock
  rw [hrbuf, ← hbuf]
  simp [hent, hk]

theorem keeps_entry (h : s.Consistent I) (hn : n ∈ s.inode_list)
    (hind : (s.sin n).din.indirect = ent) (hempty : slot I s (n, .entry k) = 0)
    (hs' : s' = { s with
      disk := update s.disk ent (copy (s.disk ent) (k * 4) (byteOf b) 0 4), answer := ans })
    (hslot : slot I s' = update (slot I s) (n, .entry k) b)
    (hdev : s.Reliable → s'.Reliable) : Keeps I n s s' := by
  have hslot_ind : slot I s (n, .indirect) = ent := by
    rw [slot_indirect (h.loaded n hn), dinode_of_loaded hn, hind]
  have hkeep : ∀ r, slot I s r ≠ 0 → slot I s' r = slot I s r := fun r hr => by
    rw [hslot, update_of_ne]
    rintro rfl
    exact hr hempty
  have hne : ∀ r, slot I s r ≠ 0 → r.2 ≠ .indirect → slot I s r ≠ ent := fun r hr hσ heq =>
    hσ (Prod.ext_iff.mp (h.slot_unique (heq.trans hslot_ind.symm) hr)).2
  subst hs'
  refine ⟨⟨⟨rfl, rfl, fun _ _ => rfl, rfl, rfl, rfl, rfl, rfl, hdev, fun m hm => ?_⟩, hkeep⟩,
    fun m j hr => ?_⟩
  · have hm0 : slot I s (m, .inode) ≠ 0 := by
      rw [slot_inode hm]
      exact fun heq => h.zero (heq ▸ hm)
    have hme := hne (m, .inode) hm0 (by simp)
    rw [slot_inode hm] at hme
    exact update_of_ne hme _ _
  · exact update_of_ne (hne _ hr (fileSlot_ne j).2) _ _

theorem create_cases (fresh : Bool) (h : s.Consistent I) (hdev : s.Reliable)
    (hk : k < SFS_BLK_NENTRY) (hent : ent ≠ 0) (hlt : ent < s.blocks) :
    (∃ b s1 s2, Alloc I b s s1 ∧ Shifted s1 s2 ∧
      sfs_bmap_get_sub_nolock.create ent k fresh s = some (.ok (ent, b), { s2 with
        disk := update s1.disk ent (copy (s1.disk ent) (k * 4) (byteOf b) 0 4) })) ∨
    s.unused_blocks = 0 ∧ sfs_bmap_get_sub_nolock.create ent k fresh s =
      sfs_bmap_get_sub_nolock.cleanup (-E_NO_MEM) ent fresh s := by
  obtain ⟨hoff, hlen⟩ := entry_bounds hk
  rcases h.alloc_spec hdev with ⟨heq, hzero⟩ | ⟨b, s1, heq, ha⟩
  · refine .inr ⟨hzero, ?_⟩
    simp [sfs_bmap_get_sub_nolock.create, heq]
  · obtain ⟨s2, hs2, hwbuf⟩ := ha.reliable.wbuf (byteOf b) 0 hent (ha.blocks ▸ hlt) hoff hlen
    refine .inl ⟨b, s1, s2, ha, hs2, ?_⟩
    simp [sfs_bmap_get_sub_nolock.create, heq, hwbuf]

theorem created_of_entry (ans : ℕ → ℤ) (hv : v.Consistent I) (hn : n ∈ v.inode_list)
    (hind : (v.sin n).din.indirect = ent) (hent : ent ≠ 0) (hindex : ¬index < SFS_NDIRECT)
    (hk : index - SFS_NDIRECT < SFS_BLK_NENTRY) (hempty : slot I v (n, fileSlot index) = 0)
    (hb : (v.store I).Lost b) (hlt : b < v.blocks)
    (hs' : s' = { v with
      disk := update v.disk ent
        (copy (v.disk ent) ((index - SFS_NDIRECT) * 4) (byteOf b) 0 4), answer := ans })
    (hdev : v.Reliable → s'.Reliable) (hkeeps : Keeps I n s v)
    (hothers : ∀ m k, (m, k) ≠ (n, index) → slot I v (m, fileSlot k) = slot I s (m, fileSlot k))
    (hnblocks : (v.sin n).din.blocks = (s.sin n).din.blocks)
    (hunused : v.unused_blocks + cost (s.sin n).din index = s.unused_blocks)
    (hsteps : (s.store I).Steps ⟨update (slot I v) (n, fileSlot index) b, v.freemap.free⟩) :
    Created I n index b s s' := by
  have hfile := fileSlot_entry hindex
  obtain ⟨hcons, hslot⟩ := hv.set_entry hn hind hent hk (.inr ⟨hb, hlt⟩) hs'
  have hkeeps' := keeps_entry hv hn hind (hfile ▸ hempty) hs' hslot hdev
  rw [← hfile] at hslot
  have hstore : s'.store I = ⟨update (slot I v) (n, fileSlot index) b, v.freemap.free⟩ := by
    rw [store, hslot, hs']
  refine ⟨hcons, hstore ▸ hsteps, hkeeps.trans hkeeps', ?_, hb.1, fun m j hne => ?_, ?_, ?_,
    fun _ => ?_⟩
  · rw [hslot, update_self]
  · rw [hslot, update_of_ne, hothers m j hne]
    rintro heq
    obtain ⟨rfl, hj⟩ := Prod.ext_iff.mp heq
    exact hne (by rw [fileSlot_inj hj])
  · rwa [hs']
  · rwa [hs']
  · rw [hs']
    exact hind ▸ hent

variable (h : s.Consistent I) (hdev : s.Reliable) (hn : n ∈ s.inode_list)
include h hdev hn

theorem get_create_direct (hindex : index < SFS_NDIRECT)
    (hslot : slot I s (n, fileSlot index) = 0) :
    (∃ b s', s.sfs_bmap_get_nolock n index true = some (.ok b, s') ∧ Created I n index b s s') ∨
    s.sfs_bmap_get_nolock n index true = some (.error (-E_NO_MEM), s) ∧ s.unused_blocks = 0 := by
  have hI := h.loaded n hn
  rw [fileSlot_direct hindex] at hslot
  have hdirect : (s.sin n).din.direct index = 0 := by
    rwa [slot_direct hI hindex, dinode_of_loaded hn] at hslot
  rcases h.alloc_spec hdev with ⟨heq, hzero⟩ | ⟨b, s1, heq, ha⟩
  · refine .inr ⟨?_, hzero⟩
    simp [sfs_bmap_get_nolock, hindex, hdirect, heq]
  · have hn1 : n ∈ s1.inode_list := ha.list ▸ hn
    have hlt : b < s1.blocks := ha.blocks ▸ h.free_lt b ha.fresh
    have hcons := ha.consistent.set_direct hn1 hindex (.inr ⟨ha.lost, hlt⟩)
    have hset := slot_set_direct (b := b) hn1 hI hindex
    set s2 := (s1.modifyDin n fun d =>
      { d with direct := update d.direct index b }).setDirty n true
    have hset' : slot I s2 = update (slot I s) (n, fileSlot index) b := by
      rw [hset, ha.slot, fileSlot_direct hindex]
    refine .inl ⟨b, s2, ?_, hcons, ?_, ?_, ?_, ha.lost.1, fun m k hne => ?_, ?_, ?_, fun hle => ?_⟩
    · have hout := get_out hcons.toMapped ha.lost.1 hlt ha.lost.2.1
      simp only [sfs_bmap_get_nolock, if_pos hindex, hdirect, true_and, if_true, heq,
        bind_eq_bind, bind_some]
      exact hout
    · exact .single (steps_take (fileSlot_direct hindex ▸ hslot) ha.fresh hset' ha.free)
    · refine ha.keeps.trans (keeps_modifyDin (fun _ => rfl) (fun _ => rfl) (fun _ => rfl) ?_ hset)
      rwa [ha.slot]
    · rw [hset', update_self]
    · rw [hset', update_of_ne]
      rintro heq'
      obtain ⟨rfl, hk⟩ := Prod.ext_iff.mp heq'
      exact hne (by rw [fileSlot_inj hk])
    · simp [s2, setDirty, modifyDin, modifySin, ha.sin]
    · rw [cost, if_neg fun hle => absurd hindex (not_lt.mpr hle.1)]
      exact ha.unused
    · exact absurd hindex (not_lt.mpr hle)

section
variable (hindex : ¬index < SFS_NDIRECT) (hk : index - SFS_NDIRECT < SFS_BLK_NENTRY)
include hindex hk

theorem get_create_entry (hind : (s.sin n).din.indirect ≠ 0)
    (hslot : slot I s (n, fileSlot index) = 0) :
    (∃ b s', s.sfs_bmap_get_nolock n index true = some (.ok b, s') ∧ Created I n index b s s') ∨
    ∃ s', s.sfs_bmap_get_nolock n index true = some (.error (-E_NO_MEM), s') ∧ Refused I s s' ∧
      s.unused_blocks = 0 := by
  have hI := h.loaded n hn
  obtain ⟨hoff, hlen⟩ := entry_bounds hk
  set ent := (s.sin n).din.indirect with hent
  have hempty := hslot
  rw [fileSlot_entry hindex] at hempty
  have hentry : s.entry ent (index - SFS_NDIRECT) = 0 := by
    rwa [slot_entry hI hk (by rwa [dinode_of_loaded hn]), dinode_of_loaded hn] at hempty
  have hlt : ent < s.blocks := by
    have hlt := h.slot_lt (n, .indirect)
    rwa [slot_indirect hI, dinode_of_loaded hn] at hlt
  obtain ⟨s0, hs0, hrbuf⟩ := hdev.rbuf (fun _ => 0) 0 hind hlt hoff hlen
  have hsub := get_sub_eq true hk hind value_entry hrbuf
  rw [hentry, if_neg (by simp)] at hsub
  have hsin0 : s0.sin = s.sin := hs0.sin
  rcases create_cases false (hs0.consistent h) (hdev.shifted hs0) hk hind
    (hs0.blocks ▸ hlt) with ⟨b, s1, s2, ha, hs2, heq⟩ | ⟨hzero, heq⟩
  · have hn1 : n ∈ s1.inode_list := by
      rwa [ha.list, hs0.list]
    have hind1 : (s1.sin n).din.indirect = ent := by rw [ha.sin, hsin0]
    have hlt1 : b < s1.blocks := by
      rw [ha.blocks]
      exact (hs0.consistent h).free_lt b ha.fresh
    have hslot1 : slot I s1 = slot I s := ha.slot.trans hs0.slot
    have hcreated : Created I n index b s { s2 with
        disk := update s1.disk ent
          (copy (s1.disk ent) ((index - SFS_NDIRECT) * 4) (byteOf b) 0 4) } := by
      refine created_of_entry s2.answer ha.consistent hn1 hind1 hind hindex hk
        (by rwa [hslot1]) ha.lost hlt1 ?_ (fun hdev1 i => hdev1.shifted hs2 i)
        (hs0.keeps.trans ha.keeps)
        (fun m j _ => by rw [hslot1]) (by rw [ha.sin, hsin0]) ?_ (.single ?_)
      · obtain ⟨i, rfl⟩ := hs2
        rfl
      · rw [cost, if_neg fun hle => hind hle.2, ← hs0.unused]
        exact ha.unused
      · have htake : Store.mk (update (slot I s1) (n, fileSlot index) b) s1.freemap.free =
            (s.store I).take (n, fileSlot index) b := by
          rw [hslot1, ha.free, hs0.freemap]
          rfl
        have hfresh : b ∈ s.freemap.free := hs0.freemap ▸ ha.fresh
        rw [htake]
        exact .take hslot hfresh
    refine .inl ⟨b, _, ?_, hcreated⟩
    have hused : b ∉ s1.freemap.free := ha.lost.2.1
    have hout := get_out hcreated.consistent.toMapped ha.lost.1 (hs2.blocks ▸ hlt1)
      (hs2.freemap ▸ hused)
    rw [← hsub] at heq
    simp only [sfs_bmap_get_nolock, if_neg hindex, if_pos hk, ← hent, heq, bind_eq_bind,
      bind_some, ne_eq, not_true_eq_false, if_false]
    exact hout
  · refine .inr ⟨s0, ?_, ⟨hs0.consistent h, hs0.store, fun _ => hs0.keeps, hsin0⟩,
      hs0.unused ▸ hzero⟩
    rw [← hsub] at heq
    simp only [sfs_bmap_get_nolock, if_neg hindex, if_pos hk, ← hent, heq,
      sfs_bmap_get_sub_nolock.cleanup, bind_eq_bind, bind_some, Bool.false_eq_true,
      if_false, Option.pure_def]

theorem get_create_indirect (hind : (s.sin n).din.indirect = 0) :
    (∃ b s', s.sfs_bmap_get_nolock n index true = some (.ok b, s') ∧ Created I n index b s s') ∨
    ∃ s', s.sfs_bmap_get_nolock n index true = some (.error (-E_NO_MEM), s') ∧ Refused I s s' ∧
      s.unused_blocks < 2 := by
  have hI := h.loaded n hn
  have hempty : slot I s (n, fileSlot index) = 0 := by
    rw [fileSlot_entry hindex]
    exact slot_entry_none (by rwa [dinode_of_loaded hn])
  have hempty' : slot I s (n, .indirect) = 0 := by
    rwa [slot_indirect hI, dinode_of_loaded hn]
  rcases h.alloc_spec hdev with ⟨heq, hzero⟩ | ⟨ent, s1, heq, ha⟩
  · refine .inr ⟨s, ?_, ⟨h, rfl, fun _ => Shifted.keeps ⟨0, rfl⟩, rfl⟩, by omega⟩
    simp [sfs_bmap_get_nolock, sfs_bmap_get_sub_nolock, hindex, hk, hind, heq]
  · have hent := ha.lost.1
    have hlt : ent < s1.blocks := ha.blocks ▸ h.free_lt ent ha.fresh
    have hsub : s.sfs_bmap_get_sub_nolock 0 (index - SFS_NDIRECT) true =
        sfs_bmap_get_sub_nolock.create ent (index - SFS_NDIRECT) true s1 := by
      simp [sfs_bmap_get_sub_nolock, hk, heq]
    rcases create_cases true ha.consistent ha.reliable hk hent hlt with
      ⟨b, s2, s3, ha2, hs3, heq'⟩ | ⟨hzero, heq'⟩
    · have hfresh := ha2.fresh
      rw [ha.free] at hfresh
      have hne : b ≠ ent := ne_of_mem_erase hfresh
      have hslot2 : slot I s2 = slot I s := ha2.slot.trans ha.slot
      have hsin2 : s2.sin = s.sin := ha2.sin.trans ha.sin
      have hn2 : n ∈ s2.inode_list := by
        rwa [ha2.list, ha.list]
      have hlt2 : b < s2.blocks := ha2.blocks ▸ ha.consistent.free_lt b ha2.fresh
      have hzero2 : s2.disk ent = fun _ => 0 := by
        rw [ha2.disk, update_of_ne hne.symm, ha.disk, update_self]
      have hlost2 : (s2.store I).Lost ent := by
        refine ⟨hent, fun hmem => ha.lost.2.1 ?_, fun r hr => ha.lost.2.2 r ?_⟩
        · rw [store, ha2.free] at hmem
          exact mem_of_mem_erase hmem
        · rwa [store, ha2.slot] at hr
      have hind2 : (s2.sin n).din.indirect = 0 := by rw [hsin2, hind]
      have hcons := ha2.consistent.set_indirect hn2 hind2 hzero2 hlost2 (ha2.blocks ▸ hlt)
      have hset := slot_set_indirect hn2 hI hind2 hzero2
      -- the order of the two writes does not matter: the block of entries is attached first
      set v := (s2.modifyDin n fun d => { d with indirect := ent }).setDirty n true with hv
      rw [hslot2] at hset
      have hvin : (v.sin n).din = { (s.sin n).din with indirect := ent } := by
        simp [hv, setDirty, modifyDin, modifySin, hsin2]
      have hfile : ∀ m j, slot I v (m, fileSlot j) = slot I s (m, fileSlot j) := fun m j => by
        rw [hset, update_of_ne fun heq => (fileSlot_ne j).2 (Prod.ext_iff.mp heq).2]
      have hlost : (v.store I).Lost b := by
        refine ⟨ha2.lost.1, ha2.lost.2.1, fun r hr => ?_⟩
        rw [store, hset] at hr
        dsimp only at hr
        rcases eq_or_ne r (n, .indirect) with rfl | hr'
        · rw [update_self] at hr
          exact hne hr.symm
        · rw [update_of_ne hr', ← hslot2] at hr
          exact ha2.lost.2.2 r hr
      have hkeeps : Keeps I n s v := by
        refine (ha.keeps.trans ha2.keeps).trans
          (keeps_modifyDin (b := ent) (r := (n, .indirect)) (fun _ => rfl) (fun _ => rfl)
            (fun _ => rfl) ?_ ?_)
        · rwa [hslot2]
        · rw [← hv, hset, hslot2]
      have hcreated : Created I n index b s (({ s3 with
          disk := update s2.disk ent
            (copy (s2.disk ent) ((index - SFS_NDIRECT) * 4) (byteOf b) 0 4) }.modifyDin n fun d =>
              { d with indirect := ent }).setDirty n true) := by
        refine created_of_entry s3.answer hcons hn2 (by rw [hvin]) hent hindex hk
          (by rw [hfile, hempty]) hlost hlt2 ?_ (fun hdev2 i => ?_) hkeeps (fun m j _ => hfile m j)
          (by rw [hvin]) ?_ ?_
        · obtain ⟨i, rfl⟩ := hs3
          rfl
        · exact ha2.reliable.shifted hs3 i
        · rw [cost, if_pos ⟨not_lt.mp hindex, hind⟩]
          have hunused := ha.unused
          have hunused2 := ha2.unused
          change s2.unused_blocks + 2 = _
          omega
        · have htake : Store.mk (update (slot I v) (n, fileSlot index) b) v.freemap.free =
              ((s.store I).take (n, .indirect) ent).take (n, fileSlot index) b := by
            have hfree : v.freemap.free = (s.freemap.free.erase ent).erase b := by
              rw [← ha.free]
              exact ha2.free
            rw [hset, hfree]
            rfl
          rw [htake]
          refine .tail (.single (.take hempty' ha.fresh)) (.take ?_ hfresh)
          rw [← hempty, ← hfile n index, hset]
          rfl
      refine .inl ⟨b, _, ?_, hcreated⟩
      have hused : b ∉ s2.freemap.free := ha2.lost.2.1
      have hout := get_out hcreated.consistent.toMapped ha2.lost.1 (hs3.blocks ▸ hlt2)
        (hs3.freemap ▸ hused)
      rw [← hsub] at heq'
      simp only [sfs_bmap_get_nolock, if_neg hindex, if_pos hk, hind, heq', bind_eq_bind,
        bind_some, ne_eq, hent, not_false_eq_true, if_true, guard, Option.pure_def]
      exact hout
    · obtain ⟨s2, hfree, hf⟩ := ha.consistent.free_spec ha.lost hlt
      refine .inr ⟨s2, ?_, ⟨hf.consistent, ?_, fun _ => ha.keeps.trans hf.keeps,
        hf.sin.trans ha.sin⟩, ?_⟩
      · simp [sfs_bmap_get_nolock, hindex, hk, hind, hsub, heq', sfs_bmap_get_sub_nolock.cleanup, hfree]
      · rw [store, store, hf.slot, ha.slot, hf.free, ha.free, insert_erase ha.fresh]
      · have hunused := ha.unused
        omega

end

/-- A missing block of a file is created unless there are too few free blocks. -/
theorem get_create (hk : index < SFS_NDIRECT + SFS_BLK_NENTRY)
    (hslot : slot I s (n, fileSlot index) = 0) :
    (∃ b s', s.sfs_bmap_get_nolock n index true = some (.ok b, s') ∧ Created I n index b s s') ∨
    ∃ s', s.sfs_bmap_get_nolock n index true = some (.error (-E_NO_MEM), s') ∧ Refused I s s' ∧
      s.unused_blocks < cost (s.sin n).din index := by
  by_cases hindex : index < SFS_NDIRECT
  · rw [cost, if_neg fun hle => absurd hindex (not_lt.mpr hle.1)]
    rcases get_create_direct h hdev hn hindex hslot with hok | ⟨heq, hzero⟩
    · exact .inl hok
    · exact .inr ⟨s, heq, ⟨h, rfl, fun _ => Shifted.keeps ⟨0, rfl⟩, rfl⟩, by omega⟩
  · have hk' : index - SFS_NDIRECT < SFS_BLK_NENTRY := by omega
    by_cases hind : (s.sin n).din.indirect = 0
    · rw [cost, if_pos ⟨not_lt.mp hindex, hind⟩]
      exact get_create_indirect h hdev hn hindex hk' hind
    · rw [cost, if_neg fun hle => hind hle.2]
      rcases get_create_entry h hdev hn hindex hk' hind hslot with hok | ⟨s', heq, href, hzero⟩
      · exact .inl hok
      · exact .inr ⟨s', heq, href, by omega⟩

theorem get_read (create : Bool) (hk : index < SFS_NDIRECT + SFS_BLK_NENTRY)
    (hread : slot I s (n, fileSlot index) ≠ 0 ∨ create = false) :
    ∃ s', Shifted s s' ∧
      s.sfs_bmap_get_nolock n index create = some (.ok (slot I s (n, fileSlot index)), s') := by
  have hI := h.loaded n hn
  have hout : ∀ s', Shifted s s' →
      sfs_bmap_get_nolock.out (slot I s (n, fileSlot index)) s' =
        some (.ok (slot I s (n, fileSlot index)), s') := fun s' hs' => by
    by_cases hzero : slot I s (n, fileSlot index) = 0
    · simp [sfs_bmap_get_nolock.out, hzero]
    · refine get_out (hs'.consistent h).toMapped hzero ?_ ?_
      · rw [hs'.blocks]
        exact h.slot_lt _
      · rw [hs'.freemap]
        exact h.not_free _
  by_cases hindex : index < SFS_NDIRECT
  · have hdirect : slot I s (n, fileSlot index) = (s.sin n).din.direct index := by
      rw [fileSlot_direct hindex, slot_direct hI hindex, dinode_of_loaded hn]
    rw [hdirect] at hread hout ⊢
    have hnot : ¬((s.sin n).din.direct index = 0 ∧ create = true) := fun ⟨hzero, hcreate⟩ => by
      rcases hread with hne | hfalse
      · exact hne hzero
      · rw [hcreate] at hfalse
        cases hfalse
    refine ⟨s, ⟨0, rfl⟩, ?_⟩
    simp only [sfs_bmap_get_nolock, if_pos hindex, if_neg hnot]
    exact hout s ⟨0, rfl⟩
  · have hk' : index - SFS_NDIRECT < SFS_BLK_NENTRY := by omega
    have hfile := fileSlot_entry hindex
    by_cases hind : (s.sin n).din.indirect = 0
    · have hzero : slot I s (n, fileSlot index) = 0 := by
        rw [hfile]
        exact slot_entry_none (by rwa [dinode_of_loaded hn])
      have hfalse := hread.resolve_left fun hne => hne hzero
      refine ⟨s, ⟨0, rfl⟩, ?_⟩
      simp [sfs_bmap_get_nolock, sfs_bmap_get_sub_nolock, sfs_bmap_get_nolock.out, hindex, hk', hind,
        hfalse, hzero]
    · obtain ⟨hoff, hlen⟩ := entry_bounds hk'
      have hentry : slot I s (n, fileSlot index) =
          s.entry (s.sin n).din.indirect (index - SFS_NDIRECT) := by
        rw [hfile, slot_entry hI hk' (by rwa [dinode_of_loaded hn]), dinode_of_loaded hn]
      have hlt := h.slot_lt (n, .indirect)
      rw [slot_indirect hI, dinode_of_loaded hn] at hlt
      obtain ⟨s0, hs0, hrbuf⟩ := hdev.rbuf (fun _ => 0) 0 hind hlt hoff hlen
      have hsub := get_sub_eq create hk' hind value_entry hrbuf
      rw [← hentry, if_pos (by simpa using hread)] at hsub
      refine ⟨s0, hs0, ?_⟩
      simp only [sfs_bmap_get_nolock, if_neg hindex, if_pos hk', hsub, bind_eq_bind,
        bind_some, ne_eq, not_true_eq_false, if_false]
      exact hout s0 hs0

end ucore.sfs_fs
