import Mips32S.Kernel.Sfs.File
import Mips32S.Lib.Ownership

open layout ownership Function Finset

namespace ucore

namespace sfs_disk_inode

variable {d d' : sfs_disk_inode}

/-- Two inodes that refer to the same blocks. -/
structure SameRefs (d d' : sfs_disk_inode) : Prop where
  direct : ∀ k < SFS_NDIRECT, d.direct k = d'.direct k
  indirect : d.indirect = d'.indirect

theorem read_bytes {b : ℕ → BitVec 8} (hb : ∀ i < sizeof, b i = d.bytes i)
    (hdirect : ∀ k < SFS_NDIRECT, d.direct k < 2 ^ 32) (hindirect : d.indirect < 2 ^ 32) :
    SameRefs (read b) d := by
  have hpow : 256 ^ 4 = 2 ^ 32 := rfl
  constructor
  · intro k hk
    have hk' : k < 12 := hk
    have heq : value 4 (fun i => b (12 + 4 * k + i)) = value 4 (byteOf (d.direct k)) := by
      refine value_congr fun i hi => ?_
      have hsize : 12 + 4 * k + i < sizeof := by
        have : sizeof = 64 := rfl
        omega
      have hdiv : (12 + 4 * k + i - 12) / 4 = k := by omega
      have hmod : (12 + 4 * k + i - 12) % 4 = i := by omega
      rw [hb _ hsize, bytes, if_neg (by omega), if_neg (by omega), if_neg (by omega),
        if_neg (by omega), if_pos (by omega), hdiv, hmod]
    simp only [read, if_pos hk]
    rw [heq, value_byteOf, hpow, Nat.mod_eq_of_lt (hdirect k hk)]
  · have heq : value 4 (fun i => b (60 + i)) = value 4 (byteOf d.indirect) := by
      refine value_congr fun i hi => ?_
      have hsize : 60 + i < sizeof := by
        have : sizeof = 64 := rfl
        omega
      rw [hb _ hsize, bytes, if_neg (by omega), if_neg (by omega), if_neg (by omega),
        if_neg (by omega), if_neg (by omega), Nat.add_sub_cancel_left]
    simp only [read]
    rw [heq, value_byteOf, hpow, Nat.mod_eq_of_lt hindirect]

end sfs_disk_inode

/-- A place where an inode refers to a block. -/
inductive Slot
  | inode
  | direct (k : ℕ)
  | indirect
  | entry (k : ℕ)
  deriving DecidableEq

namespace sfs_fs

variable {I : Finset ℕ} {s s' : sfs_fs} {n m b c k unused : ℕ} {σ : Slot}

/-- An inode as the file system knows it. -/
def dinode (s : sfs_fs) (n : ℕ) : sfs_disk_inode :=
  if n ∈ s.inode_list then (s.sin n).din else .read (s.disk n)

/-- The entry number `k` of a block. -/
def entry (s : sfs_fs) (b k : ℕ) : ℕ := value 4 fun i => s.disk b (k * 4 + i)

/-- The block that the inode `n` with the contents `d` refers to. -/
def slotOf (s : sfs_fs) (d : sfs_disk_inode) (n : ℕ) : Slot → ℕ
  | .inode => n
  | .direct k => if k < SFS_NDIRECT then d.direct k else 0
  | .indirect => d.indirect
  | .entry k => if k < SFS_BLK_NENTRY ∧ d.indirect ≠ 0 then s.entry d.indirect k else 0

/-- The blocks that the inodes of `I` refer to. -/
def slot (I : Finset ℕ) (s : sfs_fs) (r : ℕ × Slot) : ℕ :=
  if r.1 ∈ I then s.slotOf (s.dinode r.1) r.1 r.2 else 0

/-- The blocks that the inodes of `I` own. -/
def store (I : Finset ℕ) (s : sfs_fs) : Store (ℕ × Slot) := ⟨slot I s, s.freemap.free⟩

/-- The slot of the block number `k` of a file. -/
def fileSlot (k : ℕ) : Slot := if k < SFS_NDIRECT then .direct k else .entry (k - SFS_NDIRECT)

theorem slot_inode (hn : n ∈ I) : slot I s (n, .inode) = n := if_pos hn

theorem slot_indirect (hn : n ∈ I) : slot I s (n, .indirect) = (s.dinode n).indirect := if_pos hn

theorem slot_direct (hn : n ∈ I) (hk : k < SFS_NDIRECT) :
    slot I s (n, .direct k) = (s.dinode n).direct k := by
  rw [slot, if_pos hn]
  exact if_pos hk

theorem slot_entry (hn : n ∈ I) (hk : k < SFS_BLK_NENTRY) (hind : (s.dinode n).indirect ≠ 0) :
    slot I s (n, .entry k) = s.entry (s.dinode n).indirect k := by
  rw [slot, if_pos hn]
  exact if_pos ⟨hk, hind⟩

theorem slot_entry_none (hind : (s.dinode n).indirect = 0) : slot I s (n, .entry k) = 0 := by
  rw [slot]
  split
  · exact if_neg fun h => h.2 hind
  · rfl

theorem dinode_of_loaded (hn : n ∈ s.inode_list) : s.dinode n = (s.sin n).din := if_pos hn

theorem slotOf_congr {d d' : sfs_disk_inode} (hrefs : d.SameRefs d')
    (hentry : d'.indirect ≠ 0 → ∀ k < SFS_BLK_NENTRY, s'.entry d'.indirect k = s.entry d'.indirect k) :
    s'.slotOf d n σ = s.slotOf d' n σ := by
  cases σ with
  | inode => rfl
  | indirect => exact hrefs.indirect
  | direct k =>
    by_cases hk : k < SFS_NDIRECT
    · simp only [slotOf, if_pos hk]
      exact hrefs.direct k hk
    · simp only [slotOf, if_neg hk]
  | entry k =>
    simp only [slotOf, hrefs.indirect]
    by_cases hk : k < SFS_BLK_NENTRY ∧ d'.indirect ≠ 0
    · rw [if_pos hk, if_pos hk, hentry hk.2 k hk.1]
    · rw [if_neg hk, if_neg hk]

/-- The map of the free blocks is right for the inodes of `I`. -/
structure Mapped (I : Finset ℕ) (s : sfs_fs) : Prop where
  store : (s.store I).Inv
  ok : s.freemap.Ok
  nbits : s.blocks ≤ s.freemap.nbits
  pos : 0 < s.blocks
  small : s.blocks ≤ 2 ^ 32
  free_lt : ∀ b ∈ s.freemap.free, b < s.blocks
  slot_lt : ∀ r, slot I s r < s.blocks
  unused : s.unused_blocks = s.freemap.free.card

/-- The inodes in memory that are not dirty refer to the same blocks as on the disk. -/
structure Consistent (I : Finset ℕ) (s : sfs_fs) : Prop extends Mapped I s where
  zero : 0 ∉ I
  loaded : ∀ n ∈ s.inode_list, n ∈ I
  nodup : s.inode_list.Nodup
  clean : ∀ n ∈ s.inode_list, (s.sin n).dirty = false →
    (sfs_disk_inode.read (s.disk n)).SameRefs (s.sin n).din

/-- The block is not read as an inode or as a block of entries. -/
def Data (I : Finset ℕ) (s : sfs_fs) (c : ℕ) : Prop := ∀ m ∈ I, m ≠ c ∧ (s.dinode m).indirect ≠ c

theorem slot_congr (hlist : s'.inode_list = s.inode_list)
    (hsin : ∀ m ∈ s.inode_list, (s'.sin m).din.SameRefs (s.sin m).din)
    (hdisk : ∀ m ∈ I, m ∉ s.inode_list → s'.disk m = s.disk m)
    (hentry : ∀ m ∈ I, (s.dinode m).indirect ≠ 0 →
      s'.disk (s.dinode m).indirect = s.disk (s.dinode m).indirect) : slot I s' = slot I s := by
  funext ⟨m, σ⟩
  unfold slot
  by_cases hm : m ∈ I
  · rw [if_pos hm, if_pos hm]
    refine slotOf_congr ?_ fun hind k hk => ?_
    · unfold dinode
      rw [hlist]
      by_cases hl : m ∈ s.inode_list
      · rw [if_pos hl, if_pos hl]
        exact hsin m hl
      · rw [if_neg hl, if_neg hl, hdisk m hm hl]
        exact ⟨fun _ _ => rfl, rfl⟩
    · rw [entry, entry, hentry m hm hind]
  · rw [if_neg hm, if_neg hm]

theorem Data.slot_eq {x : ℕ → BitVec 8} (hc : Data I s c) (hlist : s'.inode_list = s.inode_list)
    (hsin : s'.sin = s.sin) (hdisk : s'.disk = update s.disk c x) :
    slot I s' = slot I s := by
  refine slot_congr hlist (fun m _ => hsin ▸ ⟨fun _ _ => rfl, rfl⟩) (fun m hm _ => ?_)
    fun m hm _ => ?_
  · rw [hdisk, update_of_ne (hc m hm).1]
  · rw [hdisk, update_of_ne (hc m hm).2]

section
variable (h : s.Mapped I)
include h

theorem Mapped.not_free (r : ℕ × Slot) : slot I s r ∉ s.freemap.free := h.store.used r

theorem Mapped.slot_unique {r r' : ℕ × Slot} (heq : slot I s r = slot I s r')
    (hne : slot I s r ≠ 0) : r = r' := h.store.once r r' heq hne

theorem Mapped.data_of_free (hc : c ∈ s.freemap.free) : Data I s c := by
  refine fun m hm => ⟨fun heq => h.not_free (m, .inode) ?_, fun heq => h.not_free (m, .indirect) ?_⟩
  · rwa [slot_inode hm, heq]
  · rwa [slot_indirect hm, heq]

theorem Mapped.data_of_slot (hne : slot I s (n, fileSlot k) ≠ 0) :
    Data I s (slot I s (n, fileSlot k)) := by
  have hslot : fileSlot k ≠ .inode ∧ fileSlot k ≠ .indirect := by
    unfold fileSlot
    split <;> simp
  refine fun m hm => ⟨fun heq => ?_, fun heq => ?_⟩
  · have hsame := h.slot_unique ((slot_inode hm).trans heq).symm hne
    exact hslot.1 (Prod.ext_iff.mp hsame).2
  · have hsame := h.slot_unique ((slot_indirect hm).trans heq).symm hne
    exact hslot.2 (Prod.ext_iff.mp hsame).2

end

section
variable {fm : bitmap} {x : ℕ → BitVec 8} {ans : ℕ → ℤ}

theorem Mapped.congr (h : s.Mapped I) (hslot : slot I s' = slot I s)
    (hblocks : s'.blocks = s.blocks) (hfreemap : s'.freemap = s.freemap)
    (hunused : s'.unused_blocks = s.unused_blocks) : s'.Mapped I := by
  have hstore : s'.store I = s.store I := by rw [sfs_fs.store, sfs_fs.store, hslot, hfreemap]
  refine ⟨hstore ▸ h.store, hfreemap ▸ h.ok, ?_, hblocks ▸ h.pos, hblocks ▸ h.small, ?_, fun r => ?_,
    ?_⟩
  · rw [hblocks, hfreemap]
    exact h.nbits
  · rw [hblocks, hfreemap]
    exact h.free_lt
  · rw [hslot, hblocks]
    exact h.slot_lt r
  · rw [hunused, hfreemap]
    exact h.unused

theorem Consistent.congr (h : s.Consistent I) (hslot : slot I s' = slot I s)
    (hblocks : s'.blocks = s.blocks) (hfreemap : s'.freemap = s.freemap)
    (hunused : s'.unused_blocks = s.unused_blocks) (hlist : s'.inode_list = s.inode_list)
    (hclean : ∀ n ∈ s.inode_list, (s'.sin n).dirty = false →
      (sfs_disk_inode.read (s'.disk n)).SameRefs (s'.sin n).din) : s'.Consistent I :=
  ⟨h.toMapped.congr hslot hblocks hfreemap hunused, h.zero, hlist ▸ h.loaded, hlist ▸ h.nodup,
    hlist ▸ hclean⟩

theorem Consistent.remap {disk : ℕ → ℕ → BitVec 8} (h : s.Consistent I)
    (hs' : s' = { s with
      freemap := fm, unused_blocks := unused, super_dirty := true, disk, answer := ans })
    (hslot : slot I s' = slot I s) (hdisk : ∀ n ∈ s.inode_list, disk n = s.disk n)
    (hinv : Store.Inv ⟨slot I s, fm.free⟩) (hok : fm.Ok) (hnbits : fm.nbits = s.freemap.nbits)
    (hlt : ∀ c ∈ fm.free, c < s.blocks) (hunused : unused = fm.free.card) : s'.Consistent I := by
  have hstore : s'.store I = ⟨slot I s, fm.free⟩ := by
    rw [store, hslot, hs']
  have hslot_lt : ∀ r, slot I s' r < s'.blocks := fun r => by
    rw [hslot, hs']
    exact h.slot_lt r
  have hinv' : (s'.store I).Inv := hstore ▸ hinv
  subst hs'
  refine ⟨⟨hinv', hok, hnbits ▸ h.nbits, h.pos, h.small, hlt, hslot_lt, hunused⟩, h.zero, h.loaded,
    h.nodup, fun n hn hdirty => ?_⟩
  dsimp only
  rw [hdisk n hn]
  exact h.clean n hn hdirty

/-- A free block is taken and written, and belongs to nobody yet. -/
theorem Consistent.take (h : s.Consistent I) (hb : b ∈ s.freemap.free) (hok : fm.Ok)
    (hnbits : fm.nbits = s.freemap.nbits) (hfree : fm.free = s.freemap.free.erase b)
    (hs' : s' = { s with
      freemap := fm, unused_blocks := s.unused_blocks - 1, super_dirty := true
      disk := update s.disk b x, answer := ans }) :
    s'.Consistent I ∧ slot I s' = slot I s ∧ (s'.store I).Lost b := by
  have hdata := h.data_of_free hb
  have hslot : slot I s' = slot I s := by
    subst hs'
    exact hdata.slot_eq rfl rfl rfl
  have hcard := card_erase_add_one hb
  have hunused := h.unused
  refine ⟨h.remap hs' hslot (fun n hn => ?_) ?_ hok hnbits (fun c hc => ?_) ?_, hslot, ?_⟩
  · exact update_of_ne (hdata n (h.loaded n hn)).1 _ _
  · rw [hfree]
    exact h.store.erase b
  · rw [hfree] at hc
    exact h.free_lt c (mem_of_mem_erase hc)
  · rw [hfree]
    omega
  · have hstore : s'.store I = ⟨slot I s, s.freemap.free.erase b⟩ := by
      rw [store, hslot, hs', hfree]
    rw [hstore]
    exact h.store.erase_lost hb

theorem Consistent.give (h : s.Consistent I) (hb : (s.store I).Lost b) (hlt : b < s.blocks)
    (hok : fm.Ok) (hnbits : fm.nbits = s.freemap.nbits) (hfree : fm.free = insert b s.freemap.free)
    (hs' : s' = { s with
      freemap := fm, unused_blocks := s.unused_blocks + 1, super_dirty := true }) :
    s'.Consistent I ∧ slot I s' = slot I s := by
  have hslot : slot I s' = slot I s := by
    subst hs'
    exact slot_congr rfl (fun _ _ => ⟨fun _ _ => rfl, rfl⟩) (fun _ _ _ => rfl) fun _ _ _ => rfl
  have hnot : b ∉ s.freemap.free := hb.2.1
  refine ⟨h.remap hs' hslot (fun n hn => rfl) ?_ hok hnbits (fun c hc => ?_) ?_, hslot⟩
  · rw [hfree]
    exact h.store.insert hb
  · rw [hfree] at hc
    rcases mem_insert.mp hc with rfl | hc'
    · exact hlt
    · exact h.free_lt c hc'
  · rw [hfree, card_insert_of_notMem hnot, h.unused]

theorem Consistent.set {r : ℕ × Slot} (h : s.Consistent I) (hblocks : s'.blocks = s.blocks)
    (hfreemap : s'.freemap = s.freemap) (hunused : s'.unused_blocks = s.unused_blocks)
    (hlist : s'.inode_list = s.inode_list) (hslot : slot I s' = update (slot I s) r b)
    (hb : b = 0 ∨ (s.store I).Lost b ∧ b < s.blocks)
    (hclean : ∀ n ∈ s.inode_list, (s'.sin n).dirty = false →
      (sfs_disk_inode.read (s'.disk n)).SameRefs (s'.sin n).din) : s'.Consistent I := by
  have hstore : s'.store I = ⟨update (slot I s) r b, s.freemap.free⟩ := by
    rw [store, hslot, hfreemap]
  refine ⟨⟨?_, hfreemap ▸ h.ok, ?_, hblocks ▸ h.pos, hblocks ▸ h.small, ?_, fun r' => ?_, ?_⟩, h.zero,
    hlist ▸ h.loaded, hlist ▸ h.nodup, hlist ▸ hclean⟩
  · rw [hstore]
    exact h.store.set r (hb.imp_right And.left)
  · rw [hblocks, hfreemap]
    exact h.nbits
  · rw [hblocks, hfreemap]
    exact h.free_lt
  · rw [hslot, hblocks]
    rcases eq_or_ne r' r with rfl | hr
    · rw [update_self]
      rcases hb with rfl | ⟨-, hlt⟩
      · exact h.pos
      · exact hlt
    · rw [update_of_ne hr]
      exact h.slot_lt r'
  · rw [hunused, hfreemap]
    exact h.unused

theorem slot_modifyDin {f : sfs_disk_inode → sfs_disk_inode} (hn : n ∈ s.inode_list) (hI : n ∈ I) :
    slot I (s.modifyDin n f) (m, σ) =
      if m = n then s.slotOf (f (s.sin n).din) n σ else slot I s (m, σ) := by
  have hdisk : ∀ d, (s.modifyDin n f).slotOf d m σ = s.slotOf d m σ := fun d => by
    cases σ <;> rfl
  by_cases hmn : m = n
  · subst hmn
    have hn' : m ∈ (s.modifyDin m f).inode_list := hn
    have hd : (s.modifyDin m f).dinode m = f (s.sin m).din := by
      rw [dinode_of_loaded hn']
      simp [modifyDin, modifySin]
    rw [if_pos rfl, slot, if_pos hI, hdisk, hd]
  · have hd : (s.modifyDin n f).dinode m = s.dinode m := by
      simp [dinode, modifyDin, modifySin, hmn]
    rw [if_neg hmn, slot, hd, hdisk, slot]

theorem slot_setDirty {v : Bool} : slot I (s.setDirty n v) = slot I s := by
  refine slot_congr rfl (fun m _ => ?_) (fun _ _ _ => rfl) fun _ _ _ => rfl
  have hdin : ((s.setDirty n v).sin m).din = (s.sin m).din := by
    by_cases hm : m = n
    · subst hm
      simp [setDirty, modifySin]
    · simp [setDirty, modifySin, hm]
  rw [hdin]
  exact ⟨fun _ _ => rfl, rfl⟩

theorem Consistent.same_refs (h : s.Consistent I) {x : sfs_inode}
    (hrefs : x.din.SameRefs (s.sin n).din) (hdirty : x.dirty = false → (s.sin n).dirty = false) :
    (s.modifySin n fun _ => x).Consistent I ∧ slot I (s.modifySin n fun _ => x) = slot I s := by
  have hsin : ∀ m, ((s.modifySin n fun _ => x).sin m).din.SameRefs (s.sin m).din := fun m => by
    by_cases hm : m = n
    · subst hm
      simpa [modifySin] using hrefs
    · simpa [modifySin, hm] using ⟨fun _ _ => rfl, rfl⟩
  have hslot : slot I (s.modifySin n fun _ => x) = slot I s :=
    slot_congr rfl (fun m _ => hsin m) (fun _ _ _ => rfl) fun _ _ _ => rfl
  refine ⟨h.congr hslot rfl rfl rfl rfl fun m hm hclean => ?_, hslot⟩
  have hold : (s.sin m).dirty = false := by
    by_cases hmn : m = n
    · subst hmn
      exact hdirty (by simpa [modifySin] using hclean)
    · simpa [modifySin, hmn] using hclean
  have hsame := h.clean m hm hold
  exact ⟨fun k hk => (hsame.direct k hk).trans ((hsin m).direct k hk).symm,
    hsame.indirect.trans (hsin m).indirect.symm⟩

theorem Consistent.overwrite (h : s.Consistent I) (hc : Data I s c)
    (hs' : s' = { s with disk := update s.disk c x, answer := ans }) :
    s'.Consistent I ∧ slot I s' = slot I s := by
  have hslot : slot I s' = slot I s := by
    subst hs'
    exact hc.slot_eq rfl rfl rfl
  refine ⟨?_, hslot⟩
  subst hs'
  refine h.congr hslot rfl rfl rfl rfl fun n hn hdirty => ?_
  dsimp only
  rw [update_of_ne (hc n (h.loaded n hn)).1]
  exact h.clean n hn hdirty

end

/-- A file system with one inode, which refers to no block of entries. -/
theorem Consistent.of_direct (hlist : s.inode_list = [n]) (hn : n ≠ 0)
    (hind : (s.sin n).din.indirect = 0) (hok : s.freemap.Ok) (hnbits : s.blocks ≤ s.freemap.nbits)
    (hsmall : s.blocks ≤ 2 ^ 32) (hfree : ∀ b ∈ s.freemap.free, b ≠ 0 ∧ b ≠ n ∧ b < s.blocks)
    (hlt : n < s.blocks) (hunused : s.unused_blocks = s.freemap.free.card)
    (hdirect : ∀ k < SFS_NDIRECT, (s.sin n).din.direct k < s.blocks ∧
      (s.sin n).din.direct k ∉ s.freemap.free ∧ (s.sin n).din.direct k ≠ n)
    (honce : ∀ k < SFS_NDIRECT, ∀ k' < SFS_NDIRECT,
      (s.sin n).din.direct k = (s.sin n).din.direct k' → (s.sin n).din.direct k ≠ 0 → k = k')
    (hclean : (s.sin n).dirty = false →
      (sfs_disk_inode.read (s.disk n)).SameRefs (s.sin n).din) : s.Consistent {n} := by
  have hin : n ∈ s.inode_list := by simp [hlist]
  have hcases : ∀ r, slot {n} s r = 0 ∨ r = (n, .inode) ∧ slot {n} s r = n ∨
      ∃ k < SFS_NDIRECT, r = (n, .direct k) ∧ slot {n} s r = (s.sin n).din.direct k := by
    rintro ⟨m, σ⟩
    by_cases hm : m = n
    · subst hm
      cases σ with
      | inode => exact .inr (.inl ⟨rfl, slot_inode (by simp)⟩)
      | indirect =>
        rw [slot_indirect (by simp), dinode_of_loaded hin]
        exact .inl hind
      | entry k =>
        rw [← dinode_of_loaded hin] at hind
        exact .inl (slot_entry_none hind)
      | direct k =>
        by_cases hk : k < SFS_NDIRECT
        · rw [slot_direct (by simp) hk, dinode_of_loaded hin]
          exact .inr (.inr ⟨k, hk, rfl, rfl⟩)
        · simp [slot, slotOf, hk]
    · simp [slot, hm]
  refine ⟨⟨⟨fun h => (hfree 0 h).1 rfl, fun r hr => ?_, fun r r' heq hne => ?_⟩, hok, hnbits,
    by omega, hsmall, fun b hb => (hfree b hb).2.2, fun r => ?_, hunused⟩, by simpa using hn.symm,
    by simp [hlist], by simp [hlist], by simpa [hlist] using hclean⟩
  · have hr : slot {n} s r ∈ s.freemap.free := hr
    obtain h | ⟨-, h⟩ | ⟨k, hk, -, h⟩ := hcases r
    · exact (hfree _ hr).1 h
    · exact (hfree _ hr).2.1 h
    · exact (hdirect k hk).2.1 (h ▸ hr)
  · change slot {n} s r = slot {n} s r' at heq
    change slot {n} s r ≠ 0 at hne
    obtain h | ⟨rfl, h⟩ | ⟨k, hk, rfl, h⟩ := hcases r <;>
      obtain h' | ⟨rfl, h'⟩ | ⟨k', hk', rfl, h'⟩ := hcases r'
    all_goals first
      | exact absurd h hne
      | exact absurd (heq.trans h') hne
      | rfl
      | skip
    · exact absurd (h'.symm.trans (heq.symm.trans h)) (hdirect k' hk').2.2
    · exact absurd (h.symm.trans (heq.trans h')) (hdirect k hk).2.2
    · obtain rfl := honce k hk k' hk' (h.symm.trans (heq.trans h')) (h ▸ hne)
      rfl
  · obtain h | ⟨-, h⟩ | ⟨k, hk, -, h⟩ := hcases r
    · omega
    · omega
    · exact h ▸ (hdirect k hk).1

/-- A file system of eight blocks with one empty file, whose inode is in the block 3. -/
def emptyFile : sfs_fs where
  blocks := 8
  unused_blocks := 4
  super_dirty := false
  freemap := ⟨32, 1, fun _ => 0xf0#32⟩
  disk _ _ := 0
  answer _ := 0
  inode_list := [3]
  sin _ := ⟨⟨0, SFS_TYPE_FILE, 1, 0, fun _ => 0, 0⟩, false, 1, 1⟩

theorem slot_emptyFile (r : ℕ × Slot) :
    slot {3} emptyFile r = if r = (3, .inode) then 3 else 0 := by
  obtain ⟨m, σ⟩ := r
  by_cases hm : m = 3
  · subst hm
    cases σ <;> simp [slot, slotOf, dinode, emptyFile]
  · simp [slot, hm]

theorem emptyFile_consistent : emptyFile.Consistent {3} := by
  have hzero : value 4 (fun _ => (0 : BitVec 8)) = 0 := value_zero 4
  have hok : emptyFile.freemap.Ok := ⟨by decide, fun i hi hi' => by
    have h32 : emptyFile.freemap.nbits = emptyFile.freemap.nwords * WORD_BITS := rfl
    omega⟩
  exact .of_direct rfl (by decide) rfl hok (by decide) (by decide) (by decide) (by decide)
    (by decide) (by decide) (by decide) fun _ => ⟨fun k hk => (if_pos hk).trans hzero, hzero⟩

end sfs_fs

end ucore
