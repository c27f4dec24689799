import Mips32S.Kernel.Sfs.Mapping

open layout ownership

namespace ucore.sfs_fs

variable {I : Finset ℕ} {s s' s'' : sfs_fs} {n m b k index last : ℕ}

/-- There are enough free blocks for the file `n` to grow up to the block number `last`. -/
def Enough (n last : ℕ) (s : sfs_fs) : Prop :=
  last + 1 - (s.sin n).din.blocks +
    (if SFS_NDIRECT ≤ last ∧ (s.sin n).din.indirect = 0 then 1 else 0) ≤ s.unused_blocks

instance : Decidable (s.Enough n last) := inferInstanceAs (Decidable (_ ≤ _))

/-- What a successful call of `sfs_bmap_load_nolock` does. -/
structure Loaded (I : Finset ℕ) (n index b : ℕ) (s s' : sfs_fs) : Prop where
  consistent : s'.Consistent I
  steps : (s.store I).Steps (s'.store I)
  keeps : Keeps I n s s'
  slot : slot I s' (n, fileSlot index) = b
  ne_zero : b ≠ 0
  others : ∀ m k, (m, k) ≠ (n, index) →
    sfs_fs.slot I s' (m, fileSlot k) = sfs_fs.slot I s (m, fileSlot k)
  index_le : index ≤ (s.sin n).din.blocks
  nblocks : (s'.sin n).din.blocks = max (s.sin n).din.blocks (index + 1)
  shifted : index < (s.sin n).din.blocks → Shifted s s'
  enough : ∀ last, index ≤ last → s.Enough n last → s'.Enough n last

theorem append_spec (h : s.Consistent I) (n : ℕ) :
    (s.modifyDin n fun d => { d with blocks := d.blocks + 1 }).Consistent I ∧
    slot I (s.modifyDin n fun d => { d with blocks := d.blocks + 1 }) = slot I s ∧
    Keeps I n s (s.modifyDin n fun d => { d with blocks := d.blocks + 1 }) := by
  have hself : ((s.modifyDin n fun d => { d with blocks := d.blocks + 1 }).sin n) = { s.sin n with
      din := { (s.sin n).din with blocks := (s.sin n).din.blocks + 1 } } := by
    simp [modifyDin, modifySin]
  obtain ⟨hcons, hslot⟩ := h.same_refs
    (x := { s.sin n with din := { (s.sin n).din with blocks := (s.sin n).din.blocks + 1 } })
    ⟨fun _ _ => rfl, rfl⟩ id
  refine ⟨hcons, hslot, ⟨⟨rfl, rfl, fun m hm => ?_, ?_, ?_, ?_, ?_, ?_, id, fun _ _ => rfl⟩,
    fun r _ => ?_⟩, fun _ _ _ => rfl⟩
  · simp [modifyDin, modifySin, hm]
  · rw [hself]
  · rw [hself]
  · rw [hself]
  · rw [hself]
  · rw [hself]
  · exact congrFun hslot r

theorem loaded_shift (h : s.Consistent I) (hs' : Shifted s s') (hlt : index < (s.sin n).din.blocks)
    (hslot : slot I s (n, fileSlot index) ≠ 0) :
    Loaded I n index (slot I s (n, fileSlot index)) s s' := by
  refine ⟨hs'.consistent h, hs'.store ▸ .refl, hs'.keeps, by rw [hs'.slot], hslot,
    fun m k _ => by rw [hs'.slot], hlt.le, ?_, fun _ => hs', fun last _ henough => ?_⟩
  · rw [hs'.sin]
    omega
  · unfold Enough at henough ⊢
    rwa [hs'.sin, hs'.unused]

variable (h : s.Consistent I) (hn : n ∈ s.inode_list)
include h hn

theorem Keeps.indirect (hkeeps : Keeps I n s s') (hind : (s.sin n).din.indirect ≠ 0) :
    (s'.sin n).din.indirect ≠ 0 := by
  have hI := h.loaded n hn
  have hn' : n ∈ s'.inode_list := hkeeps.list ▸ hn
  have hold : sfs_fs.slot I s (n, .indirect) = (s.sin n).din.indirect := by
    rw [slot_indirect hI, dinode_of_loaded hn]
  have hsame := hkeeps.slot (n, .indirect) (hold ▸ hind)
  rw [hold, slot_indirect hI, dinode_of_loaded hn'] at hsame
  rwa [hsame]

theorem loaded_append (h' : s'.Consistent I) (hsteps : (s.store I).Steps (s'.store I))
    (hkeeps : Keeps I n s s') (hslot : slot I s' (n, fileSlot index) = b) (hb : b ≠ 0)
    (hothers : ∀ m k, (m, k) ≠ (n, index) → slot I s' (m, fileSlot k) = slot I s (m, fileSlot k))
    (hnblocks : (s'.sin n).din.blocks = (s.sin n).din.blocks)
    (hindex : index = (s.sin n).din.blocks)
    (hunused : s'.unused_blocks = s.unused_blocks ∨
      s'.unused_blocks + cost (s.sin n).din index = s.unused_blocks ∧
        (SFS_NDIRECT ≤ index → (s'.sin n).din.indirect ≠ 0)) :
    Loaded I n index b s (s'.modifyDin n fun d => { d with blocks := d.blocks + 1 }) := by
  obtain ⟨hcons, hslot', hkeeps'⟩ := append_spec h' n
  set s2 := s'.modifyDin n fun d => { d with blocks := d.blocks + 1 } with hs2
  have hself : (s2.sin n).din = { (s'.sin n).din with blocks := (s'.sin n).din.blocks + 1 } := by
    simp [hs2, modifyDin, modifySin]
  have hblocks : (s2.sin n).din.blocks = (s.sin n).din.blocks + 1 := by rw [hself, ← hnblocks]
  have hindirect : (s2.sin n).din.indirect = (s'.sin n).din.indirect := by rw [hself]
  have hkept := hkeeps.indirect h hn
  have hstore : s2.store I = s'.store I := by
    rw [store, hslot']
    rfl
  refine ⟨hcons, hstore ▸ hsteps, hkeeps.trans hkeeps', by rw [hslot', hslot], hb,
    fun m k hne => by rw [hslot', hothers m k hne], hindex.le, by rw [hblocks]; omega,
    fun hlt => by omega, fun last hle henough => ?_⟩
  have hfree : s2.unused_blocks = s'.unused_blocks := rfl
  unfold Enough cost at *
  rw [hblocks, hindirect, hfree]
  by_cases hind : (s.sin n).din.indirect = 0
  · by_cases hind' : (s'.sin n).din.indirect = 0
    · split_ifs at * <;> omega
    · split_ifs at * <;> omega
  · simp only [hind, hkept hind, and_false, if_false] at *
    omega

omit h hn in
theorem load_of_get (hle : index ≤ (s.sin n).din.blocks)
    (hget : s.sfs_bmap_get_nolock n index (decide (index = (s.sin n).din.blocks)) =
      some (.ok b, s'))
    (h' : s'.Consistent I) (hslot : slot I s' (n, fileSlot index) = b) (hb : b ≠ 0) :
    s.sfs_bmap_load_nolock n index = some (.ok b, if index = (s.sin n).din.blocks then
      s'.modifyDin n fun d => { d with blocks := d.blocks + 1 } else s') := by
  have hinuse : s'.sfs_block_inuse b = some true := by
    rw [h'.block_inuse hb (hslot ▸ h'.slot_lt _)]
    simp [← hslot, h'.not_free]
  by_cases hindex : index = (s.sin n).din.blocks
  · simp only [hindex, decide_true] at hget
    simp [sfs_bmap_load_nolock, hindex, hget, hinuse]
  · simp only [hindex, decide_false] at hget
    simp [sfs_bmap_load_nolock, hindex, hget, hinuse, hle]

variable (hdev : s.Reliable)
include hdev

/-- A block that exists is found, the next block is appended, and any other one is an error of the
caller. -/
theorem load_cases (index : ℕ) :
    s.sfs_bmap_load_nolock n index = none ∧
      ((s.sin n).din.blocks < index ∨ SFS_NDIRECT + SFS_BLK_NENTRY ≤ index ∨
        index < (s.sin n).din.blocks ∧ slot I s (n, fileSlot index) = 0) ∨
    (∃ b s', s.sfs_bmap_load_nolock n index = some (.ok b, s') ∧ Loaded I n index b s s') ∨
    ∃ s', s.sfs_bmap_load_nolock n index = some (.error (-E_NO_MEM), s') ∧ Refused I s s' ∧
      ∀ last, index ≤ last → ¬s.Enough n last := by
  by_cases hle : index ≤ (s.sin n).din.blocks
  swap
  · exact .inl ⟨by simp [sfs_bmap_load_nolock, hle], .inl (not_le.mp hle)⟩
  by_cases hk : index < SFS_NDIRECT + SFS_BLK_NENTRY
  swap
  · refine .inl ⟨?_, .inr (.inl (not_lt.mp hk))⟩
    have hdirect : ¬index < SFS_NDIRECT := by omega
    have hentry : ¬index - SFS_NDIRECT < SFS_BLK_NENTRY := by omega
    simp [sfs_bmap_load_nolock, sfs_bmap_get_nolock, hle, hdirect, hentry]
  rcases eq_or_ne (slot I s (n, fileSlot index)) 0 with hslot | hslot
  · rcases hle.eq_or_lt with hindex | hlt
    · rcases get_create h hdev hn hk hslot with ⟨b, s1, hget, hc⟩ | ⟨s1, hget, href, hfew⟩
      · refine .inr (.inl ⟨b, _, ?_, loaded_append h hn hc.consistent hc.steps hc.keeps hc.slot
          hc.ne_zero hc.others hc.nblocks hindex (.inr ⟨hc.unused, hc.indirect⟩)⟩)
        rw [load_of_get hle (by simpa [hindex] using hget) hc.consistent hc.slot hc.ne_zero,
          if_pos hindex]
      · refine .inr (.inr ⟨s1, ?_, href, fun last hlast henough => ?_⟩)
        · rw [hindex] at hget
          simp [sfs_bmap_load_nolock, hindex, hget]
        · unfold Enough at henough
          unfold cost at hfew
          split_ifs at * <;> omega
    · obtain ⟨s1, hs1, hget⟩ := get_read h hdev hn false hk (.inr rfl)
      refine .inl ⟨?_, .inr (.inr ⟨hlt, hslot⟩)⟩
      rw [hslot] at hget
      simp [sfs_bmap_load_nolock, hle, hlt.ne, hget, sfs_block_inuse]
  · obtain ⟨s1, hs1, hget⟩ := get_read h hdev hn (decide (index = (s.sin n).din.blocks)) hk
      (.inl hslot)
    have hload := load_of_get hle hget (hs1.consistent h) (by rw [hs1.slot]) hslot
    refine .inr (.inl ⟨_, _, hload, ?_⟩)
    rcases hle.eq_or_lt with hindex | hlt
    · rw [if_pos hindex]
      exact loaded_append h hn (hs1.consistent h) (hs1.store ▸ .refl) hs1.keeps (by rw [hs1.slot])
        hslot (fun m k _ => by rw [hs1.slot]) (by rw [hs1.sin]) hindex (.inl hs1.unused)
    · rw [if_neg hlt.ne]
      exact loaded_shift h hs1 hlt hslot

end ucore.sfs_fs
