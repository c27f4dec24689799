import Mips32S.Kernel.Sfs.Io
import Mips32S.Kernel.Sfs.Truncate

open layout ownership outcome Function Option

namespace ucore.sfs_fs

variable {I : Finset ℕ} {s s' s'' : sfs_fs} {n m b k index len offset : ℕ} {write : Bool}
  {x x' : Transfer} {buf buf' : ℕ → BitVec 8}

/-- The slots behind the counted blocks of the inode `n` in memory are empty. -/
def Tight (I : Finset ℕ) (s : sfs_fs) (n : ℕ) : Prop :=
  ∀ k, (s.sin n).din.blocks ≤ k → slot I s (n, fileSlot k) = 0

/-- What an operation may do: every change of a slot goes with one of the map. -/
structure Safe (I : Finset ℕ) (s s' : sfs_fs) : Prop where
  consistent : s'.Consistent I
  steps : (s.store I).Steps (s'.store I)
  list : s'.inode_list = s.inode_list
  nlinks : ∀ m, (s'.sin m).din.nlinks = (s.sin m).din.nlinks
  tight : ∀ m, Tight I s m → Tight I s' m

theorem Safe.trans (h : Safe I s s') (h' : Safe I s' s'') : Safe I s s'' :=
  ⟨h'.consistent, h.steps.trans h'.steps, h'.list.trans h.list,
    fun m => (h'.nlinks m).trans (h.nlinks m), fun m ht => h'.tight m (h.tight m ht)⟩

theorem Safe.of_slot (hcons : s'.Consistent I) (hslot : slot I s' = slot I s)
    (hfree : s'.freemap = s.freemap) (hlist : s'.inode_list = s.inode_list)
    (hnlinks : ∀ m, (s'.sin m).din.nlinks = (s.sin m).din.nlinks)
    (hblocks : ∀ m, (s'.sin m).din.blocks = (s.sin m).din.blocks) : Safe I s s' := by
  have hstore : s'.store I = s.store I := by rw [store, store, hslot, hfree]
  refine ⟨hcons, hstore ▸ .refl, hlist, hnlinks, fun m ht k hk => ?_⟩
  rw [hslot]
  exact ht k (by rwa [← hblocks])

theorem Preserves.safe (hp : Preserves I n s s') (hcons : s'.Consistent I)
    (hsteps : (s.store I).Steps (s'.store I)) (hself : Tight I s n → Tight I s' n)
    (hother : ∀ m ≠ n, ∀ k, slot I s' (m, fileSlot k) = slot I s (m, fileSlot k)) :
    Safe I s s' := by
  refine ⟨hcons, hsteps, hp.list, fun m => ?_, fun m ht => ?_⟩
  · by_cases hm : m = n
    · rw [hm, hp.nlinks]
    · rw [hp.other m hm]
  · by_cases hm : m = n
    · rw [hm] at ht ⊢
      exact hself ht
    · intro k hk
      rw [hother m hm k]
      exact ht k (by rwa [← hp.other m hm])

theorem Shifted.safe (hs' : Shifted s s') (h : s.Consistent I) : Safe I s s' :=
  .of_slot (hs'.consistent h) hs'.slot hs'.freemap hs'.list (fun m => by rw [hs'.sin])
    fun m => by rw [hs'.sin]

theorem Safe.refl (h : s.Consistent I) : Safe I s s := Shifted.safe ⟨0, rfl⟩ h

theorem Enlarged.safe (h : Enlarged I n k s s') : Safe I s s' := by
  refine h.keeps.safe h.consistent h.steps (fun ht j hj => ?_) fun m hm j =>
    h.others m j fun heq => absurd heq hm
  have hblocks := h.nblocks
  rw [h.others n j fun _ => hj]
  exact ht j (by omega)

theorem Reduced.safe (h : Reduced I n k s s') : Safe I s s' := by
  refine h.preserves.safe h.consistent h.steps (fun ht j hj => ?_) fun m hm j =>
    h.kept _ fun _ _ _ heq => hm (Prod.ext_iff.mp heq).1
  rcases Nat.lt_or_ge j (s.sin n).din.blocks with hlt | hge
  · exact h.freed j hj hlt
  · rw [h.kept _ fun j' _ hlt' heq => ?_, ht j hge]
    have hsame := fileSlot_inj (Prod.ext_iff.mp heq).2
    omega

theorem Loaded.safe (h : Loaded I n index b s s') (hcons : s.Consistent I) : Safe I s s' := by
  rcases h.index_le.eq_or_lt with heq | hlt
  · exact (h.enlarged heq).safe
  · exact (h.shifted hlt).safe hcons

theorem Consistent.modify_safe (h : s.Consistent I) {f : sfs_inode → sfs_inode}
    (hrefs : (f (s.sin n)).din.SameRefs (s.sin n).din)
    (hdirty : (f (s.sin n)).dirty = false → (s.sin n).dirty = false)
    (hnlinks : (f (s.sin n)).din.nlinks = (s.sin n).din.nlinks)
    (hblocks : (f (s.sin n)).din.blocks = (s.sin n).din.blocks) : Safe I s (s.modifySin n f) := by
  obtain ⟨hcons, hslot⟩ := h.same_refs hrefs hdirty
  refine .of_slot hcons hslot rfl rfl (fun m => ?_) fun m => ?_
  · by_cases hm : m = n
    · simp [modifySin, hm, hnlinks]
    · simp [modifySin, hm]
  · by_cases hm : m = n
    · simp [modifySin, hm, hblocks]
    · simp [modifySin, hm]

theorem Consistent.setSize_safe (h : s.Consistent I) (n size : ℕ) :
    Safe I s (s.setSize n size) := by
  rw [setSize_eq]
  exact h.modify_safe ⟨fun _ _ => rfl, rfl⟩ (fun h => Bool.noConfusion h) rfl rfl

/-- What a part of a transfer leaves for the next one. -/
structure Next (write : Bool) (I : Finset ℕ) (n : ℕ) (s : sfs_fs) (x' : Transfer) (s' : sfs_fs) :
    Prop where
  safe : Safe I s s'
  reliable : s'.Reliable
  ready : Ready write I n x' s'

theorem BlockOp.next (h : s.Consistent I) (hdev : s.Reliable) (hready : Ready write I n x s)
    (hop : BlockOp write x.ino offset len x s buf s') (alen : ℕ) :
    Next write I n s { x with buf, alen } s' := by
  obtain ⟨disk, answer, hs', hcons, hslot, hdev', -, -⟩ := hop.spec h hdev hready
  exact ⟨.of_slot hcons hslot (by rw [hs']) (by rw [hs']) (fun m => by rw [hs']) fun m =>
    by rw [hs'], hdev', fun hw => hslot ▸ hready hw⟩

theorem Next.trans (h : Next write I n s x s') (h' : Next write I n s' x' s'') :
    Next write I n s x' s'' := ⟨h.safe.trans h'.safe, h'.reliable, h'.ready⟩

section
variable (h : s.Consistent I) (hn : n ∈ s.inode_list)
include h hn

theorem mapped (hdev : s.Reliable) (heq : sfs_io_nolock.load n index x s = some (x', s')) :
    (∃ b, s.sfs_bmap_load_nolock n index = some (.ok b, s') ∧ x' = { x with ino := b } ∧
      Loaded I n index b s s') ∨
    x' = x ∧ Refused I s s' ∧ ∀ last, index ≤ last → ¬s.Enough n last := by
  rcases load_cases h hn hdev index with ⟨hnone, -⟩ | ⟨b, s1, hsome, hl⟩ | ⟨s1, hsome, href, hfew⟩
  · simp [sfs_io_nolock.load, hnone] at heq
  · rw [sfs_io_nolock.load, hsome] at heq
    cases heq
    exact .inl ⟨b, hsome, rfl, hl⟩
  · rw [sfs_io_nolock.load, hsome] at heq
    cases heq
    exact .inr ⟨rfl, href, hfew⟩

theorem load_next (hdev : s.Reliable) (hready : Ready write I n x s ∨ s.Enough n index)
    (heq : sfs_io_nolock.load n index x s = some (x', s')) : Next write I n s x' s' := by
  rcases mapped h hn hdev heq with ⟨b, -, rfl, hl⟩ | ⟨rfl, href, hfew⟩
  · exact ⟨hl.safe h, hl.keeps.reliable hdev, fun _ => ⟨index, hl.slot, hl.ne_zero⟩⟩
  · have hslot : slot I s' = slot I s := congrArg Store.slot href.store
    have hready' := hready.resolve_right (hfew index le_rfl)
    exact ⟨(href.enlarged (n := n)).safe, (href.keeps n).reliable hdev,
      fun hw => hslot ▸ hready' hw⟩

theorem transfer_safe {endpos : ℕ} (hdev : s.Reliable)
    (hready : Ready write I n x s ∨ s.Enough n (offset / SFS_BLKSIZE)) (hlt : offset < endpos)
    (heq : sfs_io_nolock.transfer write n offset endpos x s = some (x', s')) : Safe I s s' := by
  have hwalk : Walk True write n offset endpos fun _ _ => Next write I n s := by
    refine .of_op (fun hP => ⟨hP.reliable, .inl trivial⟩)
      (fun _ _ hP => .of_forall fun r hmap => hP.trans ?_) fun _ _ hP hop => hP.trans ?_
    · exact load_next hP.safe.consistent (hP.safe.list ▸ hn) hP.reliable (.inl hP.ready) hmap
    · exact hop.next hP.safe.consistent hP.reliable hP.ready _
  exact ((hwalk.transfer hlt (.of_forall fun r => load_next h hn hdev hready)).of_eq heq).safe

/-- A call of `sfs_io` that moves bytes only with a reliable device, and writes only if the first
block is there or can be appended. -/
theorem io_safe {off resid : BitVec 32} {ino alen : ℕ} {ret : ℤ}
    (hapt : Legal off.toNat resid.toNat →
      off.toNat < endpos write (s.sin n).din.size off.toNat resid.toNat →
      s.Reliable ∧ (write = true → s.Enough n (off.toNat / SFS_BLKSIZE)))
    (heq : s.sfs_io write n buf off resid ino = some (ret, alen, buf', s')) : Safe I s s' := by
  by_cases htype : (s.sin n).din.type ≠ SFS_TYPE_DIR
  swap
  · simp [sfs_io, sfs_io_nolock, htype] at heq
  by_cases hlegal : Legal off.toNat resid.toNat
  swap
  · rw [sfs_io_error htype hlegal] at heq
    cases heq
    exact .refl h
  by_cases hlt : off.toNat < endpos write (s.sin n).din.size off.toNat resid.toNat
  swap
  · rw [sfs_io_empty htype hlegal hlt] at heq
    cases heq
    exact .refl h
  obtain ⟨hdev, henough⟩ := hapt hlegal hlt
  have hready : Ready write I n ⟨ino, buf, 0⟩ s ∨ s.Enough n (off.toNat / SFS_BLKSIZE) := by
    cases write with
    | true => exact .inr (henough rfl)
    | false => exact .inl fun hw => Bool.noConfusion hw
  simp only [sfs_io, sfs_io_nolock, endpos_eq hlegal, if_pos hlt, bind_eq_bind,
    bind_eq_some_iff, Prod.exists, pure_def, some.injEq, Prod.mk.injEq] at heq
  obtain ⟨ret1, alen1, buf1, s1, ⟨-, -, x1, s2, htransfer, heq⟩, -, -, -, -, -, rfl⟩ := heq
  have hsafe := transfer_safe h hn hdev hready hlt htransfer
  split_ifs at heq
  · obtain ⟨-, -, -, rfl⟩ := heq
    exact hsafe.trans (hsafe.consistent.setSize_safe n _)
  · obtain ⟨-, -, -, rfl⟩ := heq
    exact hsafe

end

section
variable {len : BitVec 32} {r : Except ℤ Unit}

theorem resize_safe {tblks : ℕ} (h : s.Consistent I) (hn : n ∈ s.inode_list)
    (hapt : (s.sin n).din.blocks < tblks → s.Reliable)
    (heq : sfs_truncfile.resize n (s.sin n).din.blocks tblks s = some (r, s')) : Safe I s s' := by
  rw [sfs_truncfile.resize] at heq
  split_ifs at heq with hlt
  · rcases enlarge_cases h hn (hapt hlt) (tblks - (s.sin n).din.blocks) with
      ⟨hnone, -⟩ | ⟨s1, hsome, hg⟩ | ⟨ret, s1, j, hsome, hg, -⟩
    · rw [hnone] at heq
      cases heq
    · rw [hsome] at heq
      cases heq
      exact hg.safe
    · rw [hsome] at heq
      cases heq
      exact hg.safe
  · rcases reduce_cases h hn (Nat.sub_le (s.sin n).din.blocks tblks) with
      ⟨s1, hsome, hr⟩ | ⟨ret, s1, j, hsome, hr, -⟩
    · rw [hsome] at heq
      cases heq
      exact hr.safe
    · rw [hsome] at heq
      cases heq
      exact hr.safe

variable (h : s.Consistent I) (hn : n ∈ s.inode_list)
  (hapt : (s.sin n).din.blocks < ROUNDUP_DIV_2N len.toNat PGSHIFT → s.Reliable)
include h hn hapt

/-- A file grows only with a reliable device, and shrinks with any. -/
theorem truncfile_safe (heq : s.sfs_truncfile n len = some (r, s')) : Safe I s s' ∧
      (r = .ok () → (s'.sin n).din.blocks = ROUNDUP_DIV_2N len.toNat PGSHIFT) := by
  set tblks := ROUNDUP_DIV_2N len.toNat PGSHIFT with htblks
  rw [sfs_truncfile] at heq
  simp only [← htblks] at heq
  by_cases hbad : len.toInt < 0 ∨ len.toNat > SFS_MAX_FILE_SIZE
  · rw [if_pos hbad] at heq
    cases heq
    exact ⟨.refl h, fun hok => by cases hok⟩
  rw [if_neg hbad] at heq
  by_cases hsize : (s.sin n).din.size = len.toNat
  · split_ifs at heq with hblocks
    cases heq
    exact ⟨.refl h, fun _ => hblocks.symm⟩
  rw [if_neg hsize] at heq
  cases hres : sfs_truncfile.resize n (s.sin n).din.blocks tblks s with
  | none => simp [hres] at heq
  | some q =>
    obtain ⟨r1, s1⟩ := q
    have hsafe := resize_safe h hn hapt hres
    cases r1 with
    | error ret =>
      simp only [hres, bind_eq_bind, bind_some, pure_def, some.injEq, Prod.mk.injEq] at heq
      obtain ⟨rfl, rfl⟩ := heq
      exact ⟨hsafe, fun hok => by cases hok⟩
    | ok u =>
      by_cases hblocks : (s1.sin n).din.blocks = tblks
      · simp [hres, hblocks] at heq
        obtain ⟨rfl, rfl⟩ := heq
        refine ⟨hsafe.trans (hsafe.consistent.setSize_safe n len.toNat), fun _ => ?_⟩
        rw [← hblocks]
        simp [setDirty, modifyDin, modifySin]
      · simp [hres, hblocks] at heq

theorem tryseek_safe (heq : s.sfs_tryseek n len = some (r, s')) : Safe I s s' := by
  rw [sfs_tryseek] at heq
  split_ifs at heq
  · cases heq
    exact .refl h
  · exact (truncfile_safe h hn hapt heq).1
  · cases heq
    exact .refl h

end

variable (h : s.Consistent I) (hn : n ∈ s.inode_list)
include h hn

theorem Consistent.store_inode (hs' : s' = { s.setDirty n false with
      disk := update s.disk n (copy (s.disk n) 0 (s.sin n).din.bytes 0 sfs_disk_inode.sizeof)
      answer := s'.answer }) : s'.Consistent I ∧ slot I s' = slot I s := by
  have hI := h.loaded n hn
  have hlist : s'.inode_list = s.inode_list := by
    rw [hs']
    rfl
  have hdin : ∀ m, (s'.sin m).din = (s.sin m).din := fun m => by
    rw [hs']
    by_cases hm : m = n
    · simp [setDirty, modifySin, hm]
    · simp [setDirty, modifySin, hm]
  have hdirty : ∀ m ≠ n, (s'.sin m).dirty = (s.sin m).dirty := fun m hm => by
    rw [hs']
    simp [setDirty, modifySin, hm]
  have hdisk : ∀ m ≠ n, s'.disk m = s.disk m := fun m hm => by
    rw [hs']
    exact update_of_ne hm _ _
  have hself : s'.disk n = copy (s.disk n) 0 (s.sin n).din.bytes 0 sfs_disk_inode.sizeof := by
    rw [hs']
    exact update_self ..
  have hslot : slot I s' = slot I s := by
    refine slot_congr hlist (fun m _ => hdin m ▸ ⟨fun _ _ => rfl, rfl⟩) (fun m _ hm => ?_)
      fun m hm hind => ?_
    · exact hdisk m fun heq => hm (heq ▸ hn)
    · refine hdisk _ fun heq => ?_
      have hsame := h.slot_unique ((slot_indirect hm).trans (heq.trans (slot_inode hI).symm))
        (by rwa [slot_indirect hm])
      cases hsame
  have hrefs : (sfs_disk_inode.read (s'.disk n)).SameRefs (s.sin n).din := by
    have hsmall : ∀ r, slot I s r < 2 ^ 32 := fun r => lt_of_lt_of_le (h.slot_lt r) h.small
    refine sfs_disk_inode.read_bytes (fun i hi => ?_) (fun k hk => ?_) ?_
    · rw [hself, copy_of_mem (Nat.zero_le i) (by omega), Nat.zero_add, Nat.sub_zero]
    · rw [← dinode_of_loaded hn, ← slot_direct hI hk]
      exact hsmall _
    · rw [← dinode_of_loaded hn, ← slot_indirect hI]
      exact hsmall _
  refine ⟨h.congr hslot (by rw [hs']; rfl) (by rw [hs']; rfl) (by rw [hs']; rfl) hlist
    fun m hm hclean => ?_, hslot⟩
  rw [hdin m]
  by_cases hmn : m = n
  · rwa [hmn]
  · rw [hdisk m hmn]
    exact h.clean m hm (by rwa [← hdirty m hmn])

theorem fsync_safe {r : Except ℤ Unit} (heq : s.sfs_fsync n = some (r, s')) :
    Safe I s s' ∧ (r = .ok () → (s'.sin n).dirty = false) ∧
      (s'.sin n).ref_count = (s.sin n).ref_count ∧
      (s'.sin n).din.blocks = (s.sin n).din.blocks := by
  have hI := h.loaded n hn
  have hn0 : n ≠ 0 := fun hzero => h.zero (hzero ▸ hI)
  have hlt : n < (s.setDirty n false).blocks := slot_inode hI ▸ h.slot_lt (n, .inode)
  rw [sfs_fsync] at heq
  split_ifs at heq with hdirty
  swap
  · cases heq
    exact ⟨.refl h, fun _ => by simpa using hdirty, rfl, rfl⟩
  obtain ⟨s1, hs1, hwrite | ⟨ret, -, hwrite, -⟩⟩ := wbuf_cases
    (s.sin n).din.bytes 0 hn0 hlt (by decide)
    (show 0 + sfs_disk_inode.sizeof ≤ SFS_BLKSIZE by decide)
  · rw [hwrite] at heq
    simp only [bind_eq_bind, bind_some, pure_def, some.injEq, Prod.mk.injEq] at heq
    obtain ⟨rfl, hs'⟩ := heq
    have hsin : s'.sin = (s.setDirty n false).sin := by
      rw [← hs']
      exact hs1.sin
    have hself : s'.sin n = { s.sin n with dirty := false } := by
      rw [hsin]
      simp [setDirty, modifySin]
    have hdin : ∀ m, (s'.sin m).din = (s.sin m).din := fun m => by
      rw [hsin]
      by_cases hm : m = n
      · simp [setDirty, modifySin, hm]
      · simp [setDirty, modifySin, hm]
    obtain ⟨hcons, hslot⟩ : s'.Consistent I ∧ slot I s' = slot I s := by
      refine h.store_inode hn ?_
      obtain ⟨i, rfl⟩ := hs1
      rw [← hs']
      rfl
    refine ⟨.of_slot hcons hslot ?_ ?_ (fun m => by rw [hdin]) fun m => by rw [hdin], fun _ => ?_,
      ?_, ?_⟩
    · rw [← hs']
      exact hs1.freemap
    · rw [← hs']
      exact hs1.list
    all_goals rw [hself]
  · rw [hwrite] at heq
    simp only [bind_eq_bind, bind_some, pure_def, some.injEq, Prod.mk.injEq] at heq
    obtain ⟨rfl, rfl⟩ := heq
    have hshift : Shifted s (s1.setDirty n true) := by
      obtain ⟨i, rfl⟩ := hs1
      refine ⟨i, ?_⟩
      simp only [setDirty, modifySin, update_self, update_idem]
      congr 1
      refine update_eq_self_iff.mpr ?_
      rw [← hdirty]
    exact ⟨hshift.safe h, fun hok => (by cases hok), by rw [hshift.sin], by rw [hshift.sin]⟩

end ucore.sfs_fs
