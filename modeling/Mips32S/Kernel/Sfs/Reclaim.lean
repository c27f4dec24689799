import Mips32S.Kernel.Sfs.Safety

open layout ownership Function Option List Finset

namespace ucore.sfs_fs

variable {I J : Finset ℕ} {s s' s'' : sfs_fs} {n m b k : ℕ} {r : Except ℤ Unit} {σ : Slot}

/-- The map is right, and an inode without links has no slots behind its counted blocks. -/
structure Mounted (I : Finset ℕ) (s : sfs_fs) : Prop where
  consistent : s.Consistent I
  unlinked : ∀ n ∈ s.inode_list, (s.sin n).din.nlinks = 0 → Tight I s n

/-- The inodes that are still there: one without links goes when it leaves the memory. -/
def survivors (I : Finset ℕ) (s s' : sfs_fs) : Finset ℕ :=
  I.filter fun n => ¬(n ∈ s.inode_list ∧ n ∉ s'.inode_list ∧ (s.sin n).din.nlinks = 0)

/-- What a call may do. -/
structure Follows (I : Finset ℕ) (s s' : sfs_fs) : Prop where
  mounted : Mounted (survivors I s s') s'
  steps : (s.store I).Steps (s'.store (survivors I s s'))

theorem survivors_eq (h : ∀ n ∈ I, n ∈ s.inode_list → n ∉ s'.inode_list →
    (s.sin n).din.nlinks ≠ 0) : survivors I s s' = I :=
  filter_true_of_mem fun n hn hgone => h n hn hgone.1 hgone.2.1 hgone.2.2

theorem Safe.mounted (h : Mounted I s) (hs : Safe I s s') : Mounted I s' :=
  ⟨hs.consistent, fun n hn hlinks =>
    hs.tight n (h.unlinked n (hs.list ▸ hn) (hs.nlinks n ▸ hlinks))⟩

theorem Safe.follows (h : Mounted I s) (hs : Safe I s s') : Follows I s s' := by
  have hI : survivors I s s' = I := survivors_eq fun n _ hin hout => absurd (hs.list ▸ hin) hout
  refine ⟨?_, ?_⟩
  · rw [hI]
    exact hs.mounted h
  · rw [hI]
    exact hs.steps

theorem Safe.trans_follows (hs : Safe I s s') (hf : Follows I s' s'') : Follows I s s'' := by
  have hI : survivors I s s'' = survivors I s' s'' := by
    refine Finset.filter_congr fun n _ => ?_
    rw [hs.list, hs.nlinks]
  refine ⟨?_, ?_⟩
  · rw [hI]
    exact hf.mounted
  · rw [hI]
    exact hs.steps.trans hf.steps

theorem read_congr {x y : ℕ → BitVec 8} (hxy : ∀ i < sfs_disk_inode.sizeof, x i = y i) :
    sfs_disk_inode.read x = sfs_disk_inode.read y := by
  have hsize : sfs_disk_inode.sizeof = 64 := rfl
  have hndirect : SFS_NDIRECT = 12 := rfl
  have hvalue : ∀ d w, d + w ≤ 64 → value w (fun i => x (d + i)) = value w fun i => y (d + i) :=
    fun d w hw => value_congr fun i hi => hxy _ (by omega)
  unfold sfs_disk_inode.read
  congr 1
  · exact value_congr fun i hi => hxy _ (by omega)
  · exact hvalue 4 2 (by omega)
  · exact hvalue 6 2 (by omega)
  · exact hvalue 8 4 (by omega)
  · funext k
    by_cases hk : k < SFS_NDIRECT
    · rw [if_pos hk, if_pos hk]
      exact hvalue (12 + 4 * k) 4 (by omega)
    · rw [if_neg hk, if_neg hk]
  · exact hvalue 60 4 (by omega)

theorem Mounted.enter {y : sfs_inode} (ans : ℕ → ℤ) (h : Mounted I s) (hI : n ∈ I)
    (hn : n ∉ s.inode_list) (hy : y.din = .read (s.disk n)) (hlinks : y.din.nlinks ≠ 0)
    (hs' : s' = { s with
      answer := ans, inode_list := n :: s.inode_list, sin := update s.sin n y }) :
    Follows I s s' := by
  have hdinode : ∀ m, s'.dinode m = s.dinode m := fun m => by
    rw [hs', dinode, dinode]
    by_cases hm : m = n
    · simp [hm, hn, hy]
    · simp [hm]
  have hslot : slot I s' = slot I s := by
    funext r
    have hdisk : ∀ d, s'.slotOf d r.1 r.2 = s.slotOf d r.1 r.2 := fun d => by
      rw [hs']
      cases r.2 <;> rfl
    rw [slot, slot, hdinode, hdisk]
  have hstore : s'.store I = s.store I := by
    rw [store, store, hslot, hs']
  have hself : s'.sin n = y := by
    rw [hs']
    exact update_self ..
  have hother : ∀ m ∈ s.inode_list, s'.sin m = s.sin m := fun m hm => by
    rw [hs']
    exact update_of_ne (ne_of_mem_of_not_mem hm hn) _ _
  have hlist : s'.inode_list = n :: s.inode_list := by rw [hs']
  have hcons : s'.Consistent I := by
    refine ⟨h.consistent.toMapped.congr hslot (by rw [hs']) (by rw [hs']) (by rw [hs']),
      h.consistent.zero, fun m hm => ?_, ?_, fun m hm hclean => ?_⟩
    · rw [hlist] at hm
      rcases mem_cons.mp hm with rfl | hm'
      · exact hI
      · exact h.consistent.loaded m hm'
    · rw [hlist]
      exact nodup_cons.mpr ⟨hn, h.consistent.nodup⟩
    · have hdisk : s'.disk = s.disk := by rw [hs']
      rw [hlist] at hm
      rw [hdisk]
      rcases mem_cons.mp hm with rfl | hm'
      · rw [hself, hy]
        exact ⟨fun _ _ => rfl, rfl⟩
      · rw [hother m hm'] at hclean ⊢
        exact h.consistent.clean m hm' hclean
  have hI' : survivors I s s' = I :=
    survivors_eq fun m _ hin hout => absurd (hlist ▸ mem_cons_of_mem n hin) hout
  refine ⟨?_, by rw [hI', hstore]; exact .refl⟩
  rw [hI']
  refine ⟨hcons, fun m hm hzero => ?_⟩
  rw [hlist] at hm
  rcases mem_cons.mp hm with rfl | hm'
  · rw [hself] at hzero
    exact absurd hzero hlinks
  · rw [hother m hm'] at hzero
    intro k hk
    rw [hother m hm'] at hk
    rw [hslot]
    exact h.unlinked m hm' hzero k hk

theorem load_follows (h : Mounted I s) (hI : n ∈ I)
    (heq : s.sfs_load_inode n = some (r, s')) : Follows I s s' := by
  have hn0 : n ≠ 0 := fun hzero => h.consistent.zero (hzero ▸ hI)
  have hlt : n < s.blocks := slot_inode hI ▸ h.consistent.slot_lt (n, .inode)
  rw [sfs_load_inode] at heq
  split_ifs at heq with hn
  · cases heq
    exact (h.consistent.modify_safe ⟨fun _ _ => rfl, rfl⟩ id rfl rfl).follows h
  obtain ⟨s1, hs1, hread | ⟨ret, hret, hread, -⟩⟩ := rbuf_cases (fun _ => 0) 0 hn0 hlt
    (show 0 < SFS_BLKSIZE by decide) (show 0 + sfs_disk_inode.sizeof ≤ SFS_BLKSIZE by decide)
  · have hdin : sfs_disk_inode.read (copy (fun _ => 0) 0 (s.disk n) 0 sfs_disk_inode.sizeof) =
        .read (s.disk n) := read_congr fun i hi => by
      rw [copy_of_mem (Nat.zero_le i) (by omega), Nat.zero_add, Nat.sub_zero]
    generalize copy (fun _ => 0) 0 (s.disk n) 0 sfs_disk_inode.sizeof = buf at hread hdin
    rw [hread] at heq
    by_cases hlinks : (sfs_disk_inode.read (s.disk n)).nlinks = 0
    · simp [hdin, hlinks, h.consistent.block_inuse hn0 hlt] at heq
    · simp only [bind_eq_bind, bind_eq_some_iff, ne_eq, Option.pure_def, some.injEq] at heq
      obtain ⟨_, -, _, -, _, rfl, heq⟩ := heq
      rw [if_neg (not_not.mpr rfl)] at heq
      simp only [bind_eq_some_iff, some.injEq, Prod.mk.injEq] at heq
      obtain ⟨_, -, _, -, rfl, hs'⟩ := heq
      refine h.enter s1.answer (y := ⟨.read (s.disk n), false, 1, 1⟩) hI hn rfl hlinks ?_
      obtain ⟨i, rfl⟩ := hs1
      rw [← hs', hdin]
  · rw [hread] at heq
    simp only [bind_eq_bind, bind_eq_some_iff, ne_eq, Option.pure_def, some.injEq] at heq
    obtain ⟨_, -, _, -, _, rfl, heq⟩ := heq
    rw [if_pos hret] at heq
    cases heq
    exact (hs1.safe h.consistent).follows h

theorem Mounted.leave (h : Mounted I s) (hn : n ∈ s.inode_list)
    (hclean : (sfs_disk_inode.read (s.disk n)).SameRefs (s.sin n).din)
    (hlinks : (s.sin n).din.nlinks ≠ 0) (hs' : s' = { s with inode_list := s.inode_list.erase n }) :
    Follows I s s' := by
  have hnodup := h.consistent.nodup
  have hlist : s'.inode_list = s.inode_list.erase n := by rw [hs']
  have hsub : ∀ m ∈ s'.inode_list, m ∈ s.inode_list := fun m hm =>
    mem_of_mem_erase (hlist ▸ hm)
  have hslot : slot I s' = slot I s := by
    funext ⟨m, σ⟩
    unfold slot
    by_cases hm : m ∈ I
    swap
    · rw [if_neg hm, if_neg hm]
    rw [if_pos hm, if_pos hm]
    refine slotOf_congr ?_ fun _ k _ => by rw [hs']; rfl
    rw [dinode, dinode, hlist]
    by_cases hmn : m = n
    · subst hmn
      rwa [if_neg hnodup.not_mem_erase, if_pos hn, hs']
    · simp only [mem_erase_of_ne hmn]
      rw [hs']
      exact ⟨fun _ _ => rfl, rfl⟩
  have hstore : s'.store I = s.store I := by rw [store, store, hslot, hs']
  have hI : survivors I s s' = I := by
    refine survivors_eq fun m _ hin hout => ?_
    by_cases hmn : m = n
    · rwa [hmn]
    · exact absurd (hlist ▸ (mem_erase_of_ne hmn).mpr hin) hout
  have hcons : s'.Consistent I := by
    refine ⟨h.consistent.toMapped.congr hslot (by rw [hs']) (by rw [hs']) (by rw [hs']),
      h.consistent.zero, fun m hm => h.consistent.loaded m (hsub m hm), hlist ▸ hnodup.erase n,
      fun m hm hc => ?_⟩
    have hold := hsub m hm
    rw [hs'] at hc ⊢
    exact h.consistent.clean m hold hc
  refine ⟨?_, by rw [hI, hstore]; exact .refl⟩
  rw [hI]
  refine ⟨hcons, fun m hm hzero k hk => ?_⟩
  have hold := hsub m hm
  rw [hslot]
  rw [hs'] at hzero hk
  exact h.unlinked m hold hzero k hk

theorem Tight.slot_eq (h : Tight I s n) (hblocks : (s.sin n).din.blocks = 0) (hinode : σ ≠ .inode)
    (hindirect : σ ≠ .indirect) : slot I s (n, σ) = 0 := by
  cases σ with
  | inode => exact absurd rfl hinode
  | indirect => exact absurd rfl hindirect
  | direct k =>
    by_cases hk : k < SFS_NDIRECT
    · exact fileSlot_direct hk ▸ h k (by omega)
    · rw [slot]
      split
      · exact if_neg hk
      · rfl
  | entry k =>
    have hslot := h (k + SFS_NDIRECT) (by omega)
    rwa [fileSlot_entry (by omega), Nat.add_sub_cancel] at hslot

theorem Mounted.forget (h : Mounted I s)
    (hs' : s' = { s with inode_list := s.inode_list.erase n }) :
    Mounted (I.erase n) s' ∧
      slot (I.erase n) s' = fun r => if r.1 = n then 0 else slot I s r := by
  have hnodup := h.consistent.nodup
  have hlist : s'.inode_list = s.inode_list.erase n := by rw [hs']
  have hsub : ∀ m ∈ s'.inode_list, m ∈ s.inode_list ∧ m ≠ n := fun m hm =>
    (hnodup.mem_erase_iff.mp (hlist ▸ hm)).symm
  have hslot : slot (I.erase n) s' = fun r => if r.1 = n then 0 else slot I s r := by
    funext ⟨m, σ⟩
    unfold slot
    by_cases hmn : m = n
    · rw [if_neg (by simp [hmn]), if_pos hmn]
    · have hdin : s'.dinode m = s.dinode m := by
        rw [dinode, dinode, hlist]
        simp only [mem_erase_of_ne hmn]
        rw [hs']
      have hof : ∀ d, s'.slotOf d m σ = s.slotOf d m σ := fun d => by
        rw [hs']
        cases σ <;> rfl
      rw [if_neg hmn, hdin, hof]
      simp [hmn]
  have hold := h.consistent
  have hinv : (s'.store (I.erase n)).Inv := by
    have hstore : s'.store (I.erase n) =
        ⟨fun r => if r.1 = n then 0 else slot I s r, s.freemap.free⟩ := by rw [store, hslot, hs']
    rw [hstore]
    refine ⟨hold.store.zero, fun r hr => ?_, fun r r' heq hne => ?_⟩
    · dsimp only at hr
      split_ifs at hr
      · exact hold.store.zero hr
      · exact hold.not_free r hr
    · dsimp only at heq hne
      split_ifs at heq hne with hr hr'
      · exact absurd rfl hne
      · exact absurd rfl hne
      · exact absurd heq hne
      · exact hold.slot_unique heq hne
  refine ⟨⟨⟨⟨hinv, ?_, ?_, ?_, ?_, ?_, fun r => ?_, ?_⟩, ?_, fun m hm => ?_, hlist ▸ hnodup.erase n,
    fun m hm hc => ?_⟩, fun m hm hzero k hk => ?_⟩, hslot⟩
  · rw [hs']
    exact hold.ok
  · rw [hs']
    exact hold.nbits
  · rw [hs']
    exact hold.pos
  · rw [hs']
    exact hold.small
  · rw [hs']
    exact hold.free_lt
  · rw [hslot, hs']
    dsimp only
    split_ifs
    · exact hold.pos
    · exact hold.slot_lt r
  · rw [hs']
    exact hold.unused
  · exact fun hzero => hold.zero (Finset.mem_of_mem_erase hzero)
  · exact mem_erase.mpr ⟨(hsub m hm).2, hold.loaded m (hsub m hm).1⟩
  · have hm' := (hsub m hm).1
    rw [hs'] at hc ⊢
    exact hold.clean m hm' hc
  · obtain ⟨hm', hmn⟩ := hsub m hm
    rw [hslot]
    rw [hs'] at hzero hk
    exact (if_neg hmn).trans (h.unlinked m hm' hzero k hk)

/-- A block that was in a slot of the inode `n` belongs to nobody once the inode is forgotten. -/
theorem Mounted.forget_lost (h : Mounted I s) (hne : slot I s (n, σ) ≠ 0)
    (hslot : slot (I.erase n) s' = fun r => if r.1 = n then 0 else slot I s r)
    (hfree : slot I s (n, σ) ∉ s'.freemap.free) :
    (s'.store (I.erase n)).Lost (slot I s (n, σ)) := by
  refine ⟨hne, hfree, fun r heq => ?_⟩
  rw [store, hslot] at heq
  dsimp only at heq
  split_ifs at heq with hr
  · exact hne heq.symm
  · have hsame := h.consistent.slot_unique heq (heq ▸ hne)
    exact hr (by rw [hsame])

theorem Freed.mounted (hf : Freed J b s s') (h : Mounted J s) : Mounted J s' := by
  refine ⟨hf.consistent, fun m hm hzero k hk => ?_⟩
  rw [hf.list] at hm
  rw [hf.sin] at hzero hk
  rw [hf.slot]
  exact h.unlinked m hm hzero k hk

theorem survivors_erase (hnodup : s.inode_list.Nodup) (hn : n ∈ s.inode_list)
    (hlinks : (s.sin n).din.nlinks = 0) (hlist : s'.inode_list = s.inode_list.erase n) :
    survivors I s s' = I.erase n := by
  ext m
  simp only [survivors, Finset.mem_filter, mem_erase, hlist]
  by_cases hmn : m = n
  · simp [hmn, hn, hlinks, hnodup.not_mem_erase]
  · simp only [mem_erase_of_ne hmn, hmn, ne_eq, not_false_eq_true, true_and]
    exact and_iff_left fun hgone => hgone.2.1 hgone.1

theorem Tight.forget_slots (h : Tight I s n) (hblocks : (s.sin n).din.blocks = 0) :
    (fun r : ℕ × Slot => if r.1 = n then 0 else slot I s r) =
      update (update (slot I s) (n, .inode) 0) (n, .indirect) 0 := by
  funext ⟨m, σ⟩
  by_cases hindirect : (m, σ) = (n, .indirect)
  · cases hindirect
    rw [update_self, if_pos rfl]
  rw [update_of_ne hindirect]
  by_cases hinode : (m, σ) = (n, .inode)
  · cases hinode
    rw [update_self, if_pos rfl]
  rw [update_of_ne hinode]
  by_cases hmn : m = n
  · subst hmn
    rw [if_pos rfl, h.slot_eq hblocks (fun heq => hinode (heq ▸ rfl)) fun heq => hindirect (heq ▸ rfl)]
  · rw [if_neg hmn]

section
variable (h : Mounted I s) (hn : n ∈ s.inode_list) (hlinks : (s.sin n).din.nlinks = 0)
  (hblocks : (s.sin n).din.blocks = 0)
include h hn hlinks hblocks

/-- The end of an inode without links: its own block and the block of entries are freed. -/
theorem Mounted.kill_unlinked (heq : sfs_reclaim.kill n s = some (r, s')) : Follows I s s' := by
  have hI := h.consistent.loaded n hn
  have hinode : slot I s (n, .inode) = n := slot_inode hI
  have hindirect : slot I s (n, .indirect) = (s.sin n).din.indirect := by
    rw [slot_indirect hI, dinode_of_loaded hn]
  have hne : slot I s (n, .inode) ≠ 0 := by
    rw [hinode]
    exact fun hzero => h.consistent.zero (hzero ▸ hI)
  by_cases href : (s.sin n).ref_count = 0
  swap
  · simp [sfs_reclaim.kill, href] at heq
  set s1 : sfs_fs := { s with inode_list := s.inode_list.erase n } with hs1
  obtain ⟨hm1, hslot1⟩ := h.forget hs1
  have hlost := h.forget_lost hne hslot1 (h.consistent.not_free _)
  obtain ⟨s2, heq2, hf2⟩ := hm1.consistent.free_spec hlost (h.consistent.slot_lt _)
  have hslot2 := hf2.slot.trans hslot1
  have hfree2 : s2.freemap.free = insert (slot I s (n, .inode)) s.freemap.free := hf2.free
  rw [hinode] at heq2
  have hforget := (h.unlinked n hn hlinks).forget_slots hblocks
  have hstep : (s.store I).Step ((s.store I).drop (n, .inode)) := .drop hne
  by_cases hzero : (s.sin n).din.indirect = 0
  · obtain ⟨-, hs'⟩ : Except.ok () = r ∧ s2 = s' := by
      simpa [sfs_reclaim.kill, href, hlinks, hzero, ← hs1, heq2] using heq
    have hJ := survivors_erase (I := I) h.consistent.nodup hn hlinks hf2.list
    have hstore : s2.store (I.erase n) = (s.store I).drop (n, .inode) := by
      have hsame : update (slot I s) (n, .inode) 0 (n, .indirect) = 0 := by
        rw [update_of_ne (by simp), hindirect, hzero]
      rw [store, hslot2, hforget, hfree2, update_eq_self_iff.mpr hsame.symm]
      rfl
    rw [← hs']
    exact ⟨hJ ▸ hf2.mounted hm1, by rw [hJ, hstore]; exact .single hstep⟩
  · have hne' : slot I s (n, .indirect) ≠ 0 := by rwa [hindirect]
    have hlost' := h.forget_lost hne' hslot2 (by
      rw [hfree2, mem_insert, not_or]
      refine ⟨fun heq => ?_, h.consistent.not_free _⟩
      have hsame := h.consistent.slot_unique heq hne'
      cases hsame)
    obtain ⟨s3, heq3, hf3⟩ := hf2.consistent.free_spec hlost' (hf2.blocks ▸ h.consistent.slot_lt _)
    have hfree3 : s3.freemap.free =
        insert (slot I s (n, .indirect)) (insert (slot I s (n, .inode)) s.freemap.free) := by
      rw [hf3.free, hfree2]
    rw [hindirect] at heq3
    obtain ⟨-, hs'⟩ : Except.ok () = r ∧ s3 = s' := by
      simpa [sfs_reclaim.kill, href, hlinks, hzero, ← hs1, heq2, heq3] using heq
    have hJ := survivors_erase (I := I) h.consistent.nodup hn hlinks (hf3.list.trans hf2.list)
    have hkept : ((s.store I).drop (n, .inode)).slot (n, .indirect) = slot I s (n, .indirect) :=
      update_of_ne (by simp) _ _
    have hstep' : ((s.store I).drop (n, .inode)).Step
        (((s.store I).drop (n, .inode)).drop (n, .indirect)) := .drop (hkept ▸ hne')
    have hstore : s3.store (I.erase n) = ((s.store I).drop (n, .inode)).drop (n, .indirect) := by
      rw [store, hf3.slot, hslot2, hforget, hfree3, Store.drop, hkept]
      rfl
    rw [← hs']
    refine ⟨hJ ▸ hf3.mounted (hf2.mounted hm1), ?_⟩
    rw [hJ, hstore]
    exact (Relation.ReflTransGen.single hstep).tail hstep'

end

variable (h : Mounted I s) (hn : n ∈ s.inode_list)
include h hn

theorem Mounted.kill (hclean : (s.sin n).dirty = false)
    (hblocks : (s.sin n).din.nlinks = 0 → (s.sin n).din.blocks = 0)
    (heq : sfs_reclaim.kill n s = some (r, s')) : Follows I s s' := by
  by_cases hlinks : (s.sin n).din.nlinks = 0
  · exact h.kill_unlinked hn hlinks (hblocks hlinks) heq
  · by_cases href : (s.sin n).ref_count = 0
    swap
    · simp [sfs_reclaim.kill, href] at heq
    refine h.leave hn (h.consistent.clean n hn hclean) hlinks ?_
    simp only [sfs_reclaim.kill, href, hlinks, if_false] at heq
    cases heq
    rfl

omit h hn in
theorem truncate_safe (h : s.Consistent I) (hn : n ∈ s.inode_list)
    (heq : sfs_reclaim.truncate n s = some (r, s')) :
    Safe I s s' ∧ (r = .ok () → (s'.sin n).din.nlinks = 0 → (s'.sin n).din.blocks = 0) := by
  rw [sfs_reclaim.truncate] at heq
  split_ifs at heq with hlinks htype
  · cases heq
    exact ⟨.refl h, fun _ hzero => absurd hzero hlinks⟩
  · have hzero : ROUNDUP_DIV_2N (0 : BitVec 32).toNat PGSHIFT = 0 := rfl
    obtain ⟨hsafe, hblocks⟩ := truncfile_safe h hn (fun hlt => by omega) heq
    exact ⟨hsafe, fun hok _ => (hblocks hok).trans hzero⟩

theorem reclaim_follows (heq : s.sfs_reclaim n = some (r, s')) : Follows I s s' := by
  rw [sfs_reclaim] at heq
  have hsafe1 : Safe I s (s.modifySin n fun x => { x with reclaim_count := x.reclaim_count - 1 }) :=
    h.consistent.modify_safe ⟨fun _ _ => rfl, rfl⟩ id rfl rfl
  generalize (s.modifySin n fun x => { x with reclaim_count := x.reclaim_count - 1 }) = s1 at heq hsafe1
  split_ifs at heq
  · cases heq
    exact hsafe1.follows h
  have hn1 : n ∈ s1.inode_list := hsafe1.list ▸ hn
  simp only [bind_eq_bind, bind_eq_some_iff, Prod.exists] at heq
  obtain ⟨r2, s2, htruncate, heq⟩ := heq
  obtain ⟨hsafe2, hblocks⟩ := truncate_safe hsafe1.consistent hn1 htruncate
  have hsafe := hsafe1.trans hsafe2
  cases r2 with
  | error ret =>
    cases heq
    exact hsafe.follows h
  | ok u =>
    simp only [bind_eq_some_iff, Prod.exists] at heq
    obtain ⟨r3, s3, hsync, heq⟩ := heq
    obtain ⟨hsafe3, hclean, -, hsame⟩ := fsync_safe hsafe.consistent (hsafe.list ▸ hn) hsync
    have hall := hsafe.trans hsafe3
    cases r3 with
    | error ret =>
      cases heq
      exact hall.follows h
    | ok v =>
      refine hall.trans_follows ((hall.mounted h).kill (hall.list ▸ hn) (hclean rfl) ?_ heq)
      rw [hsafe3.nlinks, hsame]
      exact hblocks rfl

theorem ref_dec_follows (heq : s.inode_ref_dec n = some s') : Follows I s s' := by
  have hsafe : Safe I s (s.modifySin n fun x => { x with ref_count := (s.sin n).ref_count - 1 }) :=
    h.consistent.modify_safe ⟨fun _ _ => rfl, rfl⟩ id rfl rfl
  rw [inode_ref_dec] at heq
  simp only [bind_eq_bind, bind_eq_some_iff] at heq
  obtain ⟨-, -, heq⟩ := heq
  split_ifs at heq
  · simp only [bind_eq_some_iff, Prod.exists, Option.pure_def, some.injEq] at heq
    obtain ⟨r, s1, hreclaim, rfl⟩ := heq
    exact hsafe.trans_follows (reclaim_follows (hsafe.mounted h) (hsafe.list ▸ hn) hreclaim)
  · cases heq
    exact hsafe.follows h

end ucore.sfs_fs
