import Mips32S.Kernel.Sfs.Walk

open layout ownership outcome

namespace ucore.sfs_fs

variable {I : Finset ℕ} {s s' s'' s1 s2 : sfs_fs} {n m b k p index last len offset lo hi : ℕ}
  {write : Bool} {x x' x'' : Transfer}

/-- The byte at the position `p` of the file `n`. -/
def data (I : Finset ℕ) (s : sfs_fs) (n p : ℕ) : BitVec 8 :=
  s.disk (slot I s (n, fileSlot (p / SFS_BLKSIZE))) (p % SFS_BLKSIZE)

/-- Every counted block of the file `n` is there. -/
def Filled (I : Finset ℕ) (s : sfs_fs) (n : ℕ) : Prop :=
  ∀ k < (s.sin n).din.blocks, slot I s (n, fileSlot k) ≠ 0

/-- The bytes from `lo` to `hi` of the file `n` have been transferred, and `last` is the last block
that was mapped. -/
structure Transferred (I : Finset ℕ) (write : Bool) (n lo hi last : ℕ) (x : Transfer) (s : sfs_fs)
    (x' : Transfer) (s' : sfs_fs) : Prop where
  consistent : s'.Consistent I
  steps : (s.store I).Steps (s'.store I)
  frame : Frame I n s s'
  others : ∀ m ≠ n, ∀ k, slot I s (m, fileSlot k) ≠ 0 → ∀ i < SFS_BLKSIZE,
    s'.disk (slot I s (m, fileSlot k)) i = s.disk (slot I s (m, fileSlot k)) i
  touched : ∀ p, lo ≤ p → p < hi → slot I s' (n, fileSlot (p / SFS_BLKSIZE)) ≠ 0
  written : write = true → ∀ p, slot I s (n, fileSlot (p / SFS_BLKSIZE)) ≠ 0 ∨ lo ≤ p ∧ p < hi →
    data I s' n p = copy (data I s n) lo x.buf x.alen (hi - lo) p
  read : write = false → ∀ p, slot I s (n, fileSlot (p / SFS_BLKSIZE)) ≠ 0 →
    data I s' n p = data I s n p
  alen : x'.alen = x.alen + (hi - lo)
  buf : x'.buf = if write then x.buf else copy x.buf x.alen (data I s' n) lo (hi - lo)
  nblocks : (s'.sin n).din.blocks = max (s.sin n).din.blocks (last + 1)
  filled : Filled I s n → Filled I s' n

/-- A transfer that can go on: the block that was mapped last is known. -/
structure Moved (I : Finset ℕ) (write : Bool) (n lo hi last : ℕ) (x : Transfer) (s : sfs_fs)
    (x' : Transfer) (s' : sfs_fs) : Prop extends Transferred I write n lo hi last x s x' s' where
  ino : slot I s' (n, fileSlot last) = x'.ino ∧ x'.ino ≠ 0
  shifted : write = false → last < (s.sin n).din.blocks → Shifted s s'
  enough : ∀ l, last ≤ l → s.Enough n l → s'.Enough n l

section
variable {lo mid hi l1 l2 : ℕ}

theorem Transferred.of_keeps (hkeeps : Keeps I n s s') (hcons : s'.Consistent I)
    (hsteps : (s.store I).Steps (s'.store I))
    (hblocks : (s'.sin n).din.blocks = max (s.sin n).din.blocks (last + 1))
    (hfilled : Filled I s n → Filled I s' n) :
    Transferred I write n lo lo last x s { x with ino := b } s' := by
  have hdata : ∀ p, slot I s (n, fileSlot (p / SFS_BLKSIZE)) ≠ 0 → data I s' n p = data I s n p :=
    fun p hp => by rw [data, data, hkeeps.slot _ hp, hkeeps.disk _ _ hp]
  refine ⟨hcons, hsteps, hkeeps.toFrame, fun m _ k hk i _ => congrFun (hkeeps.disk m k hk) i,
    fun p hp hp' => by omega, fun _ p hp => ?_, fun _ => hdata, by simp, ?_, hblocks, hfilled⟩
  · rw [Nat.sub_self, copy_zero]
    exact hdata p (hp.resolve_right (by omega))
  · rw [Nat.sub_self, copy_zero, ite_self]

theorem Transferred.relocate (h : Transferred I write n lo lo last x s x' s') :
    Transferred I write n hi hi last x s x' s' := by
  have halen := h.alen
  have hbuf := h.buf
  rw [Nat.sub_self, copy_zero] at hbuf
  refine { h with touched := fun p hp hp' => by omega, written := fun hw p hp => ?_,
                  alen := by omega, buf := ?_ }
  · rw [h.written hw p (.inl (hp.resolve_right (by omega))), Nat.sub_self, Nat.sub_self, copy_zero,
      copy_zero]
  · rw [hbuf, Nat.sub_self, copy_zero]

theorem Transferred.trans (h : Transferred I write n lo mid l1 x s x' s')
    (h' : Transferred I write n mid hi l2 x' s' x'' s'') (hlo : lo ≤ mid) (hhi : mid ≤ hi)
    (hl : l1 ≤ l2) : Transferred I write n lo hi l2 x s x'' s'' := by
  have hslot := h.frame.slot
  have hslot' := h'.frame.slot
  have hsum : hi - lo = mid - lo + (hi - mid) := by omega
  have hmid : lo + (mid - lo) = mid := by omega
  refine ⟨h'.consistent, h.steps.trans h'.steps, h.frame.trans h'.frame, fun m hm k hk i hi => ?_,
    fun p hp hp' => ?_, fun hw p hp => ?_, fun hr p hp => ?_, ?_, ?_, ?_,
    fun hf => h'.filled (h.filled hf)⟩
  · have hsame := hslot _ hk
    have hother := h'.others m hm k (hsame ▸ hk) i hi
    rw [hsame] at hother
    rw [hother, h.others m hm k hk i hi]
  · rcases Nat.lt_or_ge p mid with hlt | hge
    · have htouched := h.touched p hp hlt
      rwa [hslot' _ htouched]
    · exact h'.touched p hge hp'
  · have hbuf : x'.buf = x.buf := by rw [h.buf, hw, if_pos rfl]
    rw [hsum, ← copy_copy, hmid, ← h.alen, ← hbuf]
    by_cases hin : slot I s (n, fileSlot (p / SFS_BLKSIZE)) ≠ 0 ∨ lo ≤ p ∧ p < mid
    · have hthere : slot I s' (n, fileSlot (p / SFS_BLKSIZE)) ≠ 0 := by
        rcases hin with hne | ⟨hp1, hp2⟩
        · rwa [hslot _ hne]
        · exact h.touched p hp1 hp2
      rw [h'.written hw p (.inl hthere)]
      by_cases hnew : mid ≤ p ∧ p < mid + (hi - mid)
      · rw [copy_of_mem hnew.1 hnew.2, copy_of_mem hnew.1 hnew.2]
      · rw [copy_of_not hnew, copy_of_not hnew, h.written hw p hin, hbuf]
    · have hnew : mid ≤ p ∧ p < hi := by
        rcases hp with hne | hp
        · exact absurd (.inl hne) hin
        · omega
      rw [h'.written hw p (.inr hnew), copy_of_mem hnew.1 (by omega), copy_of_mem hnew.1 (by omega)]
  · have hthere : slot I s' (n, fileSlot (p / SFS_BLKSIZE)) ≠ 0 := by rwa [hslot _ hp]
    rw [h'.read hr p hthere, h.read hr p hp]
  · rw [h'.alen, h.alen]
    omega
  · rw [h'.buf, h.buf]
    cases write with
    | true => rfl
    | false =>
      have hcongr : copy x.buf x.alen (data I s' n) lo (mid - lo) =
          copy x.buf x.alen (data I s'' n) lo (mid - lo) :=
        copy_congr fun p hp hp' => (h'.read rfl p (h.touched p hp (by omega))).symm
      simp only [Bool.false_eq_true, if_false]
      rw [hcongr, h.alen, hsum, ← copy_copy, hmid]
  · rw [h'.nblocks, h.nblocks]
    omega

theorem Moved.trans (h : Moved I write n lo mid l1 x s x' s')
    (h' : Moved I write n mid hi l2 x' s' x'' s'') (hlo : lo ≤ mid) (hhi : mid ≤ hi)
    (hl : l1 ≤ l2) :
    Moved I write n lo hi l2 x s x'' s'' := by
  refine ⟨h.toTransferred.trans h'.toTransferred hlo hhi hl, h'.ino, fun hr hlt => ?_,
    fun l hle he => h'.enough l hle (h.enough l (hl.trans hle) he)⟩
  have hlt' : l1 < (s.sin n).din.blocks := by omega
  refine (h.shifted hr hlt').trans (h'.shifted hr ?_)
  rw [h.nblocks]
  omega

end

section
variable {buf : ℕ → BitVec 8}

theorem mem_block (hlen : offset + len ≤ SFS_BLKSIZE) :
    index * SFS_BLKSIZE + offset ≤ p ∧ p < index * SFS_BLKSIZE + offset + len ↔
      p / SFS_BLKSIZE = index ∧ offset ≤ p % SFS_BLKSIZE ∧ p % SFS_BLKSIZE < offset + len := by
  have hsize : SFS_BLKSIZE = 4096 := rfl
  rw [hsize] at hlen ⊢
  omega

theorem moved_load (hl : Loaded I n index b s s') :
    Moved I write n lo lo index x s { x with ino := b } s' := by
  refine ⟨.of_keeps hl.keeps hl.consistent hl.steps hl.nblocks fun hfilled k hk => ?_,
    ⟨hl.slot, hl.ne_zero⟩, fun _ => hl.shifted, hl.enough⟩
  rw [hl.nblocks] at hk
  have hle := hl.index_le
  by_cases hkb : k < (s.sin n).din.blocks
  · rw [hl.keeps.slot _ (hfilled k hkb)]
    exact hfilled k hkb
  · have heq : k = index := by omega
    rw [heq, hl.slot]
    exact hl.ne_zero

/-- A write goes to a block of the file `n`. -/
def Ready (write : Bool) (I : Finset ℕ) (n : ℕ) (x : Transfer) (s : sfs_fs) : Prop :=
  write = true → ∃ k, slot I s (n, fileSlot k) = x.ino ∧ x.ino ≠ 0

theorem BlockOp.spec (h : s.Consistent I) (hdev : s.Reliable) (hready : Ready write I n x s)
    (hop : BlockOp write x.ino offset len x s buf s') :
    ∃ disk answer, s' = { s with disk, answer } ∧ s'.Consistent I ∧ slot I s' = slot I s ∧
      s'.Reliable ∧ (∀ m ∈ I, s'.disk m = s.disk m) ∧
      ∀ c, (write = true → c ≠ x.ino) → s'.disk c = s.disk c := by
  cases write with
  | true =>
    obtain ⟨-, y, ans, hans, -, hs'⟩ := hop
    obtain ⟨k, hslot, hne⟩ := hready rfl
    have hdata := h.data_of_slot (hslot ▸ hne)
    rw [hslot] at hdata
    obtain ⟨hcons, hslot'⟩ := h.overwrite hdata hs'
    have hother : ∀ c ≠ x.ino, s'.disk c = s.disk c := fun c hc => by
      rw [hs']
      exact Function.update_of_ne hc _ _
    refine ⟨_, ans, hs', hcons, hslot', fun i => ?_, fun m hm => hother m (hdata m hm).1,
      fun c hc => hother c (hc rfl)⟩
    rw [hs']
    exact hans i
  | false =>
    obtain ⟨-, hs'⟩ := hop
    have hdisk : s'.disk = s.disk := by
      obtain ⟨i, rfl⟩ := hs'
      rfl
    refine ⟨s.disk, s'.answer, ?_, hs'.consistent h, hs'.slot, hdev.shifted hs',
      fun m _ => by rw [hdisk], fun c _ => by rw [hdisk]⟩
    obtain ⟨i, rfl⟩ := hs'
    rfl

theorem moved_op (h : s.Consistent I) (hdev : s.Reliable)
    (hino : slot I s (n, fileSlot index) = x.ino ∧ x.ino ≠ 0) (hlt : index < (s.sin n).din.blocks)
    (hlen : offset + len ≤ SFS_BLKSIZE) (hop : BlockOp write x.ino offset len x s buf s') :
    Moved I write n (index * SFS_BLKSIZE + offset) (index * SFS_BLKSIZE + offset + len) index x s
      { x with buf, alen := x.alen + len } s' := by
  obtain ⟨disk, answer, hs', hcons, hslot', hdev', hinode, hother⟩ :=
    hop.spec h hdev fun _ => ⟨index, hino⟩
  obtain ⟨hslot, hb⟩ := hino
  have hsin : s'.sin = s.sin := by rw [hs']
  have hstore : s'.store I = s.store I := by
    rw [store, hslot', hs']
    rfl
  have hunique : ∀ m k, slot I s (m, fileSlot k) = x.ino → (m, k) = (n, index) := fun m k heq => by
    have hsame := h.slot_unique (heq.trans hslot.symm) (heq ▸ hb)
    obtain ⟨rfl, hk⟩ := Prod.ext_iff.mp hsame
    rw [fileSlot_inj hk]
  refine ⟨⟨hcons, hstore ▸ .refl, ⟨⟨by rw [hs'], by rw [hs'], fun _ _ => by rw [hsin], by rw [hsin],
    by rw [hsin], by rw [hsin], by rw [hsin], by rw [hsin], fun _ => hdev', hinode⟩,
    fun r _ => by rw [hslot']⟩, fun m hm k _ i _ => ?_, fun p hp hp' => ?_, fun hw p hp => ?_,
    fun hr p _ => ?_, by dsimp only; omega, ?_, by rw [hsin]; omega, fun hfilled k hk => ?_⟩,
    ⟨by rw [hslot', hslot], hb⟩, fun hr _ => ?_, fun l _ he => ?_⟩
  · rw [hother _ fun _ heq => hm (Prod.ext_iff.mp (hunique m k heq)).1]
  · rwa [((mem_block hlen).mp ⟨hp, hp'⟩).1, hslot', hslot]
  · subst hw
    obtain ⟨-, y, ans, -, hy, hs1⟩ := hop
    have hself : s'.disk x.ino = y := by
      rw [hs1]
      exact Function.update_self ..
    have hmod : p % SFS_BLKSIZE < SFS_BLKSIZE := Nat.mod_lt p (by decide)
    rw [data, hslot', Nat.add_sub_cancel_left]
    by_cases hindex : p / SFS_BLKSIZE = index
    · rw [hindex, hslot, hself, hy _ hmod]
      by_cases hin : offset ≤ p % SFS_BLKSIZE ∧ p % SFS_BLKSIZE < offset + len
      · have hmem := (mem_block hlen).mpr ⟨hindex, hin⟩
        have hdiv := Nat.div_add_mod' p SFS_BLKSIZE
        rw [hindex] at hdiv
        rw [copy_of_mem hin.1 hin.2, copy_of_mem hmem.1 hmem.2]
        congr 1
        omega
      · rw [copy_of_not hin, copy_of_not fun hmem => hin ((mem_block hlen).mp hmem).2, data,
          hindex, hslot]
    · rw [hother _ fun _ heq => hindex (Prod.ext_iff.mp (hunique n _ heq)).2,
        copy_of_not fun hmem => hindex ((mem_block hlen).mp hmem).1, data]
  · rw [data, data, hslot', hother _ fun hw => by simp [hr] at hw]
  · cases write with
    | true => exact hop.1
    | false =>
      rw [if_neg (by simp), Nat.add_sub_cancel_left, hop.1]
      funext i
      dsimp only
      by_cases hi : x.alen ≤ i ∧ i < x.alen + len
      · set q := index * SFS_BLKSIZE + offset + (i - x.alen) with hq
        have hin : index * SFS_BLKSIZE + offset ≤ q ∧ q < index * SFS_BLKSIZE + offset + len := by
          omega
        have hindex := ((mem_block hlen).mp hin).1
        have hdiv := Nat.div_add_mod' q SFS_BLKSIZE
        rw [hindex] at hdiv
        rw [copy_of_mem hi.1 hi.2, copy_of_mem hi.1 hi.2, data, ← hq, hindex, hslot', hslot,
          hother _ fun hw => by cases hw]
        congr 1
        omega
      · rw [copy_of_not hi, copy_of_not hi]
  · rw [hslot']
    exact hfilled k (by rwa [hsin] at hk)
  · subst hr
    exact hop.2
  · unfold Enough at he ⊢
    rwa [hsin, hs']

end

/-- The last block could not be mapped, and no byte of it is moved. -/
structure Short (I : Finset ℕ) (write : Bool) (n lo hi : ℕ) (x : Transfer) (s : sfs_fs)
    (x' : Transfer) (s' : sfs_fs) : Prop where
  aligned : hi % SFS_BLKSIZE = 0
  few : ¬s.Enough n (hi / SFS_BLKSIZE)
  transferred : Transferred I write n lo hi (hi / SFS_BLKSIZE - 1) x s x' s'
  ino : slot I s' (n, fileSlot (hi / SFS_BLKSIZE - 1)) = x'.ino ∧ x'.ino ≠ 0

/-- How far the transfer of the bytes from `lo` to `hi` is. -/
def Underway (I : Finset ℕ) (write : Bool) (n lo hi : ℕ) (x : Transfer) (s : sfs_fs)
    (index pos : ℕ) (x' : Transfer) (s' : sfs_fs) : Prop :=
  lo ≤ pos ∧ (Moved I write n lo pos index x s x' s' ∨
    index = hi / SFS_BLKSIZE ∧ pos = hi ∧ Short I write n lo hi x s x' s')

/-- Why the transfer of the bytes from `lo` to `hi` may stop. -/
def Stuck (I : Finset ℕ) (n lo hi : ℕ) (s : sfs_fs) : Prop :=
  ¬(Filled I s n ∧ lo / SFS_BLKSIZE ≤ (s.sin n).din.blocks ∧
    hi / SFS_BLKSIZE < SFS_NDIRECT + SFS_BLK_NENTRY)

theorem Underway.op {buf : ℕ → BitVec 8} (hdev : s.Reliable) (hlen : offset + len ≤ SFS_BLKSIZE)
    (hhi : index * SFS_BLKSIZE + offset + len ≤ hi)
    (hu : Underway I write n lo hi x s index (index * SFS_BLKSIZE + offset) x' s')
    (hop : BlockOp write x'.ino offset len x' s' buf s'') :
    Underway I write n lo hi x s index (index * SFS_BLKSIZE + offset + len)
      ⟨x'.ino, buf, x'.alen + len⟩ s'' := by
  obtain ⟨hle, hm | ⟨rfl, hpos, hs⟩⟩ := hu
  · have hlt : index < (s'.sin n).din.blocks := by
      rw [hm.nblocks]
      omega
    have hmoved := moved_op hm.consistent (hm.frame.reliable hdev) hm.ino hlt hlen hop
    exact ⟨by omega, .inl (hm.trans hmoved hle (by omega) le_rfl)⟩
  · obtain rfl : len = 0 := by omega
    have hstart := Nat.div_add_mod' hi SFS_BLKSIZE
    obtain rfl : offset = 0 := by
      have := hs.aligned
      omega
    have hlt : hi / SFS_BLKSIZE - 1 < (s'.sin n).din.blocks := by
      rw [hs.transferred.nblocks]
      omega
    have hmoved := moved_op hs.transferred.consistent
        (hs.transferred.frame.reliable hdev) hs.ino hlt
      hlen hop
    exact ⟨by omega, .inr ⟨rfl, by omega, hs.aligned, hs.few,
      hs.transferred.trans hmoved.toTransferred.relocate (by omega) le_rfl le_rfl, hmoved.ino⟩⟩

variable (h : s.Consistent I) (hn : n ∈ s.inode_list) (hdev : s.Reliable)
include h hn hdev

theorem map_cases (x : Transfer) (hle : index ≤ last) (henough : s.Enough n last) :
    sfs_io_nolock.load n index x s = none ∧
      ¬(Filled I s n ∧ index ≤ (s.sin n).din.blocks ∧ index < SFS_NDIRECT + SFS_BLK_NENTRY) ∨
    ∃ b s', sfs_io_nolock.load n index x s = some ({ x with ino := b }, s') ∧
      Loaded I n index b s s' := by
  rcases load_cases h hn hdev index with ⟨heq, hwhy⟩ | ⟨b, s', heq, hl⟩ | ⟨s', -, -, hfew⟩
  · refine .inl ⟨by simp [sfs_io_nolock.load, heq], fun ⟨hfilled, hle, hlt⟩ => ?_⟩
    rcases hwhy with hwhy | hwhy | ⟨hlt', hzero⟩
    · omega
    · omega
    · exact hfilled index hlt' hzero
  · exact .inr ⟨b, s', by simp [sfs_io_nolock.load, heq], hl⟩
  · exact absurd henough (hfew last hle)

variable {lo hi : ℕ} (henough : s.Enough n ((hi - 1) / SFS_BLKSIZE))
include henough
omit h in
theorem Underway.load (hge : lo / SFS_BLKSIZE ≤ index) (hlt : index < hi / SFS_BLKSIZE)
    (hu : Underway I write n lo hi x s index ((index + 1) * SFS_BLKSIZE) x' s') :
    After (Stuck I n lo hi s) (sfs_io_nolock.load n (index + 1) x' s') fun r =>
      Underway I write n lo hi x s (index + 1) ((index + 1) * SFS_BLKSIZE) r.1 r.2 := by
  obtain ⟨hle, hm | ⟨rfl, -⟩⟩ := hu
  swap
  · exact absurd hlt (lt_irrefl _)
  have hcount := hm.nblocks
  rcases load_cases hm.consistent (hm.frame.list ▸ hn) (hm.frame.reliable hdev) (index + 1) with
    ⟨heq, hwhy⟩ | ⟨b, s2, heq, hl⟩ | ⟨s2, heq, href, hfew⟩
  · simp only [sfs_io_nolock.load, heq]
    rintro ⟨hfilled, -, hmax⟩
    rcases hwhy with hwhy | hwhy | ⟨hlt', hslot⟩
    · omega
    · omega
    · exact hm.filled hfilled _ hlt' hslot
  · simp only [sfs_io_nolock.load, heq]
    exact ⟨hle, .inl (hm.trans (moved_load hl) hle le_rfl (by omega))⟩
  · simp only [sfs_io_nolock.load, heq]
    have hsize : SFS_BLKSIZE = 4096 := rfl
    have hlast : (hi - 1) / SFS_BLKSIZE < index + 1 := by
      by_contra hnot
      exact hfew _ (not_lt.mp hnot) (hm.enough _ (by omega) henough)
    have hend : index + 1 = hi / SFS_BLKSIZE ∧ (index + 1) * SFS_BLKSIZE = hi := by
      rw [hsize] at hlt hlast ⊢
      omega
    have hprev : index = hi / SFS_BLKSIZE - 1 := by omega
    have hslot : slot I s2 = slot I s' := congrArg Store.slot href.store
    have hkept : Transferred I write n _ _ index x s x' s2 := hm.toTransferred.trans
      (.of_keeps (href.keeps n) href.consistent (href.store ▸ .refl) (by rw [href.sin]; omega)
        fun hfilled k hk => by
          rw [hslot]
          exact hfilled k (by rwa [href.sin] at hk)) hle le_rfl le_rfl
    have hino := hm.ino
    rw [← hslot] at hino
    rw [hend.2, hprev] at hkept
    rw [hprev] at hino
    refine ⟨hle, .inr ⟨hend.1, hend.2, by rw [← hend.2, Nat.mul_mod_left], fun he => ?_, hkept,
      hino⟩⟩
    exact hfew _ hend.1.le (hm.enough _ (by omega) he)

/-- The whole transfer, with enough free blocks for its bytes. If it ends with a block, the next
block may be missing. -/
theorem transfer_cases (write : Bool) (x : Transfer) (hlt : lo < hi) :
    sfs_io_nolock.transfer write n lo hi x s = none ∧ Stuck I n lo hi s ∨
    (∃ x' s', sfs_io_nolock.transfer write n lo hi x s = some (x', s') ∧
      Moved I write n lo hi (hi / SFS_BLKSIZE) x s x' s') ∨
    hi % SFS_BLKSIZE = 0 ∧ ¬s.Enough n (hi / SFS_BLKSIZE) ∧ ∃ x' s',
      sfs_io_nolock.transfer write n lo hi x s = some (x', s') ∧
      Transferred I write n lo hi (hi / SFS_BLKSIZE - 1) x s x' s' := by
  have hwalk : Walk (Stuck I n lo hi s) write n lo hi (Underway I write n lo hi x s) := by
    refine .of_op (fun ⟨_, hu⟩ => ?_) (Underway.load hn hdev henough) (Underway.op hdev)
    obtain hm | ⟨-, -, hs⟩ := hu
    · exact ⟨hm.frame.reliable hdev, .inr ⟨hm.ino.2, hm.ino.1 ▸ hm.consistent.slot_lt _⟩⟩
    · have ht := hs.transferred
      exact ⟨ht.frame.reliable hdev, .inr ⟨hs.ino.2, hs.ino.1 ▸ ht.consistent.slot_lt _⟩⟩
  have hfirst : After (Stuck I n lo hi s) (sfs_io_nolock.load n (lo / SFS_BLKSIZE) x s) fun r =>
      Underway I write n lo hi x s (lo / SFS_BLKSIZE) lo r.1 r.2 := by
    have hle : lo / SFS_BLKSIZE ≤ (hi - 1) / SFS_BLKSIZE := Nat.div_le_div_right (by omega)
    rcases map_cases h hn hdev x hle henough with ⟨heq, hwhy⟩ | ⟨b, s', heq, hl⟩
    · rw [heq]
      exact fun ⟨hfilled, hstart, hmax⟩ => hwhy ⟨hfilled, hstart,
        lt_of_le_of_lt (Nat.div_le_div_right hlt.le) hmax⟩
    · rw [heq]
      exact ⟨le_rfl, .inl (moved_load hl)⟩
  rcases (hwalk.transfer hlt hfirst).cases with hnone | ⟨⟨x', s'⟩, heq, -, hm | ⟨-, -, hs⟩⟩
  · exact .inl hnone
  · exact .inr (.inl ⟨x', s', heq, hm⟩)
  · exact .inr (.inr ⟨hs.aligned, hs.few, x', s', heq, hs.transferred⟩)

end ucore.sfs_fs
