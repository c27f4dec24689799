import Mips32S.Kernel.Sfs.Io
import Mips32S.Lib.Growable

open layout ownership growable Function

namespace ucore.sfs_fs

variable {I F : Finset ℕ} {s s' : sfs_fs} {n m p lo hi last stop size offset : ℕ} {write : Bool}
  {x x' : Transfer}

/-- The bytes of the file `n`. -/
def file (I : Finset ℕ) (s : sfs_fs) (n : ℕ) : List (BitVec 8) :=
  contents (s.dinode n).size (data I s n)

/-- The blocks that are counted are there, and hold the bytes of the file. -/
structure Sound (I : Finset ℕ) (s : sfs_fs) (n : ℕ) : Prop where
  blocks : ∀ k < (s.dinode n).blocks, slot I s (n, fileSlot k) ≠ 0
  size : (s.dinode n).size ≤ (s.dinode n).blocks * SFS_BLKSIZE

theorem Sound.slot (h : Sound I s n) (hp : p < (s.dinode n).size) :
    slot I s (n, fileSlot (p / SFS_BLKSIZE)) ≠ 0 := by
  refine h.blocks _ ?_
  rw [Nat.div_lt_iff_lt_mul (by decide)]
  exact hp.trans_le h.size

theorem Sound.enough (h : Sound I s n) (hn : n ∈ s.inode_list) (hp : p < (s.dinode n).size) :
    s.Enough n (p / SFS_BLKSIZE) := by
  have hslot := h.slot hp
  have hsize := h.size
  have hlt : p / SFS_BLKSIZE < (s.dinode n).blocks := by
    rw [Nat.div_lt_iff_lt_mul (by decide)]
    exact hp.trans_le hsize
  rw [dinode_of_loaded hn] at hlt
  have hindirect : ¬(SFS_NDIRECT ≤ p / SFS_BLKSIZE ∧ (s.sin n).din.indirect = 0) := by
    rintro ⟨hle, hzero⟩
    rw [← dinode_of_loaded hn] at hzero
    rw [fileSlot, if_neg (by omega)] at hslot
    exact hslot (slot_entry_none hzero)
  unfold Enough
  rw [if_neg hindirect]
  omega

section

theorem Preserves.dinode_other (h : Preserves I n s s') (hm : m ≠ n) (hI : m ∈ I) :
    s'.dinode m = s.dinode m := by
  rw [dinode, dinode, h.list, h.other m hm, h.inode m hI]

theorem setSize_dinode_other (hm : m ≠ n) : (s.setSize n size).dinode m = s.dinode m := by
  have hlist : (s.setSize n size).inode_list = s.inode_list := rfl
  have hdisk : (s.setSize n size).disk = s.disk := rfl
  rw [dinode, dinode, hlist, hdisk, setSize_sin_other hm]

theorem grow_dinode_other (hm : m ≠ n) : (s.grow n stop).dinode m = s.dinode m := by
  rw [grow]
  split_ifs
  · exact setSize_dinode_other hm
  · rfl

theorem grow_dinode_self (hn : n ∈ s.inode_list) : (s.grow n stop).dinode n =
    { s.dinode n with size := max (s.dinode n).size stop } := by
  have hn' : n ∈ (s.setSize n stop).inode_list := hn
  rw [grow]
  split_ifs with hlt
  · rw [dinode_of_loaded hn', dinode_of_loaded hn, setSize_sin_self, Nat.max_eq_right hlt.le]
  · rw [dinode_of_loaded hn, Nat.max_eq_left (not_lt.mp hlt)]

theorem Consistent.grow (h : s.Consistent I) (n stop : ℕ) :
    (s.grow n stop).Consistent I ∧ sfs_fs.slot I (s.grow n stop) = sfs_fs.slot I s ∧
      data I (s.grow n stop) = data I s := by
  rw [sfs_fs.grow]
  split_ifs
  · obtain ⟨hcons, hslot⟩ := h.setSize n stop
    refine ⟨hcons, hslot, ?_⟩
    funext m p
    rw [data, data, hslot]
    rfl
  · exact ⟨h, rfl, rfl⟩

theorem grow_reliable (h : s.Reliable) : (s.grow n stop).Reliable := by
  rw [grow]
  split_ifs <;> exact h

variable (ht : Transferred I write n lo hi last x s x' s')
include ht

theorem Transferred.dinode_other (hm : m ≠ n) (hI : m ∈ I) : (s'.grow n hi).dinode m = s.dinode m :=
  (grow_dinode_other hm).trans (ht.frame.dinode_other hm hI)

theorem Transferred.other (hm : m ≠ n) (hI : m ∈ I) (hsound : Sound I s m) :
    file I (s'.grow n hi) m = file I s m ∧ Sound I (s'.grow n hi) m := by
  obtain ⟨-, hslot, hdata⟩ := ht.consistent.grow n hi
  have hdin := ht.dinode_other hm hI
  refine ⟨?_, ?_, ?_⟩
  · rw [file, hdin, hdata]
    refine contents_congr fun p hp => ?_
    have hne := hsound.slot hp
    rw [data, ht.frame.slot _ hne, ht.others m hm _ hne _ (Nat.mod_lt p (by decide)), data]
  · intro k hk
    rw [hdin] at hk
    rw [hslot, ht.frame.slot _ (hsound.blocks k hk)]
    exact hsound.blocks k hk
  · rw [hdin]
    exact hsound.size

variable (hn : n ∈ s.inode_list)
include hn

theorem Transferred.dinode_size : ((s'.grow n hi).dinode n).size = max (s.dinode n).size hi := by
  have hn' : n ∈ s'.inode_list := ht.frame.list ▸ hn
  rw [grow_dinode_self hn', dinode_of_loaded hn', ht.frame.size, dinode_of_loaded hn]

theorem Transferred.dinode_blocks :
    ((s'.grow n hi).dinode n).blocks = max (s.dinode n).blocks (last + 1) := by
  have hn' : n ∈ s'.inode_list := ht.frame.list ▸ hn
  rw [grow_dinode_self hn', dinode_of_loaded hn', ht.nblocks, dinode_of_loaded hn]

variable (hsound : Sound I s n)
include hsound

theorem Transferred.sound (hlast : hi ≤ (last + 1) * SFS_BLKSIZE) : Sound I (s'.grow n hi) n := by
  obtain ⟨-, hslot, -⟩ := ht.consistent.grow n hi
  have hfilled : Filled I s n := fun k hk => hsound.blocks k (by rwa [dinode_of_loaded hn])
  have hblocks := ht.dinode_blocks hn
  refine ⟨fun k hk => ?_, ?_⟩
  · rw [hblocks, dinode_of_loaded hn, ← ht.nblocks] at hk
    rw [hslot]
    exact ht.filled hfilled k hk
  · have hmono : (s.dinode n).blocks * SFS_BLKSIZE ≤
        max (s.dinode n).blocks (last + 1) * SFS_BLKSIZE := Nat.mul_le_mul_right _ (le_max_left ..)
    have hmono' : (last + 1) * SFS_BLKSIZE ≤
        max (s.dinode n).blocks (last + 1) * SFS_BLKSIZE := Nat.mul_le_mul_right _ (le_max_right ..)
    rw [ht.dinode_size hn, hblocks]
    exact max_le (hsound.size.trans hmono) (hlast.trans hmono')

theorem Transferred.file_write (hw : write = true) (hlo : lo ≤ (s.dinode n).size) (hle : lo ≤ hi)
    (halen : x.alen = 0) :
    file I (s'.grow n hi) n = growable.write (file I s n) lo (contents (hi - lo) x.buf) := by
  obtain ⟨-, -, hdata⟩ := ht.consistent.grow n hi
  have hhi : lo + (hi - lo) = hi := by omega
  rw [file, ht.dinode_size hn, hdata, file, write_contents hlo, hhi]
  refine contents_congr fun p hp => ?_
  rw [ht.written hw p ?_, halen]
  rcases Nat.lt_or_ge p (s.dinode n).size with hlt | hge
  · exact .inl (hsound.slot hlt)
  · exact .inr (by omega)

theorem Transferred.file_read (hr : write = false) (hhi : hi ≤ (s.dinode n).size) (hle : lo ≤ hi)
    (halen : x.alen = 0) :
    file I (s'.grow n hi) n = file I s n ∧
      x'.buf = fill (contents (hi - lo) fun i => data I s n (lo + i)) x.buf := by
  obtain ⟨-, -, hdata⟩ := ht.consistent.grow n hi
  have hsame : ∀ p < (s.dinode n).size, data I s' n p = data I s n p := fun p hp =>
    ht.read hr p (hsound.slot hp)
  constructor
  · rw [file, ht.dinode_size hn, hdata, Nat.max_eq_left hhi, file]
    exact contents_congr hsame
  · rw [ht.buf, hr, halen, fill_contents]
    exact copy_congr fun p hp hp' => hsame p (by omega)

end

theorem transfer_spec (write : Bool) (h : s.Consistent I) (hn : n ∈ s.inode_list)
    (hdev : s.Reliable) (hsound : Sound I s n) (hlt : offset < hi)
    (hoff : offset ≤ (s.dinode n).size) (hmax : hi < (SFS_NDIRECT + SFS_BLK_NENTRY) * SFS_BLKSIZE)
    (henough : s.Enough n ((hi - 1) / SFS_BLKSIZE)) :
    ∃ x' s' last, sfs_io_nolock.transfer write n offset hi x s = some (x', s') ∧
      Transferred I write n offset hi last x s x' s' ∧ hi ≤ (last + 1) * SFS_BLKSIZE := by
  have hdiv : hi / SFS_BLKSIZE * SFS_BLKSIZE + hi % SFS_BLKSIZE = hi := Nat.div_add_mod' _ _
  have hmod : hi % SFS_BLKSIZE < SFS_BLKSIZE := Nat.mod_lt _ (by decide)
  rcases transfer_cases h hn hdev henough write x hlt with
    ⟨-, hwhy⟩ | ⟨x', s', heq, hm⟩ | ⟨hzero, -, x', s', heq, ht⟩
  · refine absurd ⟨fun k hk => hsound.blocks k ?_, ?_, ?_⟩ hwhy
    · rwa [dinode_of_loaded hn]
    · have hle := hoff.trans hsound.size
      rw [dinode_of_loaded hn] at hle
      exact (Nat.div_le_div_right hle).trans (Nat.mul_div_cancel _ (by decide)).le
    · exact Nat.div_lt_of_lt_mul (by rwa [Nat.mul_comm])
  · refine ⟨x', s', _, heq, hm.toTransferred, ?_⟩
    rw [Nat.succ_mul]
    omega
  · refine ⟨x', s', _, heq, ht, ?_⟩
    rw [hzero, Nat.add_zero] at hdiv
    have hpos : 0 < hi / SFS_BLKSIZE := by
      by_contra hnot
      rw [Nat.eq_zero_of_not_pos hnot, Nat.zero_mul] at hdiv
      omega
    rw [Nat.sub_add_cancel hpos, hdiv]

/-- A call of `sfs_read` or `sfs_write` on one of the files of `F`. -/
structure Op (F : Finset ℕ) where
  write : Bool
  n : F
  buf : ℕ → BitVec 8
  offset : BitVec 32
  resid : BitVec 32
  ino : ℕ

namespace Op

/-- The error number, the number of bytes and the buffer after a call. -/
abbrev Result : Type := ℤ × ℕ × (ℕ → BitVec 8)

def exec (op : Op F) (s : sfs_fs) : Option (Result × sfs_fs) :=
  (s.sfs_io op.write op.n op.buf op.offset op.resid op.ino).map fun r =>
    ((r.1, r.2.1, r.2.2.1), r.2.2.2)

def execAll : List (Op F) → sfs_fs → Option (List Result × sfs_fs)
  | [], s => some ([], s)
  | op :: ops, s => do
    let (r, s) ← op.exec s
    let (rs, s) ← execAll ops s
    return (r :: rs, s)

/-- What a call does to growable arrays. -/
def spec (op : Op F) (files : F → List (BitVec 8)) : Result × (F → List (BitVec 8)) :=
  if op.write then
    ((0, op.resid.toNat, op.buf), update files op.n
      (growable.write (files op.n) op.offset.toNat (contents op.resid.toNat op.buf)))
  else
    let bytes := growable.read (files op.n) op.offset.toNat op.resid.toNat
    ((0, bytes.length, fill bytes op.buf), files)

def specAll : List (Op F) → (F → List (BitVec 8)) → List Result × (F → List (BitVec 8))
  | [], files => ([], files)
  | op :: ops, files =>
    let (r, files) := op.spec files
    let (rs, files) := specAll ops files
    (r :: rs, files)

/-- The file is open and regular, the call starts in it or at its end and stops before the end of
the last block that a file can have, and there are free blocks for what it writes. -/
@[mk_iff]
structure Fits (op : Op F) (s : sfs_fs) : Prop where
  loaded : op.n.1 ∈ s.inode_list
  regular : (s.dinode op.n).type = SFS_TYPE_FILE
  offset : op.offset.toNat ≤ (s.dinode op.n).size
  length : op.offset.toNat + op.resid.toNat < (SFS_NDIRECT + SFS_BLK_NENTRY) * SFS_BLKSIZE
  enough : op.write = true → 0 < op.resid.toNat →
    s.Enough op.n ((op.offset.toNat + op.resid.toNat - 1) / SFS_BLKSIZE)

instance (op : Op F) (s : sfs_fs) : Decidable (op.Fits s) :=
  decidable_of_iff _ (fits_iff op s).symm

theorem Fits.endpos {op : Op F} (h : op.Fits s) (size : ℕ) :
    endpos op.write size op.offset.toNat op.resid.toNat =
      if op.write then op.offset.toNat + op.resid.toNat
      else min (op.offset.toNat + op.resid.toNat) size := by
  have hblocks : (SFS_NDIRECT + SFS_BLK_NENTRY) * SFS_BLKSIZE ≤ SFS_MAX_FILE_SIZE := by decide
  have hlength := h.length
  rw [sfs_fs.endpos, Nat.min_eq_left (by omega)]

/-- Every call fits when its turn comes. -/
def AllFit : List (Op F) → sfs_fs → Prop
  | [], _ => True
  | op :: ops, s => op.Fits s ∧ ∀ r s', op.exec s = some (r, s') → AllFit ops s'

theorem AllFit.cons {op : Op F} {ops : List (Op F)} {r : Result × sfs_fs} (h : op.Fits s)
    (hexec : op.exec s = some r) (hops : AllFit ops r.2) : AllFit (op :: ops) s := by
  refine ⟨h, fun _ _ heq => ?_⟩
  cases hexec.symm.trans heq
  exact hops

end Op

/-- A file system on a device without errors, in which the files of `F` are sound. -/
structure Valid (I F : Finset ℕ) (s : sfs_fs) : Prop where
  consistent : s.Consistent I
  reliable : s.Reliable
  subset : F ⊆ I
  sound : ∀ m ∈ F, Sound I s m

/-- The bytes of all files. -/
def files (I F : Finset ℕ) (s : sfs_fs) (m : F) : List (BitVec 8) := file I s m

section
variable {op : Op F}

theorem Op.spec_empty (hfits : op.Fits s)
    (hlt : ¬op.offset.toNat < endpos op.write (s.sin op.n).din.size op.offset.toNat op.resid.toNat) :
    op.spec (files I F s) = ((0, 0, op.buf), files I F s) := by
  rw [← dinode_of_loaded hfits.loaded] at hlt
  cases hw : op.write with
  | true =>
    rw [hfits.endpos, hw, if_pos rfl] at hlt
    have hresid : op.resid.toNat = 0 := by omega
    have hsame : growable.write (files I F s op.n) op.offset.toNat [] = files I F s op.n := by
      simp [growable.write]
    simp [Op.spec, hw, hresid, contents, hsame]
  | false =>
    rw [hfits.endpos, hw, if_neg (by simp)] at hlt
    have hnone : min op.resid.toNat ((s.dinode op.n).size - op.offset.toNat) = 0 := by omega
    have hread : growable.read (files I F s op.n) op.offset.toNat op.resid.toNat = [] := by
      rw [files, file, read_contents, hnone]
      rfl
    have hfill : fill [] op.buf = op.buf := rfl
    simp [Op.spec, hw, hread, hfill]

section
variable {x' : Transfer} (h : Valid I F s)
  (ht : Transferred I op.write op.n op.offset.toNat hi last ⟨op.ino, op.buf, 0⟩ s x' s')
include h ht

theorem Valid.files_other {m : F} (hm : m ≠ op.n) : files I F (s'.grow op.n hi) m = files I F s m :=
  (ht.other (fun heq => hm (Subtype.ext heq)) (h.subset m.2) (h.sound m m.2)).1

variable (hfits : op.Fits s)
include hfits

theorem Valid.transferred (hlast : hi ≤ (last + 1) * SFS_BLKSIZE) :
    Valid I F (s'.grow op.n hi) := by
  refine ⟨(ht.consistent.grow _ _).1, grow_reliable (ht.frame.reliable h.reliable), h.subset,
    fun m hm => ?_⟩
  by_cases heq : m = op.n
  · rw [heq]
    exact ht.sound hfits.loaded (h.sound _ op.n.2) hlast
  · exact (ht.other heq (h.subset hm) (h.sound m hm)).2

theorem Valid.spec_moved
    (hhi : hi = endpos op.write (s.dinode op.n).size op.offset.toNat op.resid.toNat)
    (hlt : op.offset.toNat < hi) :
    op.spec (files I F s) = ((0, hi - op.offset.toNat, x'.buf), files I F (s'.grow op.n hi)) := by
  have hsound := h.sound op.n op.n.2
  cases hw : op.write with
  | true =>
    rw [hfits.endpos, hw, if_pos rfl] at hhi
    have hlen : hi - op.offset.toNat = op.resid.toNat := by omega
    have hbuf : x'.buf = op.buf := by rw [ht.buf, hw, if_pos rfl]
    have hself := ht.file_write hfits.loaded hsound hw hfits.offset hlt.le rfl
    have hfiles : files I F (s'.grow op.n hi) = update (files I F s) op.n
        (growable.write (files I F s op.n) op.offset.toNat (contents op.resid.toNat op.buf)) := by
      funext m
      by_cases hm : m = op.n
      · rwa [hm, update_self, ← hlen]
      · rw [update_of_ne hm, h.files_other ht hm]
    rw [Op.spec, hw, if_pos rfl, hfiles, hlen, hbuf]
  | false =>
    rw [hfits.endpos, hw, if_neg (by simp)] at hhi
    have hlen : min op.resid.toNat ((s.dinode op.n).size - op.offset.toNat) =
        hi - op.offset.toNat := by omega
    obtain ⟨hself, hbuf⟩ := ht.file_read hfits.loaded hsound hw (by omega) hlt.le rfl
    have hread : growable.read (files I F s op.n) op.offset.toNat op.resid.toNat =
        contents (hi - op.offset.toNat) fun i => data I s op.n (op.offset.toNat + i) := by
      rw [files, file, read_contents, hlen]
    have hfiles : files I F (s'.grow op.n hi) = files I F s := by
      funext m
      by_cases hm : m = op.n
      · rwa [hm]
      · exact h.files_other ht hm
    rw [Op.spec, hw, if_neg (by simp), hfiles, hbuf]
    simp only [hread, length_contents]

end

/-- One call does to the file system what it does to the arrays. -/
theorem Valid.exec (h : Valid I F s) (hfits : op.Fits s) :
    ∃ s', op.exec s = some ((op.spec (files I F s)).1, s') ∧
      files I F s' = (op.spec (files I F s)).2 ∧ Valid I F s' := by
  have hn := hfits.loaded
  have hdin := dinode_of_loaded hn
  have hsound := h.sound op.n op.n.2
  have hblocks : (SFS_NDIRECT + SFS_BLK_NENTRY) * SFS_BLKSIZE = 4243456 := by decide
  have hlength := hfits.length
  have hlimit : SFS_MAX_FILE_SIZE = 134217728 := rfl
  have hlegal : Legal op.offset.toNat op.resid.toNat := by
    unfold Legal
    omega
  have htype : (s.sin op.n).din.type ≠ SFS_TYPE_DIR := by
    rw [← hdin, hfits.regular]
    decide
  by_cases hlt : op.offset.toNat < endpos op.write (s.sin op.n).din.size op.offset.toNat op.resid.toNat
  swap
  · refine ⟨s, ?_, ?_, h⟩
    · rw [Op.exec, sfs_io_empty htype hlegal hlt, Op.spec_empty hfits hlt]
      rfl
    · rw [Op.spec_empty hfits hlt]
  · set hi := endpos op.write (s.sin op.n).din.size op.offset.toNat op.resid.toNat with hhi
    have hle : hi ≤ op.offset.toNat + op.resid.toNat := by
      rw [hhi, hfits.endpos]
      split_ifs <;> omega
    have henough : s.Enough op.n ((hi - 1) / SFS_BLKSIZE) := by
      cases hw : op.write with
      | true =>
        rw [hfits.endpos, hw, if_pos rfl] at hhi
        rw [hhi]
        exact hfits.enough hw (by omega)
      | false =>
        rw [hfits.endpos, hw, if_neg (by simp), ← hdin] at hhi
        exact hsound.enough hn (by omega)
    obtain ⟨x', s', last, heq, ht, hlast⟩ := transfer_spec op.write
      h.consistent hn h.reliable hsound hlt hfits.offset
      (hle.trans_lt hfits.length) henough
    have hspec := h.spec_moved ht hfits (by rw [hhi, hdin]) hlt
    refine ⟨s'.grow op.n hi, ?_, ?_, h.transferred ht hfits hlast⟩
    · rw [Op.exec, sfs_io_transfer htype hlegal hhi hlt heq ht.alen, hspec]
      rfl
    · rw [hspec]

/-- The files behave as growable arrays of bytes: every sequence of reads and writes has the results
that it has on the arrays, and leaves the bytes that the arrays hold then. A read finds the bytes up
to the end of the file, a write replaces the bytes of its range, and no other file changes. -/
theorem Valid.byte_array (h : Valid I F s) (ops : List (Op F)) (hfit : Op.AllFit ops s) :
    ∃ s', Op.execAll ops s = some ((Op.specAll ops (files I F s)).1, s') ∧
      files I F s' = (Op.specAll ops (files I F s)).2 := by
  induction ops generalizing s with
  | nil => exact ⟨s, rfl, rfl⟩
  | cons op ops ih =>
    obtain ⟨hfits, hrest⟩ := hfit
    obtain ⟨s1, hexec, hfiles, hvalid⟩ := h.exec hfits
    obtain ⟨s2, hexec', hfiles'⟩ := ih hvalid (hrest _ s1 hexec)
    refine ⟨s2, ?_, ?_⟩
    · simp [Op.execAll, Op.specAll, hexec, hexec', hfiles]
    · rw [hfiles', hfiles]
      rfl

end

theorem emptyFile_valid : Valid {3} {3} emptyFile := by
  refine ⟨emptyFile_consistent, fun _ => rfl, Finset.Subset.refl _, fun m hm => ?_⟩
  rw [Finset.mem_singleton.mp hm]
  exact ⟨fun k hk => absurd hk (Nat.not_lt_zero k), Nat.zero_le _⟩

/-- All four free blocks are written. -/
def writeFull : Op {3} := ⟨true, ⟨3, Finset.mem_singleton_self 3⟩, fun _ => 7, 0, 0x4000, 0⟩

/-- The bytes 1 to 4 are written, two on each side of the end of the first block. -/
def writeAcross : Op {3} :=
  ⟨true, ⟨3, Finset.mem_singleton_self 3⟩, fun i => BitVec.ofNat 8 (i + 1), 0xffe, 4, 0⟩

/-- These bytes are read, with one more on each side. -/
def readAcross : Op {3} := ⟨false, ⟨3, Finset.mem_singleton_self 3⟩, fun _ => 0, 0xffd, 6, 0⟩

/-- The first write ends at the end of a block and gets no block behind it. -/
theorem byte_array_across : Op.AllFit [writeFull, writeAcross, readAcross] emptyFile ∧
    ∃ s', Op.execAll [writeFull, writeAcross, readAcross] emptyFile =
      some ([(0, 0x4000, writeFull.buf), (0, 4, writeAcross.buf),
        (0, 6, fill [7, 1, 2, 3, 4, 7] fun _ => 0)], s') ∧
      (files {3} {3} s' readAcross.n).length = 0x4000 := by
  have hrun : ((writeFull.exec emptyFile).bind fun r1 => (writeAcross.exec r1.2).bind fun r2 =>
      guard (writeFull.Fits emptyFile ∧ writeAcross.Fits r1.2 ∧ readAcross.Fits r2.2)) =
      some () := by decide +kernel
  obtain ⟨r1, hexec1, hrun⟩ := Option.bind_eq_some_iff.mp hrun
  obtain ⟨r2, hexec2, hrun⟩ := Option.bind_eq_some_iff.mp hrun
  obtain ⟨hfit1, hfit2, hfit3⟩ := (Option.guard_eq_some' _).mp hrun
  have hfit : Op.AllFit [writeFull, writeAcross, readAcross] emptyFile :=
    .cons hfit1 hexec1 (.cons hfit2 hexec2 ⟨hfit3, fun _ _ _ => trivial⟩)
  obtain ⟨s', hexec, hfiles⟩ := emptyFile_valid.byte_array _ hfit
  have hspec (f : ({3} : Finset ℕ) → List (BitVec 8)) :
      (Op.specAll [writeFull, writeAcross, readAcross] f).1 =
        [(0, 0x4000, writeFull.buf), (0, 4, writeAcross.buf), (readAcross.spec
          (Op.specAll [writeFull, writeAcross] f).2).1] := rfl
  have hbytes : growable.read ((Op.specAll [writeFull, writeAcross]
      (files {3} {3} emptyFile)).2 readAcross.n) 0xffd 6 = [7, 1, 2, 3, 4, 7] := by decide +kernel
  have hread : (readAcross.spec (Op.specAll [writeFull, writeAcross]
      (files {3} {3} emptyFile)).2).1 = (0, 6, fill [7, 1, 2, 3, 4, 7] fun _ => 0) :=
    congrArg (fun bytes => (0, bytes.length, fill bytes fun _ => 0)) hbytes
  refine ⟨hfit, s', ?_, ?_⟩
  · rw [hexec, hspec, hread]
  · rw [hfiles]
    decide +kernel

end ucore.sfs_fs
