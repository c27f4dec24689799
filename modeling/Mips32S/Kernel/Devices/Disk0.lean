import Mips32S.Kernel.Sfs.Directory

open layout

namespace ucore

def SECTSIZE : ℕ := 512

def DISK0_BLKSIZE : ℕ := PGSIZE

def DISK0_BUFSIZE : ℕ := 4 * DISK0_BLKSIZE

def DISK0_BLK_NSECT : ℕ := DISK0_BLKSIZE / SECTSIZE

/-- `iobuf_move` from the buffer to the kernel. -/
def iobuf_take (data : ℕ → BitVec 8) (len : ℕ) (iob : iobuf) : (ℕ → BitVec 8) × iobuf :=
  let alen := min iob.io_resid len
  (copy data 0 iob.io_base (iobuf_used iob) alen,
    { iob with io_offset := iob.io_offset + alen, io_resid := iob.io_resid - alen })

/-- The RAM disk, of `size` sectors, and the buffer that the requests pass through. `lock_disk0`
admits one request at a time. -/
structure Disk0 where
  size : ℕ
  size_lt : size < 2 ^ 32
  disk : ℕ → BitVec 8
  disk0_buffer : ℕ → BitVec 8

namespace Disk0

def d_blocks (s : Disk0) : ℕ := s.size / DISK0_BLK_NSECT

/-- The bytes that `ramdisk_read` and `ramdisk_write` transfer. -/
def clip (secno nsecs size : ℕ) : ℕ := min nsecs ((size + 2 ^ 32 - secno) % 2 ^ 32) * SECTSIZE

def ramdisk_read (secno nsecs : ℕ) (s : Disk0) : Disk0 :=
  { s with
    disk0_buffer := copy s.disk0_buffer 0 s.disk (secno * SECTSIZE) (clip secno nsecs s.size) }

def ramdisk_write (secno nsecs : ℕ) (s : Disk0) : Disk0 :=
  { s with disk := copy s.disk (secno * SECTSIZE) s.disk0_buffer 0 (clip secno nsecs s.size) }

def disk0_read_blks_nolock (blkno nblks : ℕ) (s : Disk0) : Disk0 :=
  s.ramdisk_read (blkno * DISK0_BLK_NSECT % 2 ^ 32) (nblks * DISK0_BLK_NSECT % 2 ^ 32)

def disk0_write_blks_nolock (blkno nblks : ℕ) (s : Disk0) : Disk0 :=
  s.ramdisk_write (blkno * DISK0_BLK_NSECT % 2 ^ 32) (nblks * DISK0_BLK_NSECT % 2 ^ 32)

/-- A round of the loop of `disk0_io`, with the number of bytes copied; `none` if an assertion
fails. -/
def disk0_io.round (write : Bool) (resid blkno : ℕ) (iob : iobuf) (s : Disk0) :
    Option (ℕ × iobuf × Disk0) :=
  if write then
    let copied := min iob.io_resid DISK0_BUFSIZE
    let (disk0_buffer, iob) := iobuf_take s.disk0_buffer DISK0_BUFSIZE iob
    if copied ≠ 0 ∧ copied ≤ resid ∧ copied % DISK0_BLKSIZE = 0 then
      let s := { s with disk0_buffer }
      some (copied, iob, s.disk0_write_blks_nolock blkno (copied / DISK0_BLKSIZE))
    else none
  else
    let alen := min DISK0_BUFSIZE resid
    let copied := min iob.io_resid alen
    let s := s.disk0_read_blks_nolock blkno (alen / DISK0_BLKSIZE)
    if copied = alen ∧ copied % DISK0_BLKSIZE = 0 then
      some (copied, (iobuf_move s.disk0_buffer alen iob).2, s)
    else none

/-- The loop of `disk0_io`, of at most `n` rounds. -/
def disk0_io.loop (write : Bool) : ℕ → ℕ → ℕ → iobuf → Disk0 → Option (iobuf × Disk0)
  | 0, resid, _, iob, s => if resid = 0 then some (iob, s) else none
  | n + 1, resid, blkno, iob, s =>
    if resid = 0 then some (iob, s)
    else do
      let (copied, iob, s) ← round write resid blkno iob s
      loop write n (resid - copied) (blkno + copied / DISK0_BLKSIZE) iob s

def disk0_io (write : Bool) (iob : iobuf) (s : Disk0) : Option (ℤ × iobuf × Disk0) :=
  let blkno := (iob.io_offset.tdiv DISK0_BLKSIZE % 2 ^ 32).toNat
  let nblks := iob.io_resid / DISK0_BLKSIZE
  if iob.io_offset.tmod DISK0_BLKSIZE ≠ 0 ∨ iob.io_resid % DISK0_BLKSIZE ≠ 0 then
    some (-E_INVAL, iob, s)
  else if (blkno + nblks) % 2 ^ 32 > s.d_blocks then some (-E_INVAL, iob, s)
  else if nblks = 0 then some (0, iob, s)
  else (disk0_io.loop write nblks iob.io_resid blkno iob s).map (0, ·)

/-- The next `n` blocks of the request are transferred, from `blkno` on. -/
structure Moves (write : Bool) (blkno n : ℕ) (iob : iobuf) (s : Disk0) (iob' : iobuf) (s' : Disk0) :
    Prop where
  request : iob' = { iob with
    io_base := if write then iob.io_base
      else copy iob.io_base (iobuf_used iob) s.disk (blkno * DISK0_BLKSIZE) (n * DISK0_BLKSIZE)
    io_offset := iob.io_offset + (n * DISK0_BLKSIZE : ℕ)
    io_resid := iob.io_resid - n * DISK0_BLKSIZE }
  disk : s'.disk = if write then
    copy s.disk (blkno * DISK0_BLKSIZE) iob.io_base (iobuf_used iob) (n * DISK0_BLKSIZE) else s.disk
  size : s'.size = s.size

variable {write : Bool} {n m blkno nblks : ℕ} {iob iob' iob'' : iobuf} {s s' s'' : Disk0}

theorem blksize_pos : 0 < DISK0_BLKSIZE := by decide

theorem Moves.refl : Moves write blkno 0 iob s iob s := by
  refine ⟨?_, ?_, rfl⟩ <;> cases write <;> simp [copy_zero]

theorem Moves.trans (h : Moves write blkno n iob s iob' s')
    (h' : Moves write (blkno + n) m iob' s' iob'' s'') (hn : n * DISK0_BLKSIZE ≤ iob.io_resid)
    (hlen : iob.io_resid ≤ iob.io_len) : Moves write blkno (n + m) iob s iob'' s'' := by
  have hused : iobuf_used iob' = iobuf_used iob + n * DISK0_BLKSIZE := by
    rw [h.request]
    simp only [iobuf_used]
    omega
  refine ⟨?_, ?_, h'.size.trans h.size⟩
  · rw [h'.request, hused, h.request, h.disk]
    cases write <;> simp [Nat.add_mul, copy_copy, Int.add_assoc, Nat.sub_sub]
  · rw [h'.disk, hused, h.request, h.disk]
    cases write <;> simp [Nat.add_mul, copy_copy]

theorem clip_eq (h : blkno + nblks ≤ s.d_blocks) :
    blkno * DISK0_BLK_NSECT % 2 ^ 32 * SECTSIZE = blkno * DISK0_BLKSIZE ∧
      clip (blkno * DISK0_BLK_NSECT % 2 ^ 32) (nblks * DISK0_BLK_NSECT % 2 ^ 32) s.size =
        nblks * DISK0_BLKSIZE := by
  have hlt := s.size_lt
  simp only [d_blocks, clip, DISK0_BLK_NSECT, show DISK0_BLKSIZE = 4096 from rfl, SECTSIZE] at h ⊢
  omega

theorem copy_through {dst buf src : ℕ → BitVec 8} {d k : ℕ} :
    copy dst d (copy buf 0 src k n) 0 n = copy dst d src k n := by
  funext i
  by_cases hi : d ≤ i ∧ i < d + n
  · rw [copy_of_mem hi.1 hi.2, copy_of_mem hi.1 hi.2, copy_of_mem (Nat.zero_le _) (by omega),
      Nat.zero_add, Nat.sub_zero]
  · rw [copy_of_not hi, copy_of_not hi]

section
variable (write) (hlen : iob.io_resid ≤ iob.io_len)
  (hresid : iob.io_resid = nblks * DISK0_BLKSIZE) (hfits : blkno + nblks ≤ s.d_blocks)
include hresid hfits

theorem round_moves (hpos : nblks ≠ 0) : ∃ k iob' s', k ≠ 0 ∧ k ≤ nblks ∧
    disk0_io.round write iob.io_resid blkno iob s = some (k * DISK0_BLKSIZE, iob', s') ∧
      Moves write blkno k iob s iob' s' := by
  obtain ⟨k, hk⟩ : ∃ k, k = min nblks 4 := ⟨_, rfl⟩
  have halen : min DISK0_BUFSIZE iob.io_resid = k * DISK0_BLKSIZE := by
    rw [hresid, DISK0_BUFSIZE, Nat.mul_min_mul_right, hk, Nat.min_comm]
  have hle : k * DISK0_BLKSIZE ≤ iob.io_resid := halen ▸ Nat.min_le_right _ _
  have hne : k * DISK0_BLKSIZE ≠ 0 := Nat.mul_ne_zero (by omega) blksize_pos.ne'
  have hdiv : k * DISK0_BLKSIZE / DISK0_BLKSIZE = k := Nat.mul_div_cancel _ blksize_pos
  obtain ⟨hoff, hclip⟩ := clip_eq (show blkno + k ≤ s.d_blocks by omega)
  cases write
  · simp only [disk0_io.round, Bool.false_eq_true, if_false, halen, Nat.min_eq_right hle, hdiv,
      Nat.mul_mod_left, and_self, if_true, iobuf_move, disk0_read_blks_nolock, ramdisk_read, hclip,
      hoff, copy_through]
    exact ⟨k, _, _, by omega, by omega, rfl, rfl, rfl, rfl⟩
  · rw [Nat.min_comm] at halen
    simp only [disk0_io.round, if_true, halen, iobuf_take, ne_eq, hne, not_false_eq_true, hle,
      Nat.mul_mod_left, and_self, hdiv, disk0_write_blks_nolock, ramdisk_write, hclip, hoff,
      copy_through]
    exact ⟨k, _, _, by omega, by omega, rfl, rfl, rfl, rfl⟩

include hlen

theorem loop_moves (hn : nblks ≤ n) :
    ∃ iob' s', disk0_io.loop write n iob.io_resid blkno iob s = some (iob', s') ∧
      Moves write blkno nblks iob s iob' s' := by
  induction n generalizing iob s blkno nblks with
  | zero =>
    obtain rfl := Nat.le_zero.mp hn
    exact ⟨iob, s, if_pos (hresid.trans (Nat.zero_mul _)), .refl⟩
  | succ n ih =>
    by_cases hzero : nblks = 0
    · subst hzero
      exact ⟨iob, s, if_pos (hresid.trans (Nat.zero_mul _)), .refl⟩
    · obtain ⟨k, iob1, s1, hk, hle, hround, hmoves⟩ := round_moves write hresid hfits hzero
      have hsub : iob1.io_resid = (nblks - k) * DISK0_BLKSIZE := by
        rw [hmoves.request, Nat.sub_mul, ← hresid]
      have hlen1 : iob1.io_resid ≤ iob1.io_len := by
        rw [hmoves.request]
        exact (Nat.sub_le _ _).trans hlen
      have hfits1 : blkno + k + (nblks - k) ≤ s1.d_blocks := by
        rwa [d_blocks, hmoves.size, Nat.add_assoc, Nat.add_sub_cancel' hle]
      obtain ⟨iob2, s2, hloop, hmoves2⟩ := ih hlen1 hsub hfits1 (by omega)
      have hmoved := hmoves.trans hmoves2 (by rw [hresid]; exact Nat.mul_le_mul_right _ hle) hlen
      rw [Nat.add_sub_cancel' hle] at hmoved
      refine ⟨iob2, s2, ?_, hmoved⟩
      rw [disk0_io.loop, if_neg (hresid ▸ Nat.mul_ne_zero hzero blksize_pos.ne'), hround,
        ← hloop, hmoves.request]
      simp only [Option.bind_eq_bind, Option.bind_some, Nat.mul_div_cancel _ blksize_pos]

end

/-- A request for blocks of the device transfers exactly their bytes. -/
theorem disk0_io_moves (write : Bool) (blkno nblks : ℕ) (iob : iobuf) (s : Disk0)
    (hlen : iob.io_resid ≤ iob.io_len) (hoff : iob.io_offset = (blkno * DISK0_BLKSIZE : ℕ))
    (hresid : iob.io_resid = nblks * DISK0_BLKSIZE) (hfits : blkno + nblks ≤ s.d_blocks) :
    ∃ iob' s', s.disk0_io write iob = some (0, iob', s') ∧
      Moves write blkno nblks iob s iob' s' := by
  obtain ⟨iob', s', hloop, hmoves⟩ := loop_moves write hlen hresid hfits le_rfl
  have hlt : blkno + nblks < 2 ^ 32 := (hfits.trans (Nat.div_le_self _ _)).trans_lt s.size_lt
  have hblkno : (iob.io_offset.tdiv DISK0_BLKSIZE % 2 ^ 32).toNat = blkno := by
    rw [hoff, ← Int.ofNat_tdiv, Nat.mul_div_cancel _ blksize_pos]
    omega
  have hnblks : iob.io_resid / DISK0_BLKSIZE = nblks := by
    rw [hresid, Nat.mul_div_cancel _ blksize_pos]
  have haligned : ¬(iob.io_offset.tmod DISK0_BLKSIZE ≠ 0 ∨ iob.io_resid % DISK0_BLKSIZE ≠ 0) := by
    rw [hoff, ← Int.ofNat_tmod, hresid, Nat.mul_mod_left, Nat.mul_mod_left]
    decide
  refine ⟨iob', s', ?_, hmoves⟩
  simp only [disk0_io, hblkno, hnblks, if_neg haligned, Nat.mod_eq_of_lt hlt, if_neg hfits.not_gt]
  split_ifs with hzero
  · subst hzero
    rw [disk0_io.loop, if_pos (hresid.trans (Nat.zero_mul _))] at hloop
    cases hloop
    rfl
  · rw [hloop]
    rfl

/-- Six blocks, of which the buffer holds four, are written to a disk of eight. -/
theorem disk0_io_moves_six : ∃ iob' s',
    disk0_io true (iobuf_init (fun i => BitVec.ofNat 8 (i / PGSIZE)) 0x6000 0x1000)
      ⟨64, by decide, fun _ => 9, fun _ => 0⟩ = some (0, iob', s') ∧ iob'.io_resid = 0 ∧
      s'.disk 0xfff = 9 ∧ s'.disk 0x1000 = 0 ∧ s'.disk 0x4fff = 3 ∧ s'.disk 0x5000 = 4 ∧
      s'.disk 0x6fff = 5 ∧ s'.disk 0x7000 = 9 := by
  obtain ⟨iob', s', heq, hmoves⟩ := disk0_io_moves true 1 6
    (iobuf_init (fun i => BitVec.ofNat 8 (i / PGSIZE)) 0x6000 0x1000)
    ⟨64, by decide, fun _ => 9, fun _ => 0⟩ le_rfl rfl rfl (by decide)
  refine ⟨iob', s', heq, congrArg iobuf.io_resid hmoves.request, ?_⟩
  rw [hmoves.disk]
  decide

end Disk0

end ucore
