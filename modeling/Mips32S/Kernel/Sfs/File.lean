import Mips32S.Kernel.Sfs.Bmap

open layout

namespace ucore

def E_BUSY : ℤ := 15

def ROUNDUP_DIV_2N (a n : ℕ) : ℕ := (a + 2 ^ n - 1) >>> n

namespace sfs_fs

def sfs_buf_op (write : Bool) (buf : ℕ → BitVec 8) (d len blkno offset : ℕ) (s : sfs_fs) :
    Option ((ℕ → BitVec 8) × sfs_fs) :=
  if write then (s.sfs_wbuf buf d len blkno offset).map fun r => (buf, r.2)
  else (s.sfs_rbuf buf d len blkno offset).map Prod.snd

def sfs_block_op (write : Bool) (buf : ℕ → BitVec 8) (d blkno : ℕ) (s : sfs_fs) :
    Option ((ℕ → BitVec 8) × sfs_fs) :=
  if write then (s.sfs_wblock buf d blkno).map fun r => (buf, r.2)
  else (s.sfs_rblock buf d blkno).map Prod.snd

/-- The variables of a transfer: the block that was mapped last, the buffer and the number of
bytes that are done. -/
structure Transfer where
  ino : ℕ
  buf : ℕ → BitVec 8
  alen : ℕ

/-- A block is mapped for the transfer. When that fails the previous one stays. -/
def sfs_io_nolock.load (n index : ℕ) (x : Transfer) (s : sfs_fs) : Option (Transfer × sfs_fs) := do
  let (r, s) ← s.sfs_bmap_load_nolock n index
  match r with
  | .ok ino => return ({ x with ino }, s)
  | .error _ => return (x, s)

/-- `len` bytes from the place `offset` of the block number `index` on. -/
def sfs_io_nolock.part (write : Bool) (n index len offset : ℕ) (x : Transfer) (s : sfs_fs) :
    Option (Transfer × sfs_fs) := do
  let (x, s) ← sfs_io_nolock.load n index x s
  let (buf, s) ← s.sfs_buf_op write x.buf x.alen len x.ino offset
  return ({ x with buf, alen := x.alen + len }, s)

/-- The next `k` whole blocks, from the one after `blkno` on. -/
def sfs_io_nolock.blocks (write : Bool) (n : ℕ) :
    ℕ → ℕ → Transfer → sfs_fs → Option (Transfer × sfs_fs)
  | 0, _, x, s => some (x, s)
  | k + 1, blkno, x, s => do
    let (x, s) ← sfs_io_nolock.load n (blkno + 1) x s
    let (buf, s) ← s.sfs_block_op write x.buf x.alen x.ino
    blocks write n k (blkno + 1) { x with buf, alen := x.alen + SFS_BLKSIZE } s

/-- The transfer of the bytes from `offset` to `endpos`. -/
def sfs_io_nolock.transfer (write : Bool) (n offset endpos : ℕ) (x : Transfer) (s : sfs_fs) :
    Option (Transfer × sfs_fs) := do
  let blkno := offset / SFS_BLKSIZE
  let nblks := endpos / SFS_BLKSIZE - blkno
  let size := if nblks ≠ 0 then SFS_BLKSIZE - offset % SFS_BLKSIZE else endpos - offset
  let (x, s) ← sfs_io_nolock.part write n blkno size (offset % SFS_BLKSIZE) x s
  if nblks ≠ 0 then
    let (x, s) ← sfs_io_nolock.blocks write n (nblks - 1) blkno x s
    sfs_io_nolock.part write n (blkno + nblks) (endpos % SFS_BLKSIZE) 0 x s
  else return (x, s)

/-- The end of the bytes that are read or written, unless there are none. -/
def sfs_io_nolock.endpos (write : Bool) (size : ℕ) (offset alen : BitVec 32) : Except ℤ (Option ℕ) :=
  let endpos := offset + alen
  if offset.toInt < 0 ∨ offset.toNat ≥ SFS_MAX_FILE_SIZE ∨ offset.toInt > endpos.toInt then
    .error (-E_INVAL)
  else if offset = endpos then .ok none
  else
    let endpos := min endpos.toNat SFS_MAX_FILE_SIZE
    if write then .ok (some endpos)
    else if offset.toNat ≥ size then .ok none
    else .ok (some (min endpos size))

/-- The bytes of a file are read into the buffer or written from it; the result is the error
number, the number of bytes and the buffer. The variable `ino` of the function holds `ino` before
a block is mapped. -/
def sfs_io_nolock (write : Bool) (n : ℕ) (buf : ℕ → BitVec 8) (offset alen : BitVec 32) (ino : ℕ)
    (s : sfs_fs) : Option (ℤ × ℕ × (ℕ → BitVec 8) × sfs_fs) := do
  let din := (s.sin n).din
  guard (din.type ≠ SFS_TYPE_DIR)
  match sfs_io_nolock.endpos write din.size offset alen with
  | .error ret => return (ret, 0, buf, s)
  | .ok none => return (0, 0, buf, s)
  | .ok (some endpos) =>
    let (x, s) ← sfs_io_nolock.transfer write n offset.toNat endpos ⟨ino, buf, 0⟩ s
    let stop := offset.toNat + x.alen
    if stop > (s.sin n).din.size then
      return (0, x.alen, x.buf,
        (s.modifyDin n fun din => { din with size := stop }).setDirty n true)
    else return (0, x.alen, x.buf, s)

/-- `sfs_read` and `sfs_write`: the buffer has `resid` bytes. -/
def sfs_io (write : Bool) (n : ℕ) (buf : ℕ → BitVec 8) (offset resid : BitVec 32) (ino : ℕ)
    (s : sfs_fs) : Option (ℤ × ℕ × (ℕ → BitVec 8) × sfs_fs) := do
  let (ret, alen, buf, s) ← s.sfs_io_nolock write n buf offset resid ino
  guard (alen ≤ resid.toNat)
  return (ret, alen, buf, s)

/-- Blocks are appended until there are `nblks + k`. -/
def sfs_truncfile.enlarge (n : ℕ) : ℕ → ℕ → sfs_fs → Option (Except ℤ Unit × sfs_fs)
  | 0, _, s => some (.ok (), s)
  | k + 1, nblks, s => do
    let (r, s) ← s.sfs_bmap_load_nolock n nblks
    match r with
    | .error ret => return (.error ret, s)
    | .ok _ => enlarge n k (nblks + 1) s

/-- The last `k` blocks are freed. -/
def sfs_truncfile.reduce (n : ℕ) : ℕ → sfs_fs → Option (Except ℤ Unit × sfs_fs)
  | 0, s => some (.ok (), s)
  | k + 1, s => do
    let (r, s) ← s.sfs_bmap_truncate_nolock n
    match r with
    | .error ret => return (.error ret, s)
    | .ok _ => reduce n k s

/-- The number of blocks is brought to `tblks`. -/
def sfs_truncfile.resize (n nblks tblks : ℕ) (s : sfs_fs) : Option (Except ℤ Unit × sfs_fs) :=
  if nblks < tblks then sfs_truncfile.enlarge n (tblks - nblks) nblks s
  else sfs_truncfile.reduce n (nblks - tblks) s

def sfs_truncfile (n : ℕ) (len : BitVec 32) (s : sfs_fs) : Option (Except ℤ Unit × sfs_fs) :=
  let din := (s.sin n).din
  let tblks := ROUNDUP_DIV_2N len.toNat PGSHIFT
  if len.toInt < 0 ∨ len.toNat > SFS_MAX_FILE_SIZE then some (.error (-E_INVAL), s)
  else if din.size = len.toNat then if tblks = din.blocks then some (.ok (), s) else none
  else do
    let (r, s) ← sfs_truncfile.resize n din.blocks tblks s
    match r with
    | .error ret => return (.error ret, s)
    | .ok _ =>
      guard ((s.sin n).din.blocks = tblks)
      return (.ok (), (s.modifyDin n fun din => { din with size := len.toNat }).setDirty n true)

def sfs_tryseek (n : ℕ) (pos : BitVec 32) (s : sfs_fs) : Option (Except ℤ Unit × sfs_fs) :=
  if pos.toInt < 0 ∨ pos.toNat ≥ SFS_MAX_FILE_SIZE then some (.error (-E_INVAL), s)
  else if pos.toNat > (s.sin n).din.size then s.sfs_truncfile n pos
  else some (.ok (), s)

def sfs_fsync (n : ℕ) (s : sfs_fs) : Option (Except ℤ Unit × sfs_fs) :=
  if (s.sin n).dirty then do
    let (r, s) ← (s.setDirty n false).sfs_wbuf (s.sin n).din.bytes 0 sfs_disk_inode.sizeof n 0
    match r with
    | .error ret => return (.error ret, s.setDirty n true)
    | .ok _ => return (.ok (), s)
  else some (.ok (), s)

/-- `sfs_get_ops` knows the operations of directories and files only. -/
def sfs_get_ops (type : ℕ) : Option Unit := guard (type = SFS_TYPE_DIR ∨ type = SFS_TYPE_FILE)

/-- An inode is found in memory or loaded from its block. There is always memory for it. -/
def sfs_load_inode (n : ℕ) (s : sfs_fs) : Option (Except ℤ Unit × sfs_fs) := do
  if n ∈ s.inode_list then
    let count := (s.sin n).ref_count + 1
    return (.ok (), s.modifySin n fun x => { x with
      ref_count := count
      reclaim_count := if count = 1 then x.reclaim_count + 1 else x.reclaim_count })
  else
    guard ((← s.sfs_block_inuse n) = true)
    let (ret, buf, s) ← s.sfs_rbuf (fun _ => 0) 0 sfs_disk_inode.sizeof n 0
    if ret ≠ 0 then return (.error ret, s)
    else
      let din := sfs_disk_inode.read buf
      guard (din.nlinks ≠ 0)
      sfs_get_ops din.type
      return (.ok (), { s with
        inode_list := n :: s.inode_list
        sin := Function.update s.sin n ⟨din, false, 1, 1⟩ })

/-- A file without links loses its blocks; a directory has no `vop_truncate`. -/
def sfs_reclaim.truncate (n : ℕ) (s : sfs_fs) : Option (Except ℤ Unit × sfs_fs) :=
  if (s.sin n).din.nlinks ≠ 0 then some (.ok (), s)
  else if (s.sin n).din.type = SFS_TYPE_FILE then s.sfs_truncfile n 0
  else none

/-- The end of `sfs_reclaim`, once the inode has no more links in memory. -/
def sfs_reclaim.kill (n : ℕ) (s : sfs_fs) : Option (Except ℤ Unit × sfs_fs) := do
  let din := (s.sin n).din
  let s := { s with inode_list := s.inode_list.erase n }
  guard ((s.sin n).ref_count = 0)
  if din.nlinks = 0 then
    let s ← s.sfs_block_free n
    if din.indirect ≠ 0 then return (.ok (), ← s.sfs_block_free din.indirect) else return (.ok (), s)
  else return (.ok (), s)

def sfs_reclaim (n : ℕ) (s : sfs_fs) : Option (Except ℤ Unit × sfs_fs) :=
  let x := s.sin n
  let s := s.modifySin n fun x => { x with reclaim_count := x.reclaim_count - 1 }
  if x.reclaim_count = 0 then none
  else if x.reclaim_count - 1 ≠ 0 ∨ x.ref_count ≠ 0 then some (.error (-E_BUSY), s)
  else do
    let (r, s) ← sfs_reclaim.truncate n s
    match r with
    | .error ret => return (.error ret, s)
    | .ok _ =>
      let (r, s) ← s.sfs_fsync n
      match r with
      | .error ret => return (.error ret, s)
      | .ok _ => sfs_reclaim.kill n s

/-- A reference is given back; with the last one the inode is reclaimed. -/
def inode_ref_dec (n : ℕ) (s : sfs_fs) : Option sfs_fs := do
  let count := (s.sin n).ref_count
  guard (count > 0)
  let s := s.modifySin n fun x => { x with ref_count := count - 1 }
  if count - 1 = 0 then
    let (_, s) ← s.sfs_reclaim n
    return s
  else return s

end sfs_fs

end ucore
