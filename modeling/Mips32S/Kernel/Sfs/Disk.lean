import Mips32S.Kernel.Sfs.Bitmap
import Mips32S.Lib.Layout

open layout

namespace ucore

def FS_MAX_FNAME_LEN : ℕ := 255

def SFS_MAX_FNAME_LEN : ℕ := FS_MAX_FNAME_LEN

def SFS_BLKSIZE : ℕ := PGSIZE

def SFS_NDIRECT : ℕ := 12

def SFS_MAX_FILE_SIZE : ℕ := 1024 * 1024 * 128

def SFS_BLK_NENTRY : ℕ := SFS_BLKSIZE / 4

def SFS_TYPE_FILE : ℕ := 1

def SFS_TYPE_DIR : ℕ := 2

/-- An inode as it is on the disk. -/
structure sfs_disk_inode where
  size : ℕ
  type : ℕ
  nlinks : ℕ
  blocks : ℕ
  direct : ℕ → ℕ
  indirect : ℕ

namespace sfs_disk_inode

def sizeof : ℕ := 64

/-- The bytes of the structure. -/
def bytes (din : sfs_disk_inode) (i : ℕ) : BitVec 8 :=
  if i < 4 then byteOf din.size i
  else if i < 6 then byteOf din.type (i - 4)
  else if i < 8 then byteOf din.nlinks (i - 6)
  else if i < 12 then byteOf din.blocks (i - 8)
  else if i < 60 then byteOf (din.direct ((i - 12) / 4)) ((i - 12) % 4)
  else byteOf din.indirect (i - 60)

/-- The structure in the first bytes of a block. -/
def read (b : ℕ → BitVec 8) : sfs_disk_inode where
  size := value 4 b
  type := value 2 fun i => b (4 + i)
  nlinks := value 2 fun i => b (6 + i)
  blocks := value 4 fun i => b (8 + i)
  direct k := if k < SFS_NDIRECT then value 4 fun i => b (12 + 4 * k + i) else 0
  indirect := value 4 fun i => b (60 + i)

end sfs_disk_inode

/-- An inode in memory. -/
structure sfs_inode where
  din : sfs_disk_inode
  dirty : Bool
  reclaim_count : ℕ
  ref_count : ℕ

/-- A mounted file system: the superblock and the map of the free blocks, the blocks of the
device with its answers to the next transfers, and the inodes in memory by their numbers. One
operation runs at a time. -/
structure sfs_fs where
  blocks : ℕ
  unused_blocks : ℕ
  super_dirty : Bool
  freemap : bitmap
  disk : ℕ → ℕ → BitVec 8
  answer : ℕ → ℤ
  inode_list : List ℕ
  sin : ℕ → sfs_inode

namespace sfs_fs

def modifySin (n : ℕ) (f : sfs_inode → sfs_inode) (s : sfs_fs) : sfs_fs :=
  { s with sin := Function.update s.sin n (f (s.sin n)) }

def modifyDin (n : ℕ) (f : sfs_disk_inode → sfs_disk_inode) (s : sfs_fs) : sfs_fs :=
  s.modifySin n fun x => { x with din := f x.din }

def setDirty (n : ℕ) (dirty : Bool) (s : sfs_fs) : sfs_fs := s.modifySin n fun x => { x with dirty }

/-- The device answers the next transfer. -/
def dop_answer (s : sfs_fs) : ℤ × sfs_fs := (s.answer 0, { s with answer := fun i => s.answer (i + 1) })

/-- A transfer that fails moves nothing. -/
def sfs_rblock_nolock (blkno : ℕ) (s : sfs_fs) : Option (Except ℤ (ℕ → BitVec 8) × sfs_fs) := do
  guard (blkno ≠ 0 ∧ blkno < s.blocks)
  let (ret, s) := s.dop_answer
  if ret ≠ 0 then return (.error ret, s) else return (.ok (s.disk blkno), s)

def sfs_wblock_nolock (buf : ℕ → BitVec 8) (blkno : ℕ) (s : sfs_fs) :
    Option (Except ℤ Unit × sfs_fs) := do
  guard (blkno ≠ 0 ∧ blkno < s.blocks)
  let (ret, s) := s.dop_answer
  if ret ≠ 0 then return (.error ret, s)
  else return (.ok (), { s with disk := Function.update s.disk blkno buf })

/-- A block is read to the place `d` of a buffer. -/
def sfs_rblock (buf : ℕ → BitVec 8) (d blkno : ℕ) (s : sfs_fs) :
    Option (ℤ × (ℕ → BitVec 8) × sfs_fs) := do
  let (r, s) ← s.sfs_rblock_nolock blkno
  match r with
  | .ok b => return (0, copy buf d b 0 SFS_BLKSIZE, s)
  | .error ret => return (ret, buf, s)

/-- A block is written from the place `d` of a buffer. -/
def sfs_wblock (buf : ℕ → BitVec 8) (d blkno : ℕ) (s : sfs_fs) : Option (Except ℤ Unit × sfs_fs) :=
  s.sfs_wblock_nolock (copy (fun _ => 0) 0 buf d SFS_BLKSIZE) blkno

def sfs_rbuf (buf : ℕ → BitVec 8) (d len blkno offset : ℕ) (s : sfs_fs) :
    Option (ℤ × (ℕ → BitVec 8) × sfs_fs) := do
  guard (offset < SFS_BLKSIZE ∧ offset + len ≤ SFS_BLKSIZE)
  let (r, s) ← s.sfs_rblock_nolock blkno
  match r with
  | .ok b => return (0, copy buf d b offset len, s)
  | .error ret => return (ret, buf, s)

def sfs_wbuf (buf : ℕ → BitVec 8) (d len blkno offset : ℕ) (s : sfs_fs) :
    Option (Except ℤ Unit × sfs_fs) := do
  guard (offset < SFS_BLKSIZE ∧ offset + len ≤ SFS_BLKSIZE)
  let (r, s) ← s.sfs_rblock_nolock blkno
  match r with
  | .ok b => s.sfs_wblock_nolock (copy b offset buf d len) blkno
  | .error ret => return (.error ret, s)

/-- One block is filled with zeros. -/
def sfs_clear_block (blkno : ℕ) (s : sfs_fs) : Option (Except ℤ Unit × sfs_fs) :=
  s.sfs_wblock_nolock (fun _ => 0) blkno

end sfs_fs

end ucore
