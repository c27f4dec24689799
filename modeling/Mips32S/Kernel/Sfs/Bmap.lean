import Mips32S.Kernel.Sfs.Disk

open layout

namespace ucore.sfs_fs

def sfs_block_inuse (ino : ℕ) (s : sfs_fs) : Option Bool :=
  if ino ≠ 0 ∧ ino < s.blocks then (bitmap_test s.freemap ino).map not else none

/-- A block that is found is taken even if it cannot be cleared. -/
def sfs_block_alloc (s : sfs_fs) : Option (Except ℤ ℕ × sfs_fs) := do
  let (r, freemap) ← bitmap_alloc s.freemap
  match r with
  | .error ret => return (.error ret, s)
  | .ok ino =>
    guard (s.unused_blocks > 0)
    let s := { s with freemap, unused_blocks := s.unused_blocks - 1, super_dirty := true }
    guard ((← s.sfs_block_inuse ino) = true)
    let (r, s) ← s.sfs_clear_block ino
    match r with
    | .error ret => return (.error ret, s)
    | .ok _ => return (.ok ino, s)

def sfs_block_free (ino : ℕ) (s : sfs_fs) : Option sfs_fs := do
  guard ((← s.sfs_block_inuse ino) = true)
  let freemap ← bitmap_free s.freemap ino
  return { s with freemap, unused_blocks := s.unused_blocks + 1, super_dirty := true }

/-- A failure gives the block `ent` back if it is new. -/
def sfs_bmap_get_sub_nolock.cleanup (ret : ℤ) (ent : ℕ) (fresh : Bool) (s : sfs_fs) :
    Option (Except ℤ (ℕ × ℕ) × sfs_fs) :=
  if fresh then (s.sfs_block_free ent).map fun s => (.error ret, s) else some (.error ret, s)

/-- A new block for the entry `index` of the block `ent`, which is new itself if `fresh`. -/
def sfs_bmap_get_sub_nolock.create (ent index : ℕ) (fresh : Bool) (s : sfs_fs) :
    Option (Except ℤ (ℕ × ℕ) × sfs_fs) := do
  let (r, s) ← s.sfs_block_alloc
  match r with
  | .error ret => sfs_bmap_get_sub_nolock.cleanup ret ent fresh s
  | .ok ino =>
    let (r, s) ← s.sfs_wbuf (byteOf ino) 0 4 ent (index * 4)
    match r with
    | .ok _ => return (.ok (ent, ino), s)
    | .error ret =>
      let s ← s.sfs_block_free ino
      sfs_bmap_get_sub_nolock.cleanup ret ent fresh s

/-- The block in the entry `index` of the block `ent`, with the new value of `ent`. -/
def sfs_bmap_get_sub_nolock (ent index : ℕ) (create : Bool) (s : sfs_fs) :
    Option (Except ℤ (ℕ × ℕ) × sfs_fs) := do
  guard (index < SFS_BLK_NENTRY)
  if ent ≠ 0 then
    let (ret, buf, s) ← s.sfs_rbuf (fun _ => 0) 0 4 ent (index * 4)
    let ino := value 4 buf
    if ret ≠ 0 then return (.error ret, s)
    else if ino ≠ 0 ∨ ¬create then return (.ok (ent, ino), s)
    else sfs_bmap_get_sub_nolock.create ent index false s
  else if ¬create then return (.ok (ent, 0), s)
  else
    let (r, s) ← s.sfs_block_alloc
    match r with
    | .error ret => return (.error ret, s)
    | .ok ent => sfs_bmap_get_sub_nolock.create ent index true s

/-- The last lines of `sfs_bmap_get_nolock`. -/
def sfs_bmap_get_nolock.out (ino : ℕ) (s : sfs_fs) : Option (Except ℤ ℕ × sfs_fs) := do
  guard (ino = 0 ∨ s.sfs_block_inuse ino = some true)
  return (.ok ino, s)

/-- The block number `index` of a file; with `create` a missing one is allocated. -/
def sfs_bmap_get_nolock (n index : ℕ) (create : Bool) (s : sfs_fs) :
    Option (Except ℤ ℕ × sfs_fs) := do
  let din := (s.sin n).din
  if index < SFS_NDIRECT then
    if din.direct index = 0 ∧ create then
      let (r, s) ← s.sfs_block_alloc
      match r with
      | .error ret => return (.error ret, s)
      | .ok ino =>
        let s := (s.modifyDin n fun din =>
          { din with direct := Function.update din.direct index ino }).setDirty n true
        sfs_bmap_get_nolock.out ino s
    else sfs_bmap_get_nolock.out (din.direct index) s
  else if index - SFS_NDIRECT < SFS_BLK_NENTRY then
    let (r, s) ← s.sfs_bmap_get_sub_nolock din.indirect (index - SFS_NDIRECT) create
    match r with
    | .error ret => return (.error ret, s)
    | .ok (ent, ino) =>
      if ent ≠ din.indirect then
        guard (din.indirect = 0)
        let s := (s.modifyDin n fun din => { din with indirect := ent }).setDirty n true
        sfs_bmap_get_nolock.out ino s
      else sfs_bmap_get_nolock.out ino s
  else none

/-- The block number `index` of a file, which is appended if it is the next one. -/
def sfs_bmap_load_nolock (n index : ℕ) (s : sfs_fs) : Option (Except ℤ ℕ × sfs_fs) := do
  let blocks := (s.sin n).din.blocks
  guard (index ≤ blocks)
  let create := decide (index = blocks)
  let (r, s) ← s.sfs_bmap_get_nolock n index create
  match r with
  | .error ret => return (.error ret, s)
  | .ok ino =>
    guard ((← s.sfs_block_inuse ino) = true)
    if create then return (.ok ino, s.modifyDin n fun din => { din with blocks := din.blocks + 1 })
    else return (.ok ino, s)

def sfs_bmap_free_sub_nolock (ent index : ℕ) (s : sfs_fs) : Option (Except ℤ Unit × sfs_fs) := do
  guard ((← s.sfs_block_inuse ent) = true ∧ index < SFS_BLK_NENTRY)
  let (ret, buf, s) ← s.sfs_rbuf (fun _ => 0) 0 4 ent (index * 4)
  let ino := value 4 buf
  if ret ≠ 0 then return (.error ret, s)
  else if ino ≠ 0 then
    let (r, s) ← s.sfs_wbuf (byteOf 0) 0 4 ent (index * 4)
    match r with
    | .error ret => return (.error ret, s)
    | .ok _ => return (.ok (), ← s.sfs_block_free ino)
  else return (.ok (), s)

def sfs_bmap_free_nolock (n index : ℕ) (s : sfs_fs) : Option (Except ℤ Unit × sfs_fs) := do
  let din := (s.sin n).din
  if index < SFS_NDIRECT then
    if din.direct index ≠ 0 then
      let s ← s.sfs_block_free (din.direct index)
      return (.ok (), (s.modifyDin n fun din =>
        { din with direct := Function.update din.direct index 0 }).setDirty n true)
    else return (.ok (), s)
  else if index - SFS_NDIRECT < SFS_BLK_NENTRY ∧ din.indirect ≠ 0 then
    s.sfs_bmap_free_sub_nolock din.indirect (index - SFS_NDIRECT)
  else return (.ok (), s)

/-- The last block of a file is freed. -/
def sfs_bmap_truncate_nolock (n : ℕ) (s : sfs_fs) : Option (Except ℤ Unit × sfs_fs) := do
  let blocks := (s.sin n).din.blocks
  guard (blocks ≠ 0)
  let (r, s) ← s.sfs_bmap_free_nolock n (blocks - 1)
  match r with
  | .error ret => return (.error ret, s)
  | .ok _ =>
    return (.ok (), (s.modifyDin n fun din => { din with blocks := din.blocks - 1 }).setDirty n true)

end ucore.sfs_fs
