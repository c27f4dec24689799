import Mips32S.Kernel.Sfs.Limit
import Mips32S.Lib.Growable

open layout growable Option List

namespace ucore

structure sfs_disk_entry where
  ino : ℕ
  name : ℕ → BitVec 8

namespace sfs_disk_entry

def sizeof : ℕ := 4 + (SFS_MAX_FNAME_LEN + 1)

/-- The entry in a buffer; the last byte of its name is set to 0. -/
def read (b : ℕ → BitVec 8) : sfs_disk_entry :=
  ⟨value 4 b, fun j => if j < SFS_MAX_FNAME_LEN then b (4 + j) else 0⟩

end sfs_disk_entry

def sfs_dentry_size : ℕ := SFS_MAX_FNAME_LEN + 1

/-- A transfer to the memory `io_base`, of which `io_len - io_resid` bytes are done. -/
structure iobuf where
  io_base : ℕ → BitVec 8
  io_offset : ℤ
  io_len : ℕ
  io_resid : ℕ

def iobuf_init (base : ℕ → BitVec 8) (len : ℕ) (offset : ℤ) : iobuf := ⟨base, offset, len, len⟩

def iobuf_used (iob : iobuf) : ℕ := iob.io_len - iob.io_resid

/-- `iobuf_move` from the kernel to the buffer. -/
def iobuf_move (data : ℕ → BitVec 8) (len : ℕ) (iob : iobuf) : ℤ × iobuf :=
  let alen := min iob.io_resid len
  (if len - alen = 0 then 0 else -E_NO_MEM, { iob with
    io_base := copy iob.io_base (iobuf_used iob) data 0 alen
    io_offset := iob.io_offset + alen
    io_resid := iob.io_resid - alen })

structure dirent where
  offset : ℤ
  name : ℕ → BitVec 8

namespace sfs_fs

def sfs_dirent_read_nolock (n slot : ℕ) (s : sfs_fs) :
    Option (Except ℤ sfs_disk_entry × sfs_fs) := do
  guard ((s.sin n).din.type = SFS_TYPE_DIR ∧ slot < (s.sin n).din.blocks)
  let (r, s) ← s.sfs_bmap_load_nolock n slot
  match r with
  | .error ret => return (.error ret, s)
  | .ok ino =>
    guard ((← s.sfs_block_inuse ino) = true)
    let (ret, buf, s) ← s.sfs_rbuf (fun _ => 0) 0 sfs_disk_entry.sizeof ino 0
    if ret ≠ 0 then return (.error ret, s) else return (.ok (.read buf), s)

/-- The loop of `sfs_getdirentry_sub_nolock` from the slot `i` on, with `k` slots left. -/
def sfs_getdirentry_sub_nolock (n : ℕ) :
    ℕ → ℕ → ℕ → sfs_fs → Option (Except ℤ sfs_disk_entry × sfs_fs)
  | 0, _, _, s => some (.error (-E_NOENT), s)
  | k + 1, i, slot, s => do
    let (r, s) ← s.sfs_dirent_read_nolock n i
    match r with
    | .error ret => return (.error ret, s)
    | .ok entry =>
      if entry.ino ≠ 0 then
        if slot = 0 then return (.ok entry, s)
        else sfs_getdirentry_sub_nolock n k (i + 1) (slot - 1) s
      else sfs_getdirentry_sub_nolock n k (i + 1) slot s

/-- `fresh` tells whether there is memory for the entry. -/
def sfs_getdirentry (fresh : Bool) (n : ℕ) (iob : iobuf) (s : sfs_fs) :
    Option (ℤ × iobuf × sfs_fs) :=
  let offset := iob.io_offset
  let nslots := (s.sin n).din.blocks
  if ¬fresh then some (-E_NO_MEM, iob, s)
  else if offset < 0 ∨ offset % sfs_dentry_size ≠ 0 then some (-E_INVAL, iob, s)
  else if (offset / sfs_dentry_size).toNat > nslots then some (-E_NOENT, iob, s)
  else do
    let (r, s) ← sfs_getdirentry_sub_nolock n nslots 0 (offset / sfs_dentry_size).toNat s
    match r with
    | .error ret => return (ret, iob, s)
    | .ok entry =>
      let (ret, iob) := iobuf_move entry.name sfs_dentry_size iob
      return (ret, iob, s)

/-- `file_getdirentry` for a file that is open with the inode `n`. -/
def file_getdirentry (fresh : Bool) (n : ℕ) (direntp : dirent) (s : sfs_fs) :
    Option (ℤ × dirent × sfs_fs) := do
  let (ret, iob, s) ← s.sfs_getdirentry fresh n
    (iobuf_init direntp.name (FS_MAX_FNAME_LEN + 1) direntp.offset)
  return (ret, ⟨if ret = 0 then direntp.offset + iobuf_used iob else direntp.offset, iob.io_base⟩, s)

/-- Repeated calls, with the name that each one returns or its error. -/
def getdirentries (n : ℕ) :
    List Bool → dirent → sfs_fs → Option (List (Except ℤ (List (BitVec 8))))
  | [], _, _ => some []
  | fresh :: rest, d, s => do
    let (ret, d, s) ← s.file_getdirentry fresh n d
    let results ← getdirentries n rest d s
    return (if ret = 0 then .ok (contents sfs_dentry_size d.name) else .error ret) :: results

variable {I : Finset ℕ} {s s' : sfs_fs} {n i k c : ℕ} {d : dirent} {l : List sfs_disk_entry}

/-- The entry in the slot `k` of the directory `n`. -/
def dirEntry (I : Finset ℕ) (s : sfs_fs) (n k : ℕ) : sfs_disk_entry :=
  .read (s.disk (slot I s (n, fileSlot k)))

/-- The entries in use from the slot `i` on, in the order of the slots. -/
def live (I : Finset ℕ) (s : sfs_fs) (n i k : ℕ) : List sfs_disk_entry :=
  ((range' i k).map (dirEntry I s n)).filter (·.ino ≠ 0)

theorem live_succ : live I s n i (k + 1) =
    if (dirEntry I s n i).ino ≠ 0 then dirEntry I s n i :: live I s n (i + 1) k
    else live I s n (i + 1) k := by
  rw [live, range'_succ, map_cons, filter_cons]
  simp only [decide_eq_true_eq]
  rfl

theorem length_live_le : (live I s n i k).length ≤ k := (length_filter_le ..).trans (by simp)

theorem Shifted.dirEntry (hs' : Shifted s s') : sfs_fs.dirEntry I s' n = sfs_fs.dirEntry I s n := by
  obtain ⟨j, rfl⟩ := hs'
  rfl

theorem Shifted.live (hs' : Shifted s s') : sfs_fs.live I s' n i k = sfs_fs.live I s n i k := by
  rw [sfs_fs.live, sfs_fs.live, hs'.dirEntry]

theorem read_copy (b : ℕ → BitVec 8) :
    sfs_disk_entry.read (copy (fun _ => 0#8) 0 b 0 sfs_disk_entry.sizeof) = .read b := by
  have hsize : sfs_disk_entry.sizeof = 260 := rfl
  have hcopy : ∀ i < 260, copy (fun _ => 0#8) 0 b 0 sfs_disk_entry.sizeof i = b i := fun i hi => by
    rw [copy_of_mem (Nat.zero_le i) (by omega), Nat.zero_add, Nat.sub_zero]
  have hname : ∀ j, (if j < SFS_MAX_FNAME_LEN then
      copy (fun _ => 0#8) 0 b 0 sfs_disk_entry.sizeof (4 + j) else 0) =
      if j < SFS_MAX_FNAME_LEN then b (4 + j) else 0 := fun j => by
    have hmax : SFS_MAX_FNAME_LEN = 255 := rfl
    split_ifs
    · exact hcopy _ (by omega)
    · rfl
  rw [sfs_disk_entry.read, sfs_disk_entry.read, value_congr fun i hi => hcopy i (by omega),
    funext hname]

/-- A directory in memory that has its counted blocks, with a device that reports no errors. -/
structure Directory (I : Finset ℕ) (s : sfs_fs) (n : ℕ) : Prop where
  consistent : s.Consistent I
  loaded : n ∈ s.inode_list
  reliable : s.Reliable
  filled : Filled I s n
  type : (s.sin n).din.type = SFS_TYPE_DIR

theorem Shifted.directory (hs' : Shifted s s') (h : Directory I s n) : Directory I s' n := by
  refine ⟨hs'.consistent h.consistent, hs'.list ▸ h.loaded, h.reliable.shifted hs', fun k hk => ?_,
    hs'.sin ▸ h.type⟩
  rw [hs'.slot]
  exact h.filled k (hs'.sin ▸ hk)

namespace Directory

theorem dirent_read (h : Directory I s n) (hk : k < (s.sin n).din.blocks) : ∃ s', Shifted s s' ∧
    s.sfs_dirent_read_nolock n k = some (.ok (dirEntry I s n k), s') := by
  rcases load_cases h.consistent h.loaded h.reliable k with
    ⟨-, hwhy⟩ | ⟨b, s1, heq, hl⟩ | ⟨s1, -, -, hfew⟩
  · rcases hwhy with hwhy | hwhy | ⟨-, hzero⟩
    · omega
    · exact absurd (slot_of_capacity hwhy) (h.filled k hk)
    · exact absurd hzero (h.filled k hk)
  · have hs1 := hl.shifted hk
    have hb : slot I s (n, fileSlot k) = b := by rw [← hs1.slot, hl.slot]
    have hlt : b < s1.blocks := hl.slot ▸ hl.consistent.slot_lt _
    have hinuse : s1.sfs_block_inuse b = some true := by
      rw [hl.consistent.block_inuse hl.ne_zero hlt]
      simp [← hl.slot, hl.consistent.not_free]
    have hdisk : s1.disk = s.disk := by
      obtain ⟨j, rfl⟩ := hs1
      rfl
    obtain ⟨s2, hs2, hread⟩ : ∃ s2, Shifted s1 s2 ∧
        s1.sfs_rbuf (fun _ => 0#8) 0 sfs_disk_entry.sizeof b 0 =
          some (0, copy (fun _ => 0#8) 0 (s1.disk b) 0 sfs_disk_entry.sizeof, s2) :=
      (h.reliable.shifted hs1).rbuf _ 0 hl.ne_zero hlt (by decide) (by decide)
    refine ⟨s2, hs1.trans hs2, ?_⟩
    simp [sfs_dirent_read_nolock, h.type, hk, heq, hinuse, hread, read_copy, dirEntry, hb, hdisk]
  · exact absurd (enough_of_lt h.loaded hk (h.filled k hk)) (hfew k le_rfl)

theorem getdirentry_sub (h : Directory I s n) (hik : i + k = (s.sin n).din.blocks) (c : ℕ) :
    ∃ s', Shifted s s' ∧ sfs_getdirentry_sub_nolock n k i c s =
      some ((live I s n i k)[c]?.elim (.error (-E_NOENT)) .ok, s') := by
  induction k generalizing i c s with
  | zero => exact ⟨s, ⟨0, rfl⟩, rfl⟩
  | succ k ih =>
    obtain ⟨s1, hs1, hread⟩ := h.dirent_read (k := i) (by omega)
    have hik1 : i + 1 + k = (s1.sin n).din.blocks := by
      rw [hs1.sin]
      omega
    rw [live_succ]
    by_cases hino : (dirEntry I s n i).ino ≠ 0
    · rw [if_pos hino]
      cases c with
      | zero => exact ⟨s1, hs1, by simp [sfs_getdirentry_sub_nolock, hread, hino]⟩
      | succ c =>
        obtain ⟨s', hs', heq⟩ := ih (hs1.directory h) hik1 c
        refine ⟨s', hs1.trans hs', ?_⟩
        rw [hs1.live] at heq
        simp [sfs_getdirentry_sub_nolock, hread, hino, heq]
    · obtain ⟨s', hs', heq⟩ := ih (hs1.directory h) hik1 c
      refine ⟨s', hs1.trans hs', ?_⟩
      rw [hs1.live] at heq
      simp [sfs_getdirentry_sub_nolock, hread, hino, heq]

theorem call (h : Directory I s n) (hl : l = live I s n 0 (s.sin n).din.blocks) (hc : c ≤ l.length)
    (hoff : d.offset = (c * sfs_dentry_size : ℕ)) : ∃ s', Shifted s s' ∧
    s.file_getdirentry true n d = some (l[c]?.elim (-E_NOENT, d, s') fun e =>
      (0, ⟨((c + 1) * sfs_dentry_size : ℕ), copy d.name 0 e.name 0 sfs_dentry_size⟩, s')) := by
  have hsize : sfs_dentry_size = 256 := rfl
  have hle : l.length ≤ (s.sin n).din.blocks := hl ▸ length_live_le
  obtain ⟨s', hs', heq⟩ := h.getdirentry_sub (Nat.zero_add _) c
  refine ⟨s', hs', ?_⟩
  rw [← hl] at heq
  have hslot : (d.offset / sfs_dentry_size).toNat = c := by
    rw [hoff, hsize]
    omega
  have hgood : ¬(d.offset < 0 ∨ d.offset % sfs_dentry_size ≠ 0) := by
    rw [hoff, hsize]
    omega
  have hfew : ¬c > (s.sin n).din.blocks := by omega
  simp only [sfs_fs.file_getdirentry, sfs_getdirentry, iobuf_init, hgood, hslot, hfew, heq, if_false,
    not_true_eq_false]
  cases l[c]? with
  | none => rfl
  | some e =>
    have hnext : d.offset + (256 : ℕ) = ((c + 1) * sfs_dentry_size : ℕ) := by
      rw [hoff, hsize]
      omega
    have hlen : FS_MAX_FNAME_LEN + 1 = 256 := rfl
    rw [elim_some, ← hnext]
    simp [iobuf_move, iobuf_used, hsize, hlen]

end Directory

/-- What repeated calls return: the names one after the other, and then that there are no more. -/
def enumeration {α : Type} : List α → List Bool → List (Except ℤ α)
  | _, [] => []
  | l, false :: rest => .error (-E_NO_MEM) :: enumeration l rest
  | [], true :: rest => .error (-E_NOENT) :: enumeration [] rest
  | x :: l, true :: rest => .ok x :: enumeration l rest

/-- The name of an entry. -/
def entryName (e : sfs_disk_entry) : List (BitVec 8) := contents sfs_dentry_size e.name

theorem Directory.calls (h : Directory I s n) (fresh : List Bool)
    (hl : l = live I s n 0 (s.sin n).din.blocks) (hc : c ≤ l.length)
    (hoff : d.offset = (c * sfs_dentry_size : ℕ)) :
    getdirentries n fresh d s = some (enumeration ((l.drop c).map entryName) fresh) := by
  induction fresh generalizing c d s with
  | nil => simp [getdirentries, enumeration]
  | cons b rest ih =>
    cases b with
    | false =>
      have hcall : s.file_getdirentry false n d = some (-E_NO_MEM, d, s) := rfl
      simp [getdirentries, hcall, ih h hl hc hoff, enumeration]
      decide
    | true =>
      obtain ⟨s', hs', hcall⟩ := h.call hl hc hoff
      have hl' : l = live I s' n 0 (s'.sin n).din.blocks := by rw [hs'.sin, hs'.live, hl]
      rcases hc.eq_or_lt with rfl | hlt
      · have hrest := ih (hs'.directory h) hl' le_rfl hoff
        simp [getdirentries, hcall, hrest, enumeration]
        decide
      · have hrest := ih (d := ⟨((c + 1) * sfs_dentry_size : ℕ),
          copy d.name 0 l[c].name 0 sfs_dentry_size⟩) (hs'.directory h) hl' hlt rfl
        have hname : contents sfs_dentry_size (copy d.name 0 l[c].name 0 sfs_dentry_size) =
            entryName l[c] := contents_congr fun j hj => by
          rw [copy_of_mem (Nat.zero_le j) (by omega), Nat.zero_add, Nat.sub_zero]
        rw [getElem?_eq_getElem hlt] at hcall
        rw [drop_eq_getElem_cons hlt, map_cons, getdirentries]
        simp only [hcall, elim_some, bind_eq_bind, bind_some, hrest, hname,
          if_true, Option.pure_def, enumeration]

theorem enumeration_replicate {α : Type} (l : List α) (k : ℕ) :
    enumeration l (replicate (l.length + k) true) =
      l.map .ok ++ replicate k (.error (-E_NOENT)) := by
  induction l with
  | nil =>
    rw [length_nil, Nat.zero_add]
    induction k with
    | zero => rfl
    | succ k ih => exact congrArg (Except.error (-E_NOENT) :: ·) ih
  | cons x l ih =>
    rw [length_cons, Nat.add_right_comm]
    exact congrArg (Except.ok x :: ·) ih

/-- Repeated calls from the position 0 on return the names of the entries in use, each one once and in
the order of the slots, and then that there are no more; a call without memory changes nothing. -/
theorem getdirentries_spec (h : Directory I s n) (name : ℕ → BitVec 8) :
    (∀ fresh, getdirentries n fresh ⟨0, name⟩ s = some (enumeration
      ((live I s n 0 (s.sin n).din.blocks).map entryName) fresh)) ∧
    ∀ k, getdirentries n (replicate ((live I s n 0 (s.sin n).din.blocks).length + k) true)
      ⟨0, name⟩ s = some ((live I s n 0 (s.sin n).din.blocks).map (fun e => .ok (entryName e)) ++
        replicate k (.error (-E_NOENT))) := by
  have hall (fresh : List Bool) := h.calls (d := ⟨0, name⟩) fresh rfl (Nat.zero_le _) rfl
  refine ⟨hall, fun k => ?_⟩
  have hlist := enumeration_replicate ((live I s n 0 (s.sin n).din.blocks).map entryName) k
  rw [length_map, List.map_map] at hlist
  rw [hall, drop_zero, hlist]
  rfl

/-- A directory with the entries `a` and `c`; the entry `b` between them has been removed. -/
def threeSlots : sfs_fs where
  blocks := 8
  unused_blocks := 1
  super_dirty := false
  freemap := ⟨32, 1, fun _ => 0x80#32⟩
  disk b i := if i = 0 ∧ b ≠ 5 then 3 else if i = 4 then BitVec.ofNat 8 (0x61 + (b - 4)) else 0
  answer _ := 0
  inode_list := [3]
  sin _ :=
    ⟨⟨3 * SFS_BLKSIZE, SFS_TYPE_DIR, 1, 3, fun k => if k < 3 then 4 + k else 0, 0⟩, true, 1, 1⟩

theorem threeSlots_directory : Directory {3} threeSlots 3 where
  consistent := by
    have hok : threeSlots.freemap.Ok := ⟨by decide, fun i hi hi' => by
      have h32 : threeSlots.freemap.nbits = threeSlots.freemap.nwords * WORD_BITS := rfl
      omega⟩
    exact .of_direct rfl (by decide) rfl hok (by decide) (by decide) (by decide) (by decide)
      (by decide) (by decide) (by decide) fun h => Bool.noConfusion h
  loaded := by decide
  reliable _ := rfl
  filled := by
    rw [Filled]
    decide +kernel
  type := rfl

/-- Both names come out once, around a call that finds no memory, and then there are no more. -/
theorem getdirentries_threeSlots : Directory {3} threeSlots 3 ∧
    getdirentries 3 [true, false, true, true] ⟨0, fun _ => 0⟩ threeSlots =
      some [.ok (0x61#8 :: replicate 255 0), .error (-E_NO_MEM), .ok (0x63#8 :: replicate 255 0),
        .error (-E_NOENT)] := by
  have hlive : (live {3} threeSlots 3 0 3).map entryName =
      [0x61#8 :: replicate 255 0, 0x63#8 :: replicate 255 0] := by decide +kernel
  refine ⟨threeSlots_directory, ?_⟩
  rw [(getdirentries_spec threeSlots_directory _).1]
  exact congrArg (fun l => some (enumeration l _)) hlive

end sfs_fs

end ucore
