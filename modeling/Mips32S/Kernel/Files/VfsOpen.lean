import Mips32S.Kernel.Files.Calls

open Function Option

namespace ucore

def E_NO_DEV : ℤ := 13
def E_NA_DEV : ℤ := 14
def E_ISDIR : ℤ := 17
def E_EXISTS : ℤ := 23

def O_EXCL : BitVec 32 := 0x8

/-- The tables of operations of the inodes. -/
inductive inode_ops where
  | sfs_node_dirops
  | sfs_node_fileops
  | dev_node_ops
  deriving DecidableEq

/-- The inodes, and the answers of the file systems and devices during a call. -/
structure Vfs where
  in_ops : ℕ → inode_ops
  /-- The root directory of the file system of an inode. -/
  fsop_get_root : ℕ → ℕ
  pwd : Option ℕ
  bootfs_node : Option ℕ
  /-- The names of the devices, each with its inode or the root of its file system. -/
  vdev_list : List (List Char × Option ℕ)
  sfs_lookup_once : ℕ → List Char → Except ℤ ℕ
  dop_open : ℕ → BitVec 32 → ℤ
  /-- The answer of `sfs_truncfile` to the length 0, and the bytes it leaves. -/
  sfs_truncfile : ℕ → ℤ × List (BitVec 8)
  sfs_truncfile_ok : ∀ n, (sfs_truncfile n).1 = 0 → (sfs_truncfile n).2 = []
  ref_count : ℕ → ℕ
  open_count : ℕ → ℕ
  data : ℕ → List (BitVec 8)

def sfs_opendir (open_flags : BitVec 32) : ℤ :=
  if open_flags &&& O_ACCMODE ≠ O_RDONLY ∨ open_flags &&& O_APPEND ≠ 0 then -E_ISDIR else 0

namespace Vfs

variable {s s' : Vfs} {n m node : ℕ} {path path' subpath : List Char} {r : Except ℤ ℕ}

def vop_ref_inc (n : ℕ) (s : Vfs) : Vfs :=
  { s with ref_count := update s.ref_count n (s.ref_count n + 1) }

/-- The inode is reclaimed with its last reference; a device has no `vop_reclaim`. -/
def vop_ref_dec (n : ℕ) (s : Vfs) : Option Vfs := do
  guard (0 < s.ref_count n ∧ (s.ref_count n = 1 → s.in_ops n ≠ .dev_node_ops))
  return { s with ref_count := update s.ref_count n (s.ref_count n - 1) }

def vop_open_inc (n : ℕ) (s : Vfs) : Vfs :=
  { s with open_count := update s.open_count n (s.open_count n + 1) }

/-- With the last open `vop_close` stores the inode or closes the device. -/
def vop_open_dec (n : ℕ) (s : Vfs) : Option Vfs := do
  guard (0 < s.open_count n)
  return { s with open_count := update s.open_count n (s.open_count n - 1) }

/-- An inode is handed out with a reference to it. -/
def hand (r : Except ℤ ℕ) (s : Vfs) : Except ℤ ℕ × Vfs :=
  (r, match r with
    | .ok n => s.vop_ref_inc n
    | .error _ => s)

def vfs_get_curdir (s : Vfs) : Except ℤ ℕ × Vfs := s.hand (s.pwd.elim (.error (-E_NOENT)) .ok)

def vfs_get_bootfs (s : Vfs) : Except ℤ ℕ × Vfs :=
  s.hand (s.bootfs_node.elim (.error (-E_NOENT)) .ok)

def vfs_get_root (devname : List Char) (s : Vfs) : Except ℤ ℕ × Vfs :=
  s.hand <| match s.vdev_list.lookup devname with
    | none => .error (-E_NO_DEV)
    | some found => found.elim (.error (-E_NA_DEV)) .ok

/-- The inode to begin with, the rest of the path, and the path as it is afterwards: it ends where
the colon was. -/
def get_device (path : List Char) (s : Vfs) :
    Option (Except ℤ ℕ × List Char × List Char × Vfs) :=
  let devname := path.takeWhile fun c => c ≠ ':' ∧ c ≠ '/'
  match devname, path.drop devname.length with
  | [], '/' :: rest =>
    let (r, s) := s.vfs_get_bootfs
    some (r, rest.dropWhile (· = '/'), path, s)
  | [], ':' :: rest =>
    match s.vfs_get_curdir with
    | (.error ret, s) => some (.error ret, path, path, s)
    | (.ok node, s) => do
      guard (s.in_ops node ≠ .dev_node_ops)
      let root := s.fsop_get_root node
      let s ← (s.vop_ref_inc root).vop_ref_dec node
      return (.ok root, rest.dropWhile (· = '/'), path, s)
  | devname, ':' :: rest =>
    let (r, s) := s.vfs_get_root devname
    some (r, rest.dropWhile (· = '/'), devname, s)
  | _, _ =>
    let (r, s) := s.vfs_get_curdir
    some (r, path, path, s)

/-- `sfs_lookup`, with the assertion of `sfs_dirent_search_nolock`, and `dev_lookup`; a file has no
`vop_lookup`. -/
def vop_lookup (node : ℕ) (path : List Char) (s : Vfs) : Option (Except ℤ ℕ × Vfs) :=
  match s.in_ops node with
  | .sfs_node_dirops => do
    guard (path ≠ [] ∧ path.head? ≠ some '/' ∧ path.length ≤ SFS_MAX_FNAME_LEN)
    let (r, s) := (s.vop_ref_inc node).hand (s.sfs_lookup_once node path)
    let s ← s.vop_ref_dec node
    return (r, s)
  | .dev_node_ops => some <| s.hand (if path ≠ [] then .error (-E_NOENT) else .ok node)
  | .sfs_node_fileops => none

def vfs_lookup (path : List Char) (s : Vfs) : Option (Except ℤ ℕ × List Char × Vfs) := do
  let (r, subpath, path, s) ← s.get_device path
  match r with
  | .error ret => return (.error ret, path, s)
  | .ok node =>
    if subpath ≠ [] then
      let (r, s) ← s.vop_lookup node subpath
      let s ← s.vop_ref_dec node
      return (r, path, s)
    else return (.ok node, path, s)

/-- The answer of `sfs_opendir`, `sfs_openfile` or `dev_open`. -/
def opened (node : ℕ) (open_flags : BitVec 32) (s : Vfs) : ℤ :=
  match s.in_ops node with
  | .sfs_node_dirops => sfs_opendir open_flags
  | .sfs_node_fileops => 0
  | .dev_node_ops =>
    if open_flags &&& (O_CREAT ||| O_TRUNC ||| O_EXCL ||| O_APPEND) ≠ 0 then -E_INVAL
    else s.dop_open node open_flags

/-- Only files have `vop_truncate`. -/
def vop_truncate (node : ℕ) (s : Vfs) : Option (ℤ × Vfs) := do
  guard (s.in_ops node = .sfs_node_fileops)
  let (ret, bytes) := s.sfs_truncfile node
  return (ret, { s with data := update s.data node bytes })

/-- No table has `vop_create`: the call fails its assertion. -/
def vop_create (_dir : ℕ) (_name : List Char) (_excl : Bool) (_s : Vfs) :
    Option (Except ℤ ℕ × Vfs) := none

/-- The rest of `vfs_open`, for the inode that was found. -/
def vfs_open.found (node : ℕ) (open_flags : BitVec 32) (s : Vfs) : Option (Except ℤ ℕ × Vfs) := do
  let ret := s.opened node open_flags
  if ret ≠ 0 then
    let s ← s.vop_ref_dec node
    return (.error ret, s)
  let s := s.vop_open_inc node
  if open_flags &&& O_TRUNC ≠ 0 ∨ open_flags &&& O_CREAT ≠ 0 then
    let (ret, s) ← s.vop_truncate node
    if ret ≠ 0 then
      let s ← s.vop_open_dec node
      let s ← s.vop_ref_dec node
      return (.error ret, s)
    return (.ok node, s)
  return (.ok node, s)

def vfs_open (path : List Char) (open_flags : BitVec 32) (s : Vfs) :
    Option (Except ℤ ℕ × Vfs) :=
  match accmode open_flags with
  | none => some (.error (-E_INVAL), s)
  | some (_, can_write) =>
    if open_flags &&& O_TRUNC ≠ 0 ∧ !can_write then some (.error (-E_INVAL), s)
    else do
      let (r, path, s) ← s.vfs_lookup path
      match r with
      | .error ret =>
        if ret = -16 ∧ open_flags &&& O_CREAT ≠ 0 then
          -- `vfs_lookup_parent`, with the path as `vfs_lookup` has left it
          let (r, name, _, s) ← s.get_device path
          match r with
          | .error ret => return (.error ret, s)
          | .ok dir => s.vop_create dir name (open_flags &&& O_EXCL ≠ 0)
        else return (.error ret, s)
      | .ok node =>
        if open_flags &&& O_EXCL ≠ 0 ∧ open_flags &&& O_CREAT ≠ 0 then
          return (.error (-E_EXISTS), s)
        else vfs_open.found node open_flags s

theorem vop_ref_inc_comm (s : Vfs) (n m : ℕ) :
    (s.vop_ref_inc n).vop_ref_inc m = (s.vop_ref_inc m).vop_ref_inc n := by
  by_cases h : m = n
  · rw [h]
  · simp [vop_ref_inc, h, Ne.symm h, update_comm h]

theorem vop_ref_dec_inc (heq : (s.vop_ref_inc n).vop_ref_dec n = some s') : s' = s := by
  simp only [vop_ref_dec, vop_ref_inc, bind_eq_bind, bind_eq_some_iff,
    update_self, update_idem, Nat.add_sub_cancel, update_eq_self] at heq
  obtain ⟨-, -, heq⟩ := heq
  cases heq
  rfl

theorem vop_open_dec_inc (heq : (s.vop_open_inc n).vop_open_dec n = some s') : s' = s := by
  simp only [vop_open_dec, vop_open_inc, bind_eq_bind, bind_eq_some_iff,
    update_self, update_idem, Nat.add_sub_cancel, update_eq_self] at heq
  obtain ⟨-, -, heq⟩ := heq
  cases heq
  rfl

theorem vop_ref_dec_hand (heq : ((s.vop_ref_inc n).hand r).2.vop_ref_dec n = some s') :
    s' = (s.hand r).2 := by
  cases r with
  | error ret => exact vop_ref_dec_inc heq
  | ok m =>
    rw [hand, vop_ref_inc_comm] at heq
    exact vop_ref_dec_inc heq

theorem get_device_hand (heq : s.get_device path = some (r, subpath, path', s')) :
    s' = (s.hand r).2 := by
  rw [get_device] at heq
  split at heq
  · cases heq
    rfl
  · cases hpwd : s.pwd with
    | none =>
      simp only [vfs_get_curdir, hand, hpwd, Option.elim] at heq
      cases heq
      rfl
    | some dir =>
      simp only [vfs_get_curdir, hand, hpwd, Option.elim, bind_eq_bind,
        bind_eq_some_iff, pure_def] at heq
      obtain ⟨-, -, s1, hdec, heq⟩ := heq
      cases heq
      exact vop_ref_dec_hand hdec
  · cases heq
    rfl
  · cases heq
    rfl

theorem vop_lookup_hand (heq : s.vop_lookup node path = some (r, s')) : s' = (s.hand r).2 := by
  rw [vop_lookup] at heq
  split at heq
  · simp only [bind_eq_bind, bind_eq_some_iff, pure_def] at heq
    obtain ⟨-, -, s1, hdec, heq⟩ := heq
    cases heq
    exact vop_ref_dec_hand hdec
  · cases heq
    rfl
  · cases heq

theorem vfs_lookup_hand (heq : s.vfs_lookup path = some (r, path', s')) : s' = (s.hand r).2 := by
  simp only [vfs_lookup, bind_eq_bind, bind_eq_some_iff, Prod.exists] at heq
  obtain ⟨r1, subpath, path1, s1, hdev, heq⟩ := heq
  have hs1 := get_device_hand hdev
  cases r1 with
  | error ret =>
    cases heq
    exact hs1
  | ok dir =>
    split_ifs at heq
    · simp only [bind_eq_some_iff, Prod.exists, pure_def] at heq
      obtain ⟨r2, s2, hlookup, s3, hdec, heq⟩ := heq
      cases heq
      rw [vop_lookup_hand hlookup, hs1] at hdec
      exact vop_ref_dec_hand hdec
    · cases heq
      exact hs1

variable {open_flags : BitVec 32}

/-- What the counts and the bytes have to be after `vfs_open`. -/
def Balanced (open_flags : BitVec 32) (s : Vfs) (r : Except ℤ ℕ) (s' : Vfs) : Prop :=
  match r with
  | .error _ => s'.ref_count = s.ref_count ∧ s'.open_count = s.open_count
  | .ok n => s'.ref_count = update s.ref_count n (s.ref_count n + 1) ∧
    s'.open_count = update s.open_count n (s.open_count n + 1) ∧
    (open_flags &&& O_TRUNC = 0 → s'.data = s.data)

/-- The flags pass the checks of `vfs_open`. -/
def Accepted (open_flags : BitVec 32) : Prop :=
  ∃ m, accmode open_flags = some m ∧ (open_flags &&& O_TRUNC = 0 ∨ m.2 = true)

/-- The file `node` is opened without `O_TRUNC`, but truncated, and is not empty. -/
def Clobbers (node : ℕ) (open_flags : BitVec 32) (s : Vfs) : Prop :=
  open_flags &&& O_TRUNC = 0 ∧ open_flags &&& O_CREAT ≠ 0 ∧ s.opened node open_flags = 0 ∧
    (s.sfs_truncfile node).1 = 0 ∧ s.data node ≠ []

theorem found_balanced (heq : vfs_open.found node open_flags (s.vop_ref_inc node) = some (r, s')) :
    Balanced open_flags s r s' ↔ ¬Clobbers node open_flags s := by
  have hopened : (s.vop_ref_inc node).opened node open_flags = s.opened node open_flags := rfl
  simp only [vfs_open.found, hopened] at heq
  split_ifs at heq with hret htrunc
  · simp only [bind_eq_bind, bind_eq_some_iff] at heq
    obtain ⟨s1, hdec, heq⟩ := heq
    cases heq
    rw [vop_ref_dec_inc hdec]
    exact iff_of_true ⟨rfl, rfl⟩ fun h => hret h.2.2.1
  · simp only [vop_truncate, bind_eq_bind, bind_eq_some_iff, pure_def, some.injEq] at heq
    obtain ⟨_, ⟨-, -, rfl⟩, heq⟩ := heq
    split_ifs at heq with hfailed
    · simp only [bind_eq_some_iff] at heq
      obtain ⟨s2, hopen, s3, href, heq⟩ := heq
      cases heq
      have hs2 := vop_open_dec_inc (s := { s.vop_ref_inc node with
        data := update s.data node (s.sfs_truncfile node).2 }) hopen
      rw [hs2] at href
      have hs3 := vop_ref_dec_inc (s := { s with
        data := update s.data node (s.sfs_truncfile node).2 }) href
      rw [hs3]
      exact iff_of_true ⟨rfl, rfl⟩ fun h => hfailed h.2.2.2.1
    · cases heq
      have hkept : update s.data node (s.sfs_truncfile node).2 = s.data ↔ s.data node = [] := by
        rw [s.sfs_truncfile_ok node (not_not.mp hfailed), update_eq_self_iff, eq_comm]
      refine ⟨fun hb hclob => hclob.2.2.2.2 (hkept.mp (hb.2.2 hclob.1)), fun h => ?_⟩
      refine ⟨rfl, rfl, fun hno => hkept.mpr (by_contra fun hne => h ?_)⟩
      exact ⟨hno, htrunc.resolve_left (not_not.mpr hno), not_not.mp hret, not_not.mp hfailed, hne⟩
  · cases heq
    refine iff_of_true ⟨rfl, rfl, fun _ => rfl⟩ fun h => htrunc (.inr h.2.1)

/-- The counts and the bytes are right unless the path names an inode that exists and `O_CREAT` is
given: with `O_EXCL` a reference stays behind, and without `O_TRUNC` the file is truncated. -/
theorem vfs_open_balanced (heq : s.vfs_open path open_flags = some (r, s')) :
    Balanced open_flags s r s' ↔ ¬(Accepted open_flags ∧ ∃ node path' s1,
      s.vfs_lookup path = some (.ok node, path', s1) ∧
      (open_flags &&& O_EXCL ≠ 0 ∧ open_flags &&& O_CREAT ≠ 0 ∨ Clobbers node open_flags s)) := by
  rw [vfs_open] at heq
  cases hmode : accmode open_flags with
  | none =>
    rw [hmode] at heq
    cases heq
    refine iff_of_true ⟨rfl, rfl⟩ ?_
    rintro ⟨⟨m, hm, -⟩, -⟩
    cases hmode.symm.trans hm
  | some mode =>
    simp only [hmode] at heq
    by_cases htrunc : open_flags &&& O_TRUNC ≠ 0 ∧ (!mode.2) = true
    · rw [if_pos htrunc] at heq
      cases heq
      refine iff_of_true ⟨rfl, rfl⟩ ?_
      rintro ⟨⟨m, hm, hwrite⟩, -⟩
      cases hmode.symm.trans hm
      exact hwrite.elim htrunc.1 fun hw => by simp [hw] at htrunc
    rw [if_neg htrunc] at heq
    have haccepted : Accepted open_flags := by
      refine ⟨mode, hmode, ?_⟩
      rcases not_and_or.mp htrunc with hno | hwrite
      · exact .inl (not_not.mp hno)
      · exact .inr (by simpa using hwrite)
    simp only [haccepted, true_and, bind_eq_bind, bind_eq_some_iff,
      Prod.exists] at heq ⊢
    obtain ⟨r1, path1, s1, hlookup, heq⟩ := heq
    have hs1 := vfs_lookup_hand hlookup
    cases r1 with
    | error ret =>
      have hbalanced : Balanced open_flags s r s' := by
        by_cases hcreate : ret = -16 ∧ open_flags &&& O_CREAT ≠ 0
        · simp only [if_pos hcreate, bind_eq_some_iff, Prod.exists] at heq
          obtain ⟨r2, name, path2, s2, hdev, heq⟩ := heq
          have hs2 := get_device_hand hdev
          cases r2 with
          | error ret =>
            cases heq
            exact (hs2.trans hs1) ▸ ⟨rfl, rfl⟩
          | ok dir => cases heq
        · simp only [if_neg hcreate] at heq
          cases heq
          exact hs1 ▸ ⟨rfl, rfl⟩
      refine iff_of_true hbalanced ?_
      rintro ⟨node, path', s2, hfound, -⟩
      cases hlookup.symm.trans hfound
    | ok node =>
      have honly : (∃ node path' s1, s.vfs_lookup path = some (.ok node, path', s1) ∧
          (open_flags &&& O_EXCL ≠ 0 ∧ open_flags &&& O_CREAT ≠ 0 ∨ Clobbers node open_flags s)) ↔
          open_flags &&& O_EXCL ≠ 0 ∧ open_flags &&& O_CREAT ≠ 0 ∨ Clobbers node open_flags s := by
        refine ⟨?_, fun h => ⟨node, path1, s1, hlookup, h⟩⟩
        rintro ⟨m, path', s2, hfound, h⟩
        cases hlookup.symm.trans hfound
        exact h
      rw [honly]
      by_cases hexcl : open_flags &&& O_EXCL ≠ 0 ∧ open_flags &&& O_CREAT ≠ 0
      · simp only [if_pos hexcl] at heq
        cases heq
        refine iff_of_false (fun h => ?_) (not_not.mpr (.inl hexcl))
        have hcount := congrFun h.1 node
        rw [hs1] at hcount
        simp [hand, vop_ref_inc] at hcount
      · simp only [if_neg hexcl] at heq
        rw [hs1] at heq
        rw [found_balanced heq, not_or]
        exact (and_iff_right hexcl).symm

/-- A directory, the inode 1, with a file of one byte, the inode 2, under the name `a`. -/
def oneFile : Vfs where
  in_ops n := if n = 1 then .sfs_node_dirops else .sfs_node_fileops
  fsop_get_root _ := 1
  pwd := none
  bootfs_node := some 1
  vdev_list := []
  sfs_lookup_once _ name := if name = ['a'] then .ok 2 else .error (-E_NOENT)
  dop_open _ _ := 0
  sfs_truncfile _ := (0, [])
  sfs_truncfile_ok _ _ := rfl
  ref_count _ := 1
  open_count _ := 0
  data _ := [0x61]

theorem vfs_open_balanced_rdwr : ∃ s', oneFile.vfs_open ['/', 'a'] O_RDWR = some (.ok 2, s') ∧
    Balanced O_RDWR oneFile (.ok 2) s' := by
  obtain ⟨s', heq⟩ : ∃ s', oneFile.vfs_open ['/', 'a'] O_RDWR = some (.ok 2, s') := ⟨_, rfl⟩
  refine ⟨s', heq, (vfs_open_balanced heq).mpr ?_⟩
  rintro ⟨-, _, _, _, -, h⟩
  exact h.elim (fun h => h.2 (by decide)) fun h => h.2.1 (by decide)

/-- With `O_EXCL` the call fails and the file keeps a reference; without it the file loses its
byte. -/
theorem vfs_open_unbalanced :
    (∃ ret s', oneFile.vfs_open ['/', 'a'] (O_RDWR ||| O_CREAT ||| O_EXCL) = some (.error ret, s') ∧
      s'.ref_count 2 = oneFile.ref_count 2 + 1) ∧
    ∃ s', oneFile.vfs_open ['/', 'a'] (O_RDWR ||| O_CREAT) = some (.ok 2, s') ∧
      s'.data 2 ≠ oneFile.data 2 :=
  ⟨⟨_, _, rfl, by decide⟩, _, rfl, by decide⟩

end Vfs

end ucore
