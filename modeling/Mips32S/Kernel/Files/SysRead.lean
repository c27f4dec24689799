import Mips32S.Kernel.Vma.UserMemory

open List

namespace ucore

def IOBUF_SIZE : ℕ := 4096

/-- An open file and the process that reads it; `σ` is what the inode is read from. -/
structure Reading (σ : Type) where
  node : σ
  readable : Bool
  pos : ℕ
  mm : mm_struct
  /-- The bytes that have been stored in user memory, with their addresses. -/
  stored : List (BitVec 32 × BitVec 8)

namespace Reading

-- what `vop_read` answers at a position for a length: its result and the bytes
variable {σ : Type} (vop_read : σ → ℕ → ℕ → ℤ × List (BitVec 8) × σ) (kmemsize : BitVec 32)

/-- `file_read` of a file that may be read. -/
def file_read (len : ℕ) (s : Reading σ) : ℤ × List (BitVec 8) × Reading σ :=
  let (ret, bytes, node) := vop_read s.node s.pos len
  (ret, bytes, { s with node, pos := s.pos + bytes.length })

def memcpy (dst : BitVec 32) : List (BitVec 8) → List (BitVec 32 × BitVec 8)
  | [] => []
  | b :: src => (dst, b) :: memcpy (dst + 1) src

/-- The check leaves the areas as they are; where it has found one is not kept. -/
def copy_to_user (dst : BitVec 32) (src : List (BitVec 8)) (s : Reading σ) :
    Option (Bool × Reading σ) := do
  let (ok, _) ← user_mem_check kmemsize (some s.mm) dst (BitVec.ofNat 32 src.length) true
  if ok then return (true, { s with stored := s.stored ++ memcpy dst src })
  else return (false, s)

/-- The loop of `sysfile_read`, with its result and the bytes copied; `none` when the fuel is used
up. -/
def sysfile_read.loop : ℕ → BitVec 32 → ℕ → ℕ → Reading σ → Option (ℤ × ℕ × Reading σ)
  | 0, _, _, _, _ => none
  | fuel + 1, base, len, copied, s =>
    if len = 0 then some (0, copied, s)
    else
      let (ret, bytes, s) := s.file_read vop_read (min IOBUF_SIZE len)
      let alen := bytes.length
      if alen = 0 then some (ret, copied, s)
      else do
        let (ok, s) ← s.copy_to_user kmemsize base bytes
        if ok then
          guard (alen ≤ len)
          if ret ≠ 0 then return (ret, copied + alen, s)
          else loop fuel (base + BitVec.ofNat 32 alen) (len - alen) (copied + alen) s
        else return (if ret = 0 then -E_INVAL else ret, copied, s)

/-- Every round but the last copies at least one byte; `room` says whether `kmalloc` succeeds. -/
def sysfile_read (room : Bool) (base len : BitVec 32) (s : Reading σ) : Option (ℤ × Reading σ) :=
  if len = 0 then some (0, s)
  else if !s.readable then some (-E_INVAL, s)
  else if !room then some (-E_NO_MEM, s)
  else do
    let (ret, copied, s) ←
      sysfile_read.loop vop_read kmemsize (len.toNat + 1) base len.toNat 0 s
    return (if copied ≠ 0 then copied else ret, s)

/-- `vop_read` keeps to the length, and reports nothing without bytes. -/
def Sound : Prop := ∀ node pos len, (vop_read node pos len).2.1.length ≤ len ∧
  ((vop_read node pos len).2.1.length = 0 → (vop_read node pos len).1 ≤ 0)

/-- Every piece that the file delivers has its place in accessible memory. -/
def Accessible (mm : mm_struct) : ℕ → BitVec 32 → ℕ → σ → ℕ → Prop
  | 0, _, _, _, _ => True
  | fuel + 1, base, len, node, pos =>
    let (ret, bytes, node) := vop_read node pos (min IOBUF_SIZE len)
    let alen := bytes.length
    len ≠ 0 → alen ≠ 0 → mm.AllowsRange base (BitVec.ofNat 32 alen) true ∧ (ret = 0 →
      Accessible mm fuel (base + BitVec.ofNat 32 alen) (len - alen) node (pos + alen))

/-- The position moves by the number of bytes that are reported, and as many are stored. -/
def Accounted (s : Reading σ) (r : ℤ) (s' : Reading σ) : Prop :=
  s'.pos = s.pos + r.toNat ∧ s'.stored.length = s.stored.length + r.toNat

variable {vop_read} {s : Reading σ}

theorem memcpy_length (dst : BitVec 32) (src : List (BitVec 8)) :
    (memcpy dst src).length = src.length := by
  induction src generalizing dst with
  | nil => rfl
  | cons b src ih => rw [memcpy, length_cons, length_cons, ih]

/-- The loop returns. It stores as many bytes as it copies, and the position moves by as many if
every piece is accessible and by more otherwise. -/
theorem loop_spec (hsound : Sound vop_read) {fuel len : ℕ} (base : BitVec 32) (c : ℕ)
    (h : s.mm.Searchable) (hfuel : len < fuel) :
    ∃ ret n s', sysfile_read.loop vop_read kmemsize fuel base len c s = some (ret, c + n, s') ∧
      s'.stored.length = s.stored.length + n ∧ s.pos + n ≤ s'.pos ∧
      (s'.pos = s.pos → ret ≤ 0) ∧
      (s'.pos = s.pos + n ↔ Accessible vop_read s.mm fuel base len s.node s.pos) := by
  induction fuel generalizing base len c s with
  | zero => omega
  | succ fuel ih =>
    by_cases hlen : len = 0
    · exact ⟨0, 0, s, by rw [sysfile_read.loop, if_pos hlen, Nat.add_zero], rfl, le_rfl,
        fun _ => le_rfl, iff_of_true rfl fun hne => absurd hlen hne⟩
    obtain ⟨hle, hnone⟩ := hsound s.node s.pos (min IOBUF_SIZE len)
    rw [sysfile_read.loop, Accessible, if_neg hlen, file_read]
    generalize vop_read s.node s.pos (min IOBUF_SIZE len) = answer at hle hnone ⊢
    obtain ⟨ret, bytes, node⟩ := answer
    dsimp only at hle hnone ⊢
    by_cases hempty : bytes.length = 0
    · rw [if_pos hempty]
      refine ⟨ret, 0, _, rfl, rfl, ?_, fun _ => hnone hempty, iff_of_true ?_ fun _ hne => ?_⟩
      · exact Nat.le_add_right _ _
      · rw [hempty]
      · exact absurd hempty hne
    obtain ⟨ok, mm, hcheck, -, -, hok⟩ :=
      h.check_spec kmemsize base (BitVec.ofNat 32 bytes.length) true
    simp only [copy_to_user, hcheck, Option.bind_eq_bind, Option.bind_some, ← hok, hlen, hempty,
      ne_eq, not_false_eq_true, forall_const]
    have hmoved : s.pos < s.pos + bytes.length := by omega
    cases ok with
    | false =>
      refine ⟨_, 0, _, rfl, rfl, hmoved.le, fun hpos => absurd hpos hmoved.ne', ?_⟩
      exact iff_of_false hmoved.ne' fun hall => Bool.false_ne_true hall.1
    | true =>
      have hless : bytes.length ≤ len := hle.trans (Nat.min_le_right _ _)
      have hstored : (s.stored ++ memcpy base bytes).length = s.stored.length + bytes.length := by
        rw [length_append, memcpy_length]
      by_cases hret : ret = 0
      · obtain ⟨ret', n, s', hloop, hlength, hle', -, hpos⟩ := ih
          (s := ⟨node, s.readable, s.pos + bytes.length, s.mm, s.stored ++ memcpy base bytes⟩)
          (base + BitVec.ofNat 32 bytes.length) (c + bytes.length) h
          (show len - bytes.length < fuel by omega)
        refine ⟨ret', bytes.length + n, s', ?_, ?_, ?_, fun hsame => ?_, ?_⟩
        · simp [guard, hless, hret, hloop, Nat.add_assoc]
        · rw [hlength, hstored, Nat.add_assoc]
        · rwa [← Nat.add_assoc]
        · dsimp only at hle'
          omega
        · rw [← Nat.add_assoc, hpos]
          simp [hret]
      · refine ⟨ret, bytes.length, _, by simp [guard, hless, hret]; rfl, hstored, le_rfl, ?_, ?_⟩
        · exact fun hsame => absurd hsame hmoved.ne'
        · simp [hret]

/-- The call returns, and its account is right exactly if every piece that the file delivers can be
stored: for the others the position has moved. -/
theorem sysfile_read_accounted (hsound : Sound vop_read) (h : s.mm.Searchable) (room : Bool)
    (base len : BitVec 32) :
    ∃ r s', s.sysfile_read vop_read kmemsize room base len = some (r, s') ∧
      (Accounted s r s' ↔ s.readable = true → room = true →
        Accessible vop_read s.mm (len.toNat + 1) base len.toNat s.node s.pos) := by
  rw [sysfile_read]
  by_cases hlen : len = 0
  · rw [if_pos hlen]
    refine ⟨0, s, rfl, iff_of_true ⟨rfl, rfl⟩ fun _ _ hne => absurd ?_ hne⟩
    rw [hlen]
    rfl
  rw [if_neg hlen]
  cases hread : s.readable with
  | false => exact ⟨_, s, rfl, iff_of_true ⟨rfl, rfl⟩ fun h => absurd h Bool.false_ne_true⟩
  | true =>
    cases room with
    | false => exact ⟨_, s, rfl, iff_of_true ⟨rfl, rfl⟩ fun _ h => absurd h Bool.false_ne_true⟩
    | true =>
      obtain ⟨ret, n, s', hloop, hstored, hle, hret, hpos⟩ := loop_spec kmemsize hsound base 0 h
        (Nat.lt_succ_self len.toNat)
      refine ⟨if n ≠ 0 then n else ret, s', by simp [hloop], ?_⟩
      have haccount : Accounted s (if n ≠ 0 then n else ret) s' ↔ s'.pos = s.pos + n := by
        rw [Accounted, hstored]
        split_ifs <;> omega
      exact haccount.trans (hpos.trans ⟨fun hall _ _ => hall, fun hall => hall rfl rfl⟩)

/-- A file of zeros that is read into a heap. -/
def zeros : Reading Unit := ⟨(), true, 0, heapAndStack, []⟩

def zeros_read (_ : Unit) (_ len : ℕ) : ℤ × List (BitVec 8) × Unit := (0, replicate len 0, ())

theorem sysfile_read_accounted_zeros :
    Accessible zeros_read heapAndStack 5 0x20000000#32 4 () 0 := by
  have hsound : Sound zeros_read := fun _ _ len => ⟨by simp [zeros_read], fun _ => le_rfl⟩
  obtain ⟨r, s', heq, hiff⟩ := sysfile_read_accounted 0x2000000#32 hsound (s := zeros)
    ⟨by decide, by simp [zeros, heapAndStack]⟩ true 0x20000000#32 4#32
  have heval : (zeros.sysfile_read zeros_read 0x2000000#32 true 0x20000000#32 4#32).map
      (fun r => (r.1, r.2.pos, r.2.stored.length)) = some (4, 4, 4) := by decide +kernel
  simp only [heq, Option.map_some, Option.some_inj, Prod.mk.injEq] at heval
  obtain ⟨rfl, hpos, hstored⟩ := heval
  exact hiff.mp ⟨hpos, hstored⟩ rfl rfl

/-- Four bytes for the address 0: none is stored, but the position has moved. -/
theorem sysfile_read_loses :
    (zeros.sysfile_read zeros_read 0x2000000#32 true 0#32 4#32).map
      (fun r => (r.1, r.2.pos, r.2.stored)) = some (-E_INVAL, 4, []) := by
  decide +kernel

end Reading

end ucore
