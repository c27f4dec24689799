import Mips32S.Kernel.Files.Slots

open Function Option List

namespace ucore

open fd_status

namespace Files

/-- The step succeeds and leaves tables that satisfy the invariant. -/
def Keeps (r : Option Files) : Prop := ∃ s held, r = some s ∧ s.Inv held

variable {s : Files} {held : FileSlot → Option ℕ} {p fd : ℕ} {k : FileSlot}

namespace Inv

section
variable (h : s.Inv held)
include h

theorem returns (hidle : s.place p = .idle) (r : ℤ) : (s.returns p r).Inv held := by
  have hplace : Function.update s.place p .idle = s.place := by
    rw [← hidle, update_eq_self]
  rw [Files.returns, goto, hplace]
  exact ⟨h.log, h.slot, h.held_mem, h.holds_mem, h.filesp_mem, h.count, h.inode, h.alone, h.passed⟩

theorem found (hp : p ∈ s.pids) (hfd : fd < FILES_STRUCT_NENTRY)
    (hs : (s.fd_array (s.filesp p, fd)).status = FD_NONE) :
    s.found (s.filesp p) fd = some (.ok fd, s.set (s.filesp p, fd)
      { s.fd_array (s.filesp p, fd) with status := FD_INIT, node := none }) :=
  if_pos ((h.slot _ (h.slot_mem hp hfd)).of_none hs).1

theorem fd_array_alloc (hp : p ∈ s.pids) (hidle : s.place p = .idle) (fd : ℤ) :
    (∃ e, s.fd_array_alloc fd p = some (.error e, s)) ∨
    ∃ i < FILES_STRUCT_NENTRY, (s.fd_array (s.filesp p, i)).status = FD_NONE ∧
      s.fd_array_alloc fd p = some (.ok i, s.set (s.filesp p, i)
        { s.fd_array (s.filesp p, i) with status := FD_INIT, node := none }) := by
  rw [Files.fd_array_alloc, h.get_fd_array hp (by rw [hidle]; rfl), bind_some]
  split_ifs with hno htest hfree
  · cases hfind : (List.range FILES_STRUCT_NENTRY).find? fun fd =>
        (s.fd_array (s.filesp p, fd)).status = FD_NONE with
    | none => exact .inl ⟨_, rfl⟩
    | some i =>
      have hi : i < FILES_STRUCT_NENTRY := mem_range.mp (mem_of_find?_eq_some hfind)
      have hs := find?_some hfind
      exact .inr ⟨i, hi, of_decide_eq_true hs, h.found hp hi (of_decide_eq_true hs)⟩
  · have hi : fd.toNat < FILES_STRUCT_NENTRY := by
      have := htest.1
      have := htest.2
      omega
    exact .inr ⟨_, hi, hfree, h.found hp hi hfree⟩
  · exact .inl ⟨_, rfl⟩
  · exact .inl ⟨_, rfl⟩

theorem fd2file (hp : p ∈ s.pids) (hidle : s.place p = .idle) (fd : ℤ) :
    (∃ e, s.fd2file fd p = some (.error e)) ∨
    ∃ i < FILES_STRUCT_NENTRY, (s.fd_array (s.filesp p, i)).status = FD_OPENED ∧
      s.fd2file fd p = some (.ok i) := by
  rw [Files.fd2file, h.get_fd_array hp (by rw [hidle]; rfl), map_some]
  split_ifs with htest hopen
  · have hi : fd.toNat < FILES_STRUCT_NENTRY := by
      have := htest.1
      have := htest.2
      omega
    exact .inr ⟨_, hi, hopen.1, rfl⟩
  · exact .inl ⟨_, rfl⟩
  · exact .inl ⟨_, rfl⟩

end

variable {node : ℕ} {flags : BitVec 32} (h : s.Inv held) (hp : p ∈ s.pids)
include h hp

theorem of_opener {x : Option ℕ} (hc : (s.place p).claim = some (fd, .opener x)) :
    fd < FILES_STRUCT_NENTRY ∧ (s.fd_array (s.filesp p, fd)).status = FD_INIT ∧
      (s.fd_array (s.filesp p, fd)).open_count = 0 ∧ held (s.filesp p, fd) = x ∧
      s.holders (s.filesp p, fd) = Pi.single (.opener x) 1 :=
  have hfd := h.claim_lt hp hc
  ⟨hfd, (h.slot _ (h.slot_mem hp hfd)).of_opener (holders_ne_zero hp hc)⟩

theorem file_open_failed (hc : (s.place p).claim = some (fd, .opener none))
    (hd : (s.place p).destroys = false) (r : ℤ) :
    Keeps (s.file_open_failed p fd r) := by
  obtain ⟨hfd, hs, hn, hheld, hholders⟩ := h.of_opener hp hc
  rw [Files.file_open_failed, fd_array_free, if_neg (not_not.mpr hn), hs]
  refine ⟨_, held, rfl, ?_⟩
  apply h.keep (a := some (.opener none)) (b := none) _ hp hfd hc rfl (steady hd rfl)
  intro c hcount
  rw [hholders] at hcount
  exact .free rfl hn hheld (add_right_cancel (hcount.trans (zero_add _).symm))

section
variable (hc : (s.place p).claim = some (fd, .opener (some node)))
  (hd : (s.place p).destroys = false)
include hc hd

theorem file_opened (flags : BitVec 32) : Keeps (s.file_opened p fd flags node) := by
  obtain ⟨hfd, hs, hn, hheld, hholders⟩ := h.of_opener hp hc
  simp only [Files.file_opened, fd_array_open, set, update_self, update_idem, hs,
    hn, ne_eq, reduceCtorEq, not_false_eq_true, and_self, if_true, map_some]
  refine ⟨_, held, rfl, ?_⟩
  apply h.keep (a := some (.opener (some node))) (b := none) _ hp hfd hc rfl (steady hd rfl)
  intro c hcount
  rw [hholders] at hcount
  refine .opened node 0 rfl rfl hheld rfl ?_
  rw [Pi.single_zero]
  exact add_right_cancel (hcount.trans (zero_add _).symm)

omit hc hd in
theorem set_pos {r : Role} (hc : (s.place p).claim = some (fd, r))
    (hd : (s.place p).destroys = false) (pos : BitVec 32) :
    (s.set (s.filesp p, fd) { s.fd_array (s.filesp p, fd) with pos := pos }).Inv held := by
  have hfd := h.claim_lt hp hc
  have hinv := h.keep (a := some r) (b := some r)
    (f := { s.fd_array (s.filesp p, fd) with pos := pos }) s.ret hp hfd hc hc (steady hd hd) ?_
  · rwa [update_eq_self] at hinv
  · intro c hcount
    rw [add_right_cancel hcount]
    exact (h.slot _ (h.slot_mem hp hfd)).with_pos pos

theorem vfs_opened (flags : BitVec 32) : Keeps (s.vfs_opened p fd flags node) := by
  simp only [Files.vfs_opened]
  split_ifs with happend
  · refine ⟨_, held, rfl, ?_⟩
    have hfd := h.claim_lt hp hc
    apply h.keep (a := some _) (b := some _) _ hp hfd hc rfl (steady hd rfl)
    intro c hcount
    rw [add_right_cancel hcount]
    exact (h.slot _ (h.slot_mem hp hfd)).with_pos 0
  · exact (h.set_pos hp hc hd 0).file_opened hp hc hd flags

omit hc hd in
theorem file_open (hidle : s.place p = .idle) (flags : BitVec 32) :
    Keeps (s.file_open flags p) := by
  rw [Files.file_open]
  cases accmode flags with
  | none => exact ⟨_, held, rfl, h.returns hidle _⟩
  | some mode =>
    obtain ⟨e, halloc⟩ | ⟨i, hi, hs, halloc⟩ := h.fd_array_alloc hp hidle NO_FD
    · simp only [halloc]
      exact ⟨_, held, rfl, h.returns hidle _⟩
    · have hc : (s.place p).claim = none := by rw [hidle]; rfl
      have hd : (s.place p).destroys = false := by rw [hidle]; rfl
      obtain ⟨hn, hheld, hholders⟩ := (h.slot _ (h.slot_mem hp hi)).of_none hs
      have hinv := h.keep (a := none) (b := some (.opener none)) (l := .lookup i flags)
        (f := { s.fd_array (s.filesp p, i) with status := FD_INIT, node := none }) s.ret hp hi hc
        rfl (steady hd rfl) ?_
      · simp only [halloc]
        split_ifs
        · exact hinv.file_open_failed hp (by simp [Place.claim]) (by simp [Place.destroys]) _
        · exact ⟨_, held, rfl, hinv⟩
      · intro c hcount
        rw [hholders, zero_add] at hcount
        exact .init rfl hn (by rwa [hheld])

omit hc hd in
theorem vfs_open_lookup (hplace : s.place p = .lookup fd flags) (answer : Except ℤ ℕ) :
    Keeps (s.vfs_open_lookup fd flags answer p) := by
  have hc : (s.place p).claim = some (fd, .opener none) := by rw [hplace]; rfl
  have hd : (s.place p).destroys = false := by rw [hplace]; rfl
  cases answer with
  | error e => exact h.file_open_failed hp hc hd e
  | ok node =>
    obtain ⟨hfd, hs, hn, hheld, hholders⟩ := h.of_opener hp hc
    have hinv := h.opens (a := some (.opener none)) (b := some (.opener (some node))) (n := node)
      (l := .truncate fd flags node) (f := s.fd_array (s.filesp p, fd)) s.ret hp hfd hc rfl
      (steady hd rfl) hheld ?_
    · rw [update_eq_self] at hinv
      simp only [Files.vfs_open_lookup]
      split_ifs
      · exact ⟨_, _, rfl, hinv⟩
      · exact hinv.vfs_opened hp (by simp [Place.claim]) (by simp [Place.destroys]) flags
    · intro c hcount
      rw [hholders, add_comm] at hcount
      exact .init hs hn (add_left_cancel hcount)

theorem abandons {e : Event}
    (he : e = .refused (s.filesp p, fd) node ∨ e = .closed (s.filesp p, fd) node) (r : ℤ) :
    Keeps ((s.vop_open_dec node).map fun s => (s.record e).goto p (.abandon fd r)) := by
  obtain ⟨hfd, hs, hn, hheld, hholders⟩ := h.of_opener hp hc
  rw [vop_open_dec, if_pos (h.open_count_pos hheld)]
  have hinv := h.closes (a := some (.opener (some node))) (b := some (.opener none))
    (l := .abandon fd r) (f := s.fd_array (s.filesp p, fd)) s.ret hp hfd hc rfl (steady hd rfl)
    hheld he ?_
  · rw [update_eq_self] at hinv
    exact ⟨_, _, rfl, hinv⟩
  · intro c hcount
    rw [hholders, add_comm] at hcount
    exact .init hs hn (add_left_cancel hcount)

end

theorem vfs_open_truncate (hplace : s.place p = .truncate fd flags node) (r : ℤ) :
    Keeps (s.vfs_open_truncate fd flags node r p) := by
  have hc : (s.place p).claim = some (fd, .opener (some node)) := by rw [hplace]; rfl
  have hd : (s.place p).destroys = false := by rw [hplace]; rfl
  simp only [Files.vfs_open_truncate]
  split_ifs with hr
  · exact h.abandons hp hc hd (.inl rfl) r
  · exact h.vfs_opened hp hc hd flags

theorem file_open_fstat (hplace : s.place p = .fstat fd flags node) (stat : Except ℤ (BitVec 32)) :
    Keeps (s.file_open_fstat fd flags node stat p) := by
  have hc : (s.place p).claim = some (fd, .opener (some node)) := by rw [hplace]; rfl
  have hd : (s.place p).destroys = false := by rw [hplace]; rfl
  cases stat with
  | error e =>
    simp only [Files.file_open_fstat, vfs_close, Option.map_map]
    exact h.abandons hp hc hd (.inr rfl) e
  | ok st_size => exact (h.set_pos hp hc hd st_size).file_opened hp hc hd flags

end Inv

end Files

end ucore
