import Mips32S.Kernel.Files.Opening

open Function Option

namespace ucore

open fd_status

namespace Files

variable {s : Files} {held : FileSlot → Option ℕ} {p fd : ℕ} {k : FileSlot} {f : file} {n u : ℕ}

theorem drop_more (hn : f.open_count = u + 2) :
    (s.set k f).drop k = some (false, s.set k { f with open_count := u + 1 }) := by
  simp [drop, set, hn]

theorem drop_last (hs : f.status = FD_CLOSED) (hnode : f.node = some n) (hn : f.open_count = 1)
    (hpos : 0 < s.open_count n) :
    (s.set k f).drop k = some (true, { s with
      fd_array := Function.update s.fd_array k { f with open_count := 0 }
      open_count := Function.update s.open_count n (s.open_count n - 1)
      log := s.log ++ [.closed k n] }) := by
  simp [drop, set, hn, fd_array_free, hs, hnode, vfs_close, vop_open_dec, hpos, record]

section
variable {a : Option Role} (h : s.Inv held) (hp : p ∈ s.pids) (hfd : fd < FILES_STRUCT_NENTRY)
  (ha : (s.place p).claim = a.map (fd, ·))
include h hp hfd ha

/-- A closed slot loses the count of `p`, which leaves `u` users. If there are none, `p` closes the
inode and has the slot to free. -/
theorem Inv.drops (hs : f.status = FD_CLOSED) (hnode : f.node = some n)
    (hheld : held (s.filesp p, fd) = some n) (hn : f.open_count = u + 1)
    (hc : s.holders (s.filesp p, fd) = Pi.single .user u + mark a) :
    (∃ s1, (s.set (s.filesp p, fd) f).drop (s.filesp p, fd) = some (true, s1) ∧
      ∀ l, l.claim = some (fd, .freer) → s.Steady p fd l → ∃ held', (s1.goto p l).Inv held') ∨
    u ≠ 0 ∧ ∃ f1, (s.set (s.filesp p, fd) f).drop (s.filesp p, fd) =
        some (false, s.set (s.filesp p, fd) f1) ∧
      ∀ l ret, l.claim = none → s.Steady p fd l → Files.Inv { s with
        fd_array := Function.update s.fd_array (s.filesp p, fd) f1
        place := Function.update s.place p l
        ret := ret } held := by
  cases u with
  | zero =>
    refine .inl ⟨_, drop_last hs hnode hn (h.open_count_pos hheld), ?_⟩
    intro l hl hsteady
    refine ⟨Function.update held (s.filesp p, fd) none, ?_⟩
    apply h.closes (b := some .freer) s.ret hp hfd ha hl hsteady hheld (.inr rfl)
    intro c hcount
    rw [hc, Pi.single_zero, zero_add, add_comm] at hcount
    exact .freeing hs rfl rfl (add_left_cancel hcount)
  | succ u =>
    refine .inr ⟨Nat.succ_ne_zero u, _, drop_more hn, ?_⟩
    intro l ret hl hsteady
    apply h.keep (b := none) ret hp hfd ha hl hsteady
    intro c hcount
    rw [hc] at hcount
    exact .closed n u hs hnode hheld rfl (add_right_cancel hcount)

theorem Inv.leaves (hd : (s.place p).destroys = false) (hs : f.status = FD_CLOSED)
    (hnode : f.node = some n) (hheld : held (s.filesp p, fd) = some n) (hn : f.open_count = u + 1)
    (hc : s.holders (s.filesp p, fd) = Pi.single .user u + mark a) (r : ℤ) :
    Keeps (((s.set (s.filesp p, fd) f).drop (s.filesp p, fd)).map (leave p fd r)) := by
  obtain ⟨s1, hdrop, hinv⟩ | ⟨-, f1, hdrop, hinv⟩ := h.drops hp hfd ha hs hnode hheld hn hc
  · obtain ⟨held', hinv⟩ := hinv (.freeing fd (.ret r)) rfl (steady hd rfl)
    rw [hdrop]
    exact ⟨_, held', rfl, hinv⟩
  · rw [hdrop]
    exact ⟨_, held, rfl, hinv .idle _ rfl (steady hd rfl)⟩

end

namespace Inv

variable (h : s.Inv held)
include h
variable (hp : p ∈ s.pids)
include hp

theorem file_close (hidle : s.place p = .idle) (fd : ℤ) : Keeps (s.file_close fd p) := by
  obtain ⟨e, hfile⟩ | ⟨i, hi, hs, hfile⟩ := h.fd2file hp hidle fd
  · rw [Files.file_close, hfile]
    exact ⟨_, held, rfl, h.returns hidle _⟩
  · obtain ⟨n, u, hnode, hheld, hn, hc⟩ := (h.slot _ (h.slot_mem hp hi)).of_opened hs
    simp only [Files.file_close, hfile, bind_some, fd_array_close, if_pos hs]
    exact h.leaves (f := { s.fd_array (s.filesp p, i) with status := FD_CLOSED }) (a := none) hp hi
      (by rw [hidle]; rfl) (by rw [hidle]; rfl) rfl hnode hheld hn hc 0

theorem fd_array_release (hc : (s.place p).claim = some (fd, .user))
    (hd : (s.place p).destroys = false) (r : ℤ) :
    Keeps ((s.fd_array_release (s.filesp p, fd)).map (leave p fd r)) := by
  have hfd := h.claim_lt hp hc
  obtain ⟨n, u, hnode, hheld, hholders, ⟨hs, hn⟩ | ⟨hs, hn⟩⟩ :=
    (h.slot _ (h.slot_mem hp hfd)).of_user (holders_ne_zero hp hc)
  all_goals
    have hsingle : s.holders (s.filesp p, fd) = Pi.single .user u + mark (some .user) := by
      rw [hholders, Pi.single_add]
      rfl
    have hself : s.set (s.filesp p, fd) (s.fd_array (s.filesp p, fd)) = s := by
      rw [set, update_eq_self]
  · -- the file is still open: its own count stays
    have hdrop := drop_more (s := s) (k := (s.filesp p, fd)) hn
    rw [hself] at hdrop
    rw [Files.fd_array_release, if_pos (.inl hs), hdrop]
    refine ⟨_, held, rfl, ?_⟩
    apply h.keep (a := some .user) (b := none) _ hp hfd hc rfl (steady hd rfl)
    intro c hcount
    rw [hsingle] at hcount
    exact .opened n u hs hnode hheld rfl (add_right_cancel hcount)
  · have hleaves := h.leaves (a := some .user) hp hfd hc hd hs hnode hheld hn hsingle r
    rw [hself] at hleaves
    rwa [Files.fd_array_release, if_pos (.inr hs)]

section
variable (hidle : s.place p = .idle)
include hidle

theorem acquire (hfd : fd < FILES_STRUCT_NENTRY)
    (hs : (s.fd_array (s.filesp p, fd)).status = FD_OPENED) (access : Access) :
    ∃ s1, s.fd_array_acquire (s.filesp p, fd) = some s1 ∧ s1.filesp = s.filesp ∧ s1.pids = s.pids ∧
      (s1.goto p (.inside fd access)).Inv held := by
  obtain ⟨n, u, hnode, hheld, hn, hc⟩ := (h.slot _ (h.slot_mem hp hfd)).of_opened hs
  refine ⟨_, if_pos hs, rfl, rfl, ?_⟩
  apply h.keep (a := none) (b := some .user) s.ret hp hfd (by rw [hidle]; rfl) rfl
    (steady (by rw [hidle]; rfl) rfl)
  intro c hcount
  refine .opened n (u + 1) hs hnode hheld (by simp only [hn]) ?_
  rwa [Pi.single_add, ← hc]

theorem start (allowed : file → Bool) (access : Access) (fd : ℤ) :
    Keeps (s.start allowed access fd p) := by
  obtain ⟨e, hfile⟩ | ⟨i, hi, hs, hfile⟩ := h.fd2file hp hidle fd
  · rw [Files.start, hfile]
    exact ⟨_, held, rfl, h.returns hidle _⟩
  · obtain ⟨s1, hacquire, -, -, hinv⟩ := h.acquire hp hidle hi hs access
    simp only [Files.start, hfile, bind_some]
    split_ifs
    · rw [hacquire]
      exact ⟨_, held, rfl, hinv⟩
    · exact ⟨_, held, rfl, h.returns hidle _⟩

theorem file_seek (fd : ℤ) (pos : BitVec 32) (whence : ℤ) (stat : Except ℤ (BitVec 32)) :
    Keeps (s.file_seek fd pos whence stat p) := by
  obtain ⟨e, hfile⟩ | ⟨i, hi, hs, hfile⟩ := h.fd2file hp hidle fd
  · rw [Files.file_seek, hfile]
    exact ⟨_, held, rfl, h.returns hidle _⟩
  · simp only [Files.file_seek, hfile, bind_some]
    obtain ⟨s1, hacquire, hfilesp, hpids, hinv⟩ := h.acquire hp hidle hi hs .other
    rw [hacquire, bind_some]
    cases seek_target pos whence stat (s1.fd_array (s1.filesp p, i)) with
    | ok target =>
      obtain ⟨s2, hacquire2, -, -, hseek⟩ := h.acquire hp hidle hi hs (.seek target)
      obtain rfl : s2 = s1 := Option.some.inj (hacquire2.symm.trans hacquire)
      exact ⟨_, held, rfl, hseek⟩
    | error e =>
      exact hinv.fd_array_release (by rwa [goto, hpids]) (by simp [goto, Place.claim])
        (by simp [goto, Place.destroys]) e

end

theorem finish {access : Access} (hplace : s.place p = .inside fd access) (r : ℤ)
    (copied : BitVec 32) : Keeps (s.finish fd access r copied p) := by
  have hc : (s.place p).claim = some (fd, .user) := by rw [hplace]; rfl
  have hd : (s.place p).destroys = false := by rw [hplace]; rfl
  exact (h.set_pos hp hc hd _).fd_array_release hp hc hd r

theorem file_dup (hidle : s.place p = .idle) (fd1 fd2 : ℤ) : Keeps (s.file_dup fd1 fd2 p) := by
  obtain ⟨e, hfile⟩ | ⟨i, hi, hs, hfile⟩ := h.fd2file hp hidle fd1
  · rw [Files.file_dup, hfile]
    exact ⟨_, held, rfl, h.returns hidle _⟩
  obtain ⟨e, halloc⟩ | ⟨j, hj, hfree, halloc⟩ := h.fd_array_alloc hp hidle fd2
  · rw [Files.file_dup, hfile, bind_some, halloc]
    exact ⟨_, held, rfl, h.returns hidle _⟩
  obtain ⟨n, u, hnode, -⟩ := (h.slot _ (h.slot_mem hp hi)).of_opened hs
  obtain ⟨hcount, hheld, hholders⟩ := (h.slot _ (h.slot_mem hp hj)).of_none hfree
  have hne : (s.filesp p, i) ≠ (s.filesp p, j) := by
    intro heq
    rw [heq, hfree] at hs
    cases hs
  simp only [Files.file_dup, hfile, halloc, bind_some, fd_array_dup, set,
    update_self, update_of_ne hne, hs, hnode, and_self, if_true, fd_array_open,
    update_idem, record, vop_open_inc, map_some, ne_eq, reduceCtorEq,
    not_false_eq_true, hcount]
  refine ⟨_, Function.update held (s.filesp p, j) (some n), rfl, ?_⟩
  apply h.opens (a := none) (b := none) _ hp hj (by rw [hidle]; rfl) rfl
    (steady (by rw [hidle]; rfl) rfl) hheld
  intro c hc
  exact .opened n 0 rfl rfl rfl rfl (by rw [Pi.single_zero, add_right_cancel hc, hholders])

end Inv

end Files

end ucore
