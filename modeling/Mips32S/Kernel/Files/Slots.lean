import Mips32S.Kernel.Files.Invariant

open Function Finset

namespace ucore

open fd_status

namespace SlotOk

variable {f : file} {h x : Option ℕ} {c : Role → ℕ}
variable (hok : SlotOk f h c)
include hok

theorem of_none (hs : f.status = FD_NONE) : f.open_count = 0 ∧ h = none ∧ c = 0 := by
  cases hok <;> simp_all

theorem of_opened (hs : f.status = FD_OPENED) :
    ∃ n u, f.node = some n ∧ h = some n ∧ f.open_count = u + 1 ∧ c = Pi.single .user u := by
  cases hok <;> simp_all

theorem of_opener (hc : c (.opener x) ≠ 0) :
    f.status = FD_INIT ∧ f.open_count = 0 ∧ h = x ∧ c = Pi.single (.opener x) 1 := by
  cases hok with
  | init hs hn hc' =>
    subst hc'
    have hx : x = h := by
      by_contra hne
      exact hc (Pi.single_eq_of_ne (by simpa using hne) 1)
    subst hx
    exact ⟨hs, hn, rfl, rfl⟩
  | _ => simp_all

theorem of_user (hc : c .user ≠ 0) :
    ∃ n u, f.node = some n ∧ h = some n ∧ c = Pi.single .user (u + 1) ∧
      (f.status = FD_OPENED ∧ f.open_count = u + 2 ∨ f.status = FD_CLOSED ∧
        f.open_count = u + 1) := by
  cases hok with
  | opened n u hs hnode hh hn hc' =>
    subst hc'
    obtain ⟨u, rfl⟩ := Nat.exists_eq_succ_of_ne_zero hc
    exact ⟨n, u, hnode, hh, rfl, .inl ⟨hs, hn⟩⟩
  | closed n u hs hnode hh hn hc' => exact ⟨n, u, hnode, hh, hc', .inr ⟨hs, hn⟩⟩
  | _ => simp_all

theorem of_freer (hc : c .freer ≠ 0) :
    f.status = FD_CLOSED ∧ f.open_count = 0 ∧ h = none ∧ c = Pi.single .freer 1 := by
  cases hok <;> simp_all

theorem with_pos (pos : BitVec 32) : SlotOk { f with pos := pos } h c := by
  cases hok with
  | free hs hn hh hc => exact .free hs hn hh hc
  | init hs hn hc => exact .init hs hn hc
  | opened n u hs hnode hh hn hc => exact .opened n u hs hnode hh hn hc
  | closed n u hs hnode hh hn hc => exact .closed n u hs hnode hh hn hc
  | freeing hs hn hh hc => exact .freeing hs hn hh hc

end SlotOk

namespace Files

variable {s : Files} {held : FileSlot → Option ℕ} {p fd n : ℕ} {k : FileSlot} {e : Event}
  {log : List Event}

theorem held_record (hlog : Event.held log = some held) :
    Event.held (log ++ [e]) = e.after held := by
  simp only [Event.held] at hlog ⊢
  rw [List.foldlM_append, hlog]
  simp

theorem open_count_inc (hheld : held k = none) (m : ℕ) :
    Function.update s.open_count n (s.open_count n + 1) m + (if held k = some m then 1 else 0) =
      s.open_count m + if some n = some m then 1 else 0 := by
  rw [hheld]
  by_cases hm : m = n
  · subst hm
    simp
  · simp [update_of_ne hm, Ne.symm hm]

theorem open_count_dec (hheld : held k = some n) (hpos : 0 < s.open_count n) (m : ℕ) :
    Function.update s.open_count n (s.open_count n - 1) m + (if held k = some m then 1 else 0) =
      s.open_count m + if (none : Option ℕ) = some m then 1 else 0 := by
  rw [hheld]
  by_cases hm : m = n
  · subst hm
    simp only [update_self, if_true, reduceCtorEq, if_false]
    omega
  · simp [update_of_ne hm, Ne.symm hm]

/-- A process goes on with a slot without starting or ending the destruction of its table; if it
is at that, the slots below are free. -/
def Steady (s : Files) (p fd : ℕ) (l : Place) : Prop :=
  l.destroys = (s.place p).destroys ∧ ∀ i, l = .freeing i .destroy → i = fd ∧ ∀ j < fd,
    (s.fd_array (s.filesp p, j)).status = FD_NONE

theorem steady {l : Place} (hd : (s.place p).destroys = false) (hl : l.destroys = false) :
    s.Steady p fd l := by
  refine ⟨hl.trans hd.symm, ?_⟩
  rintro i rfl
  cases hl

namespace Inv

variable (h : s.Inv held)
include h

section
variable (hp : p ∈ s.pids) (hd : (s.place p).destroys = false)
include hp hd

theorem files_count_pos : 0 < s.files_count (s.filesp p) := by
  rw [h.count _ (h.filesp_mem p hp)]
  apply card_pos.mpr
  exact ⟨p, mem_filter.mpr ⟨hp, rfl, by simp [hd]⟩⟩

theorem get_fd_array : s.get_fd_array p = some (s.filesp p) :=
  if_pos ⟨h.filesp_mem p hp, h.files_count_pos hp hd⟩

end

theorem slot_mem (hp : p ∈ s.pids) (hfd : fd < FILES_STRUCT_NENTRY) : (s.filesp p, fd) ∈ s.slots :=
  mem_product.mpr ⟨h.filesp_mem p hp, mem_range.mpr hfd⟩

theorem open_count_pos (hk : held k = some n) : 0 < s.open_count n := by
  rw [h.inode n]
  exact card_pos.mpr ⟨k, mem_filter.mpr ⟨h.held_mem k n hk, hk⟩⟩

theorem claim_lt {r : Role} (hp : p ∈ s.pids) (hc : (s.place p).claim = some (fd, r)) :
    fd < FILES_STRUCT_NENTRY := by
  have hmem := h.holds_mem p hp (s.filesp p, fd) r (by rw [holds, hc]; rfl)
  exact mem_range.mp (mem_product.mp hmem).2

omit h in
theorem holders_ne_zero {r : Role} (hp : p ∈ s.pids) (hc : (s.place p).claim = some (fd, r)) :
    s.holders (s.filesp p, fd) r ≠ 0 := by
  apply card_ne_zero.mpr
  exact ⟨p, mem_filter.mpr ⟨hp, by rw [holds, hc]; rfl⟩⟩

variable {a b : Option Role} {l : Place} {f : file} {n : ℕ} (ret : ℕ → ℤ) (hp : p ∈ s.pids)
  (hfd : fd < FILES_STRUCT_NENTRY) (ha : (s.place p).claim = a.map (fd, ·))
  (hb : l.claim = b.map (fd, ·)) (hl : s.Steady p fd l)
include hp hfd ha hb hl

theorem update {h' : Option ℕ} {open_count : ℕ → ℕ}
    (hlog : Event.held log = some (Function.update held (s.filesp p, fd) h'))
    (hinode : ∀ n, open_count n + (if held (s.filesp p, fd) = some n then 1 else 0) =
      s.open_count n + if h' = some n then 1 else 0)
    (hslot : ∀ c, c + mark a = s.holders (s.filesp p, fd) + mark b → SlotOk f h' c) :
    Files.Inv { s with
        fd_array := Function.update s.fd_array (s.filesp p, fd) f
        place := Function.update s.place p l
        ret := ret
        open_count := open_count
        log := log } (Function.update held (s.filesp p, fd) h') := by
  apply h.changes _ hp (h.slot_mem hp hfd) hlog hinode
  · simpa only [update_self] using hslot
  · intro q hq hdq heq
    exact (h.alone q hq hdq p hp heq.symm).symm
  · intro i hi j hj
    simp only [update_self] at hi
    obtain ⟨rfl, hfree⟩ := hl.2 i hi
    have hne : (s.filesp p, j) ≠ (s.filesp p, i) := by
      intro heq
      exact hj.ne (congrArg Prod.snd heq)
    simp only [update_of_ne hne]
    exact hfree j hj
  · constructor
    all_goals try rfl
    · intro q hq
      exact update_of_ne hq _ _
    · intro j hj
      exact update_of_ne hj _ _
    · rw [holds, ha]
      cases a <;> rfl
    · simp only [holds, update_self, hb]
      cases b <;> rfl
    · simpa only [update_self] using hl.1

theorem keep (hslot : ∀ c, c + mark a = s.holders (s.filesp p, fd) + mark b →
      SlotOk f (held (s.filesp p, fd)) c) :
    Files.Inv { s with
        fd_array := Function.update s.fd_array (s.filesp p, fd) f
        place := Function.update s.place p l
        ret := ret } held := by
  have hlog : Event.held s.log = some (Function.update held (s.filesp p, fd)
      (held (s.filesp p, fd))) := by
    rw [update_eq_self]
    exact h.log
  have hinv := h.update ret hp hfd ha hb hl hlog (fun _ => rfl) hslot
  rwa [update_eq_self] at hinv

theorem opens (hheld : held (s.filesp p, fd) = none)
    (hslot : ∀ c, c + mark a = s.holders (s.filesp p, fd) + mark b → SlotOk f (some n) c) :
    Files.Inv { s with
        fd_array := Function.update s.fd_array (s.filesp p, fd) f
        place := Function.update s.place p l
        ret := ret
        open_count := Function.update s.open_count n (s.open_count n + 1)
        log := s.log ++ [.opened (s.filesp p, fd) n] }
      (Function.update held (s.filesp p, fd) (some n)) := by
  apply h.update ret hp hfd ha hb hl _ (open_count_inc hheld) hslot
  rw [held_record h.log, Event.after, if_pos hheld]

theorem closes (hheld : held (s.filesp p, fd) = some n)
    (he : e = .refused (s.filesp p, fd) n ∨ e = .closed (s.filesp p, fd) n)
    (hslot : ∀ c, c + mark a = s.holders (s.filesp p, fd) + mark b → SlotOk f none c) :
    Files.Inv { s with
        fd_array := Function.update s.fd_array (s.filesp p, fd) f
        place := Function.update s.place p l
        ret := ret
        open_count := Function.update s.open_count n (s.open_count n - 1)
        log := s.log ++ [e] } (Function.update held (s.filesp p, fd) none) := by
  apply h.update ret hp hfd ha hb hl _ (open_count_dec hheld (h.open_count_pos hheld)) hslot
  rw [held_record h.log]
  obtain rfl | rfl := he
  · rw [Event.after, if_pos hheld]
  · rw [Event.after, if_pos hheld]

end Inv

end Files

end ucore
