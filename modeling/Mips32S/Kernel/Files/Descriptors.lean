import Mips32S.Kernel.Files.Sharing

open Option List Finset

namespace ucore

open fd_status

def Event.slot : Event → FileSlot
  | .opened k _ | .refused k _ | .closed k _ => k

/-- Every open of an inode in a slot is followed by one close of it there, unless the inode is
still open in the slot. -/
theorem Event.held_balance {log : List Event} {held : FileSlot → Option ℕ}
    (hlog : Event.held log = some held) (k : FileSlot) (n : ℕ) :
    log.count (.opened k n) =
      log.count (.refused k n) + log.count (.closed k n) + if held k = some n then 1 else 0 := by
  induction log using reverseRecOn generalizing held with
  | nil =>
    cases hlog
    simp
  | append_singleton log e ih =>
    obtain ⟨before, hbefore⟩ : ∃ before, Event.held log = some before := by
      rw [Event.held, foldlM_append] at hlog
      obtain ⟨before, hbefore, -⟩ := bind_eq_some_iff.mp hlog
      exact ⟨before, hbefore⟩
    rw [Files.held_record hbefore] at hlog
    rw [count_append, count_append, count_append, ih hbefore]
    simp only [count_singleton]
    by_cases hk : e.slot = k
    · subst hk
      cases e with
      | opened j m =>
        obtain ⟨hj, heq⟩ := ite_none_right_eq_some.mp hlog
        cases heq
        simp [Event.slot, hj]
      | refused j m =>
        obtain ⟨hj, heq⟩ := ite_none_right_eq_some.mp hlog
        cases heq
        simp [Event.slot, hj]
        omega
      | closed j m =>
        obtain ⟨hj, heq⟩ := ite_none_right_eq_some.mp hlog
        cases heq
        simp [Event.slot, hj]
        omega
    · have hsame : held k = before k := by
        cases e with
        | _ j m =>
          obtain ⟨_, heq⟩ := ite_none_right_eq_some.mp hlog
          cases heq
          exact Function.update_of_ne (Ne.symm hk) _ _
      rw [hsame]
      cases e with
      | _ j m => simp_all [Event.slot]

namespace Files

variable {s : Files} {held : FileSlot → Option ℕ} {p : ℕ} {k : FileSlot} {n : ℕ}

/-- A slot has an inode open: the file is open, or closed but still in use, or a process that
reserved the slot has counted its open. -/
def HasOpen (s : Files) (k : FileSlot) (n : ℕ) : Prop :=
  ((s.fd_array k).status = FD_OPENED ∨
      (s.fd_array k).status = FD_CLOSED ∧ 0 < (s.fd_array k).open_count) ∧
    (s.fd_array k).node = some n ∨
  ∃ p ∈ s.pids, s.holds p = some (k, .opener (some n))

instance (s : Files) (k : FileSlot) (n : ℕ) : Decidable (s.HasOpen k n) :=
  inferInstanceAs (Decidable (_ ∨ _))

namespace Inv

variable (h : s.Inv held)
include h

theorem call (hp : p ∈ s.pids) (hidle : s.place p = .idle) (a : Action) : Keeps (s.call p a) := by
  cases a with
  | file_open flags => exact h.file_open hp hidle flags
  | file_close fd => exact h.file_close hp hidle fd
  | file_read fd => exact h.start hp hidle _ _ fd
  | file_write fd => exact h.start hp hidle _ _ fd
  | file_seek fd pos whence stat => exact h.file_seek hp hidle fd pos whence stat
  | file_fstat fd => exact h.start hp hidle (fun _ => true) .other fd
  | file_fsync fd => exact h.start hp hidle (fun _ => true) .other fd
  | file_getdirentry fd => exact h.start hp hidle (fun _ => true) .other fd
  | file_dup fd1 fd2 => exact h.file_dup hp hidle fd1 fd2
  | files_closeall => exact h.files_closeall hp hidle
  | copy_files flags room child =>
    rw [Files.call]
    split_ifs with hchild
    · exact ⟨s, held, rfl, h⟩
    · exact h.copy_files hp hidle hchild flags room
  | put_files => exact h.put_files hp hidle
  | _ => exact ⟨s, held, rfl, h⟩

theorem step (p : ℕ) (a : Action) : Keeps (s.step p a) := by
  unfold Files.step
  by_cases hp : p ∈ s.pids
  swap
  · rw [if_pos hp]
    exact ⟨s, held, rfl, h⟩
  rw [if_neg (not_not.mpr hp)]
  split
  next hplace => exact h.call hp hplace _
  next hplace => exact h.vfs_open_lookup hp hplace _
  next hplace => exact h.vfs_open_truncate hp hplace _
  next hplace => exact h.file_open_fstat hp hplace _
  next hplace => exact h.file_open_failed hp (by rw [hplace]; rfl) (by rw [hplace]; rfl) _
  next hplace => exact h.finish hp hplace _ _
  next hplace => exact h.freed hp hplace
  next => exact ⟨s, held, rfl, h⟩

theorem run (as : List (ℕ × Action)) : Keeps (s.run as) := by
  induction as generalizing s held with
  | nil => exact ⟨s, held, rfl, h⟩
  | cons pa as ih =>
    obtain ⟨s1, held1, hstep, hinv⟩ := h.step pa.1 pa.2
    rw [Files.run, hstep]
    exact ih hinv

theorem hasOpen_iff : held k = some n ↔ k ∈ s.slots ∧ s.HasOpen k n := by
  have hopener : ∀ x, s.holders k (.opener x) ≠ 0 ↔
      ∃ p ∈ s.pids, s.holds p = some (k, .opener x) := by
    intro x
    rw [holders, card_ne_zero]
    exact filter_nonempty_iff
  by_cases hk : k ∈ s.slots
  · rw [and_iff_right hk, HasOpen, ← hopener]
    cases h.slot k hk with
    | free hs hn hh hc => simp [hs, hh, hc]
    | init hs hn hc =>
      rw [hs, hc, Pi.single_apply]
      simp [eq_comm]
    | opened m u hs hnode hh hn hc => simp [hs, hnode, hh, hc]
    | closed m u hs hnode hh hn hc => simp [hs, hnode, hh, hn, hc]
    | freeing hs hn hh hc => simp [hs, hn, hh, hc]
  · exact ⟨fun hheld => absurd (h.held_mem k n hheld) hk, fun hopen => absurd hopen.1 hk⟩

end Inv

theorem boot_inv : boot.Inv fun _ => none := by
  refine ⟨rfl, ?_, by simp, ?_, by simp [boot], ?_, by simp [boot], ?_, ?_⟩
  · intro k _
    refine .free rfl rfl rfl ?_
    funext r
    simp [holders, holds, boot, Place.claim]
  · simp [holds, boot, Place.claim]
  · simp [boot, Place.destroys]
  · simp [boot, Place.destroys]
  · simp [boot]

end Files

end ucore
