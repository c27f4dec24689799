import Mathlib.Data.Int.Interval
import Mips32S.Kernel.Process.Proc

open Function List

namespace ucore.Family

/-- The number that `get_pid` tries after `pid`. -/
def nextPid (pid : ℤ) : ℤ := if pid + 1 ≥ MAX_PID then 1 else pid + 1

variable {pids : List ℤ} {l l' n n' pid : ℤ}

theorem MAX_PID_eq : MAX_PID = 8192 := rfl

/-- No process has a number from the new `last_pid` up to the new `next_safe`. -/
theorem scan_complete (hlt : l < n) (h : get_pid.scan pids l n = .complete l' n') :
    l ≤ l' ∧ l' < n' ∧ n' ≤ n ∧ ∀ q ∈ pids, q < l' ∨ n' ≤ q := by
  induction pids generalizing l n with
  | nil =>
    cases h
    exact ⟨le_refl _, hlt, le_refl _, by simp⟩
  | cons q rest ih =>
    have hcons : ∀ {l1 n1}, l ≤ l1 → n1 ≤ n → (q < l1 ∨ n1 ≤ q) → l1 < n1 →
        get_pid.scan rest l1 n1 = .complete l' n' →
        l ≤ l' ∧ l' < n' ∧ n' ≤ n ∧ ∀ p ∈ q :: rest, p < l' ∨ n' ≤ p := by
      intro l1 n1 hl hn hq hlt1 hscan
      obtain ⟨hle, hlt', hle', hrest⟩ := ih hlt1 hscan
      refine ⟨hl.trans hle, hlt', hle'.trans hn, fun p hp => ?_⟩
      rcases mem_cons.mp hp with rfl | hp
      · omega
      · exact hrest p hp
    unfold get_pid.scan at h
    split at h
    · split at h
      · cases h
      · exact hcons (by omega) (le_refl n) (by omega) (by omega) h
    · split at h
      · exact hcons (le_refl l) (by omega) (by omega) (by omega) h
      · exact hcons (le_refl l) (le_refl n) (by omega) hlt h

theorem scan_again (hn : n ≤ MAX_PID) (h : get_pid.scan pids l n = .again l') :
    ∃ j, 0 < j ∧ l' = nextPid^[j] l ∧ ∀ i < j, nextPid^[i] l ∈ pids := by
  induction pids generalizing l n with
  | nil => cases h
  | cons q rest ih =>
    have hmem : ∀ {l1 : ℤ} {j : ℕ}, (∀ i < j, nextPid^[i] l1 ∈ rest) →
        ∀ i < j, nextPid^[i] l1 ∈ q :: rest := fun hrest i hi => mem_cons_of_mem q (hrest i hi)
    unfold get_pid.scan at h
    split at h
    · rename_i heq
      subst heq
      split at h
      · cases h
        refine ⟨1, Nat.one_pos, rfl, fun i hi => ?_⟩
        obtain rfl : i = 0 := by omega
        exact mem_cons_self
      · obtain ⟨j, hpos, hl', hrest⟩ := ih hn h
        have hstep : nextPid q = q + 1 := if_neg (by omega)
        refine ⟨j + 1, j.succ_pos, ?_, fun i hi => ?_⟩
        · rw [iterate_succ_apply, hstep, hl']
        · cases i with
          | zero => exact mem_cons_self
          | succ i =>
            rw [iterate_succ_apply, hstep]
            exact hmem hrest i (by omega)
    · split at h
      · obtain ⟨j, hpos, hl', hrest⟩ := ih (by omega) h
        exact ⟨j, hpos, hl', hmem hrest⟩
      · obtain ⟨j, hpos, hl', hrest⟩ := ih hn h
        exact ⟨j, hpos, hl', hmem hrest⟩

section
variable (h : 1 ≤ l ∧ l < MAX_PID)
include h

theorem nextPid_range (j : ℕ) : 1 ≤ nextPid^[j] l ∧ nextPid^[j] l < MAX_PID := by
  induction j with
  | zero => exact h
  | succ j ih =>
    rw [iterate_succ_apply', nextPid, MAX_PID_eq] at *
    split <;> omega

/-- As many passes suffice as there are numbers in use behind the first one. -/
theorem search_spec {k fuel : ℕ} (hfree : nextPid^[k] l ∉ pids) (hk : k < fuel) :
    ∃ l' n', get_pid.search pids fuel l = some (l', n') ∧ 1 ≤ l' ∧ l' < n' ∧ n' ≤ MAX_PID ∧
      ∀ q ∈ pids, q < l' ∨ n' ≤ q := by
  induction fuel generalizing l k with
  | zero => omega
  | succ fuel ih =>
    unfold get_pid.search
    cases hscan : get_pid.scan pids l MAX_PID with
    | complete l' n' =>
      obtain ⟨hle, hlt, hle', hfree'⟩ := scan_complete h.2 hscan
      exact ⟨l', n', rfl, by omega, hlt, hle', hfree'⟩
    | again l' =>
      obtain ⟨j, hpos, rfl, hused⟩ := scan_again (le_refl _) hscan
      have hle : j ≤ k := by
        by_contra hlt
        exact hfree (hused k (by omega))
      refine ih (nextPid_range h j) (k := k - j) ?_ (by omega)
      rwa [← iterate_add_apply, Nat.sub_add_cancel hle]

theorem iterate_nextPid (k : ℕ) : nextPid^[k] l = (l - 1 + k) % (MAX_PID - 1) + 1 := by
  rw [MAX_PID_eq] at *
  induction k with
  | zero => simp only [iterate_zero, id]; omega
  | succ k ih =>
    rw [iterate_succ_apply', ih, nextPid, MAX_PID_eq]
    split <;> omega

theorem exists_free (hlen : (pids.length : ℤ) < MAX_PID - 1) :
    ∃ k < MAX_PID.toNat, nextPid^[k] l ∉ pids := by
  by_contra hnone
  have hall : ∀ k < MAX_PID.toNat, nextPid^[k] l ∈ pids := fun k hk => by
    by_contra hfree
    exact hnone ⟨k, hk, hfree⟩
  have hsub : Finset.Ico 1 MAX_PID ⊆ pids.toFinset := by
    intro v hv
    rw [Finset.mem_Ico] at hv
    have hv' : v = nextPid^[((v - l) % (MAX_PID - 1)).toNat] l := by
      rw [iterate_nextPid h]
      simp only [MAX_PID_eq] at *
      omega
    rw [mem_toFinset, hv']
    refine hall _ ?_
    simp only [MAX_PID_eq]
    omega
  have hcard := Finset.card_le_card hsub
  have hle := pids.toFinset_card_le
  rw [Int.card_Ico] at hcard
  omega

end

/-- The numbers between `last_pid` and `next_safe` are free. -/
structure PidWindow (f : Family) : Prop where
  last_pid : 1 ≤ f.last_pid
  next_safe : f.next_safe ≤ MAX_PID
  free : ∀ p ∈ f.proc_list, (f.links p).pid ≤ f.last_pid ∨ f.next_safe ≤ (f.links p).pid

theorem get_pid_spec {f : Family} (h : f.PidWindow) (hlen : (f.proc_list.length : ℤ) < MAX_PID - 1) :
    ∃ pid next_safe, get_pid f = some (pid, { f with last_pid := pid, next_safe }) ∧
      1 ≤ pid ∧ pid < MAX_PID ∧ (∀ p ∈ f.proc_list, (f.links p).pid ≠ pid) ∧
      PidWindow { f with last_pid := pid, next_safe } := by
  have hlast := h.last_pid
  have hsafe := h.next_safe
  set pids := f.proc_list.map fun p => (f.links p).pid with hpids
  have hmem : ∀ p ∈ f.proc_list, (f.links p).pid ∈ pids := fun p hp =>
    mem_map.mpr ⟨p, hp, rfl⟩
  by_cases hscan : f.last_pid + 1 ≥ MAX_PID ∨ f.last_pid + 1 ≥ f.next_safe
  · set l := if f.last_pid + 1 ≥ MAX_PID then 1 else f.last_pid + 1 with hl
    have hrange : 1 ≤ l ∧ l < MAX_PID := by
      rw [hl, MAX_PID_eq]
      split <;> omega
    have hlen' : (pids.length : ℤ) < MAX_PID - 1 := by
      rw [hpids, length_map]
      exact hlen
    obtain ⟨k, hk, hfree⟩ := exists_free hrange hlen'
    obtain ⟨pid, next_safe, hsearch, hpos, hlt, hle, hwindow⟩ := search_spec hrange hfree hk
    refine ⟨pid, next_safe, ?_, hpos, by omega, fun p hp => ?_, ⟨hpos, hle, fun p hp => ?_⟩⟩
    · simp only [get_pid, if_pos hscan, ← hpids, ← hl, hsearch]
      rfl
    · have := hwindow _ (hmem p hp)
      omega
    · have := hwindow _ (hmem p hp)
      dsimp only
      omega
  · have hstep : (if f.last_pid + 1 ≥ MAX_PID then (1 : ℤ) else f.last_pid + 1) = f.last_pid + 1 :=
      if_neg (by omega)
    refine ⟨f.last_pid + 1, f.next_safe, ?_, by omega, by omega, fun p hp => ?_,
      ⟨by dsimp only; omega, h.next_safe, fun p hp => ?_⟩⟩
    · simp only [get_pid, if_neg hscan, hstep]
    · have := h.free p hp
      omega
    · have := h.free p hp
      dsimp only
      omega

end ucore.Family
