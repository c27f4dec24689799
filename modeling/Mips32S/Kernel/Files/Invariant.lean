import Mips32S.Kernel.Files.Calls
import Mips32S.Lib.Census
import Mathlib.Algebra.Group.Pi.Lemmas

open Function Option Finset

namespace ucore

open fd_status

/-- The part a process plays for the slot it holds; an opener may have counted its open already. -/
inductive Role
  | opener (node : Option ℕ)
  | user
  | freer
  deriving DecidableEq

def Place.claim : Place → Option (ℕ × Role)
  | .idle | .destroying => none
  | .lookup fd _ | .abandon fd _ => some (fd, .opener none)
  | .truncate fd _ node | .fstat fd _ node => some (fd, .opener (some node))
  | .inside fd _ => some (fd, .user)
  | .freeing fd _ => some (fd, .freer)

def Place.destroys : Place → Bool
  | .destroying | .freeing _ .destroy => true
  | _ => false

/-- The inodes open in the slots after an event: an open needs a slot without one, and a close the
inode that was opened last. -/
def Event.after (held : FileSlot → Option ℕ) : Event → Option (FileSlot → Option ℕ)
  | .opened k n => if held k = none then some (update held k (some n)) else none
  | .refused k n | .closed k n =>
    if held k = some n then some (update held k none) else none

/-- The inodes that the events of a run have left open. -/
def Event.held (log : List Event) : Option (FileSlot → Option ℕ) :=
  log.foldlM Event.after fun _ => none

/-- A slot whose status fits its count, the inode `h` open in it and the numbers `c` of processes
that hold it: free and held by nobody, reserved by one opener, open with one count more than it
has users, closed with as many as it has users, or about to be freed by the last of them. -/
inductive SlotOk (f : file) (h : Option ℕ) (c : Role → ℕ) : Prop
  | free (hs : f.status = FD_NONE) (hn : f.open_count = 0) (hh : h = none) (hc : c = 0)
  | init (hs : f.status = FD_INIT) (hn : f.open_count = 0) (hc : c = Pi.single (.opener h) 1)
  | opened (n u : ℕ) (hs : f.status = FD_OPENED) (hnode : f.node = some n) (hh : h = some n)
      (hn : f.open_count = u + 1) (hc : c = Pi.single .user u)
  | closed (n u : ℕ) (hs : f.status = FD_CLOSED) (hnode : f.node = some n) (hh : h = some n)
      (hn : f.open_count = u + 1) (hc : c = Pi.single .user (u + 1))
  | freeing (hs : f.status = FD_CLOSED) (hn : f.open_count = 0) (hh : h = none)
      (hc : c = Pi.single .freer 1)

namespace Files

def slots (s : Files) : Finset FileSlot := s.tables ×ˢ range FILES_STRUCT_NENTRY

def holds (s : Files) (p : ℕ) : Option (FileSlot × Role) :=
  (s.place p).claim.map fun c => ((s.filesp p, c.1), c.2)

def holders (s : Files) (k : FileSlot) (r : Role) : ℕ :=
  (s.pids.filter fun p => s.holds p = some (k, r)).card

structure Inv (s : Files) (held : FileSlot → Option ℕ) : Prop where
  log : Event.held s.log = some held
  slot : ∀ k ∈ s.slots, SlotOk (s.fd_array k) (held k) (s.holders k)
  held_mem : ∀ k n, held k = some n → k ∈ s.slots
  holds_mem : ∀ p ∈ s.pids, ∀ k r, s.holds p = some (k, r) → k ∈ s.slots
  filesp_mem : ∀ p ∈ s.pids, s.filesp p ∈ s.tables
  count : ∀ t ∈ s.tables, s.files_count t =
    (s.pids.filter fun p => s.filesp p = t ∧ ¬(s.place p).destroys).card
  inode : ∀ n, s.open_count n = (s.slots.filter fun k => held k = some n).card
  /-- The process that destroys a table is alone with it, -/
  alone : ∀ p ∈ s.pids, (s.place p).destroys → ∀ q ∈ s.pids, s.filesp q = s.filesp p → q = p
  /-- and the slots it has passed are free. -/
  passed : ∀ p ∈ s.pids, ∀ fd, s.place p = .freeing fd .destroy → ∀ i < fd,
    (s.fd_array (s.filesp p, i)).status = FD_NONE

variable {s s' : Files} {held : FileSlot → Option ℕ} {p q : ℕ} {k j : FileSlot}

/-- The contribution of one process to the holders of a slot. -/
def mark (r : Option Role) : Role → ℕ := r.elim 0 fun r => Pi.single r 1

theorem mark_apply (r : Option Role) (x : Role) : mark r x = if r = some x then 1 else 0 := by
  cases r with
  | none => rfl
  | some r =>
    simp only [mark, elim_some, Pi.single_apply, some.injEq, eq_comm]

/-- Two states that differ in the process `p` and the slot `k` only; `p` holds nothing but `k`, in
the part `a` before and `b` after. -/
structure Changes (s s' : Files) (p : ℕ) (k : FileSlot) (a b : Option Role) : Prop where
  tables : s'.tables = s.tables
  files_count : s'.files_count = s.files_count
  pids : s'.pids = s.pids
  filesp : s'.filesp = s.filesp
  place : ∀ q, q ≠ p → s'.place q = s.place q
  fd_array : ∀ j, j ≠ k → s'.fd_array j = s.fd_array j
  before : s.holds p = a.map (k, ·)
  after : s'.holds p = b.map (k, ·)
  destroys : (s'.place p).destroys = (s.place p).destroys

namespace Changes

variable {a b : Option Role} (hc : Changes s s' p k a b)
include hc

theorem holds (hq : q ≠ p) : s'.holds q = s.holds q := by
  rw [Files.holds, Files.holds, hc.filesp, hc.place q hq]

theorem slots : s'.slots = s.slots := by rw [Files.slots, Files.slots, hc.tables]

theorem holders_ne (hj : j ≠ k) : s'.holders j = s.holders j := by
  funext r
  unfold Files.holders
  rw [hc.pids]
  congr 1
  apply filter_congr
  intro q _
  by_cases hq : q = p
  · subst hq
    have hother : ∀ x : Option Role, x.map (k, ·) ≠ some (j, r) := by
      intro x hx
      obtain ⟨_, _, heq⟩ := map_eq_some_iff.mp hx
      exact hj (congrArg Prod.fst heq).symm
    simp only [hc.before, hc.after, hother]
  · rw [hc.holds hq]

theorem holders_self (hp : p ∈ s.pids) : s'.holders k + mark a = s.holders k + mark b := by
  funext r
  have hmark : ∀ x : Option Role, (x.map (k, ·) = some (k, r)) ↔ x = some r := by
    intro x
    cases x <;> simp
  have hcard := census.card_change
    (Q := fun q => s'.holds q = some (k, r)) hp fun q _ hq => by rw [hc.holds hq]
  simp only [hc.before, hc.after, hmark] at hcard
  simpa only [Pi.add_apply, mark_apply, Files.holders, hc.pids] using hcard

end Changes

/-- What a step on one slot has to show: the slot itself, and the count of the inode that it takes
up or gives up. -/
theorem Inv.changes {a b : Option Role} {h' : Option ℕ} (h : s.Inv held)
    (hc : Changes s s' p k a b) (hp : p ∈ s.pids) (hk : k ∈ s.slots)
    (hlog : Event.held s'.log = some (update held k h'))
    (hinode : ∀ n, s'.open_count n + (if held k = some n then 1 else 0) =
      s.open_count n + if h' = some n then 1 else 0)
    (hslot : ∀ c, c + mark a = s.holders k + mark b → SlotOk (s'.fd_array k) h' c)
    (halone : ∀ q ∈ s.pids, (s.place q).destroys → s.filesp q = k.1 → q = p)
    (hpassed : ∀ fd, s'.place p = .freeing fd .destroy → ∀ i < fd,
      (s'.fd_array (s.filesp p, i)).status = FD_NONE) :
    s'.Inv (update held k h') := by
  refine ⟨hlog, ?_, ?_, ?_, ?_, ?_, ?_, ?_, ?_⟩
  · intro j hj
    rw [hc.slots] at hj
    by_cases hjk : j = k
    · subst hjk
      rw [update_self]
      exact hslot _ (hc.holders_self hp)
    · rw [update_of_ne hjk, hc.fd_array j hjk, hc.holders_ne hjk]
      exact h.slot j hj
  · intro j n hj
    rw [hc.slots]
    by_cases hjk : j = k
    · rwa [hjk]
    · rw [update_of_ne hjk] at hj
      exact h.held_mem j n hj
  · intro q hq j r hj
    rw [hc.slots]
    rw [hc.pids] at hq
    by_cases hqp : q = p
    · subst hqp
      rw [hc.after] at hj
      obtain ⟨_, _, heq⟩ := map_eq_some_iff.mp hj
      cases heq
      exact hk
    · rw [hc.holds hqp] at hj
      exact h.holds_mem q hq j r hj
  · rw [hc.pids, hc.filesp, hc.tables]
    exact h.filesp_mem
  · intro t ht
    rw [hc.tables] at ht
    rw [hc.files_count, hc.pids, hc.filesp, h.count t ht]
    congr 1
    apply filter_congr
    intro q _
    by_cases hqp : q = p
    · rw [hqp, hc.destroys]
    · rw [hc.place q hqp]
  · intro n
    have hcard := census.card_change
      (Q := fun j => update held k h' j = some n) hk fun j _ hj => by
        rw [update_of_ne hj]
    have hn := hinode n
    have hold := h.inode n
    simp only [update_self] at hcard
    rw [hc.slots]
    omega
  · intro q hq hd r hr hrq
    rw [hc.pids] at hq hr
    rw [hc.filesp] at hrq
    refine h.alone q hq ?_ r hr hrq
    by_cases hqp : q = p
    · rw [hqp] at hd ⊢
      rwa [hc.destroys] at hd
    · rwa [hc.place q hqp] at hd
  · intro q hq fd hfd i hi
    rw [hc.pids] at hq
    rw [hc.filesp]
    by_cases hqp : q = p
    · subst hqp
      exact hpassed fd hfd i hi
    · rw [hc.place q hqp] at hfd
      -- a slot of a table that another process destroys does not change
      have hne : (s.filesp q, i) ≠ k := by
        rintro rfl
        exact hqp (halone q hq (by rw [hfd]; rfl) rfl)
      rw [hc.fd_array _ hne]
      exact h.passed q hq fd hfd i hi

end Files

end ucore
