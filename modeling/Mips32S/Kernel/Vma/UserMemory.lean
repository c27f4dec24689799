import Mips32S.Kernel.Paging.Pte
import Mips32S.Kernel.Vma.Areas

open List BitVec

namespace ucore

/-- `kmemsize` is the size of the physical memory. -/
def KERN_ACCESS (kmemsize start stop : BitVec 32) : Prop :=
  KERNBASE ≤ start ∧ start < stop ∧ stop ≤ KERNBASE + kmemsize

instance (kmemsize start stop : BitVec 32) : Decidable (KERN_ACCESS kmemsize start stop) :=
  inferInstanceAs (Decidable (_ ∧ _))

/-- The flag that an area needs for an access. -/
def accessFlag (write : Bool) : BitVec 32 := if write then VM_WRITE else VM_READ

/-- The loop of `user_mem_check`; `none` when the fuel is used up. -/
def user_mem_check.loop (write : Bool) (stop : BitVec 32) :
    ℕ → BitVec 32 → mm_struct → Option (Bool × mm_struct)
  | 0, _, _ => none
  | fuel + 1, start, mm =>
    if start < stop then
      match find_vma mm start with
      | (none, mm) => some (false, mm)
      | (some vma, mm) =>
        if start < vma.vm_start then some (false, mm)
        else if vma.vm_flags &&& accessFlag write = 0#32 then some (false, mm)
        else if write ∧ vma.vm_flags &&& VM_STACK ≠ 0#32 ∧
            start < vma.vm_start + BitVec.ofNat 32 PGSIZE then some (false, mm)
        else user_mem_check.loop write stop fuel vma.vm_end mm
    else some (true, mm)

/-- Every round of the loop ends behind the byte it starts with, so there are at most as many
rounds as bytes. -/
def user_mem_check (kmemsize : BitVec 32) (mm : Option mm_struct) (addr len : BitVec 32)
    (write : Bool) : Option (Bool × Option mm_struct) :=
  match mm with
  | some mm =>
    if USER_ACCESS addr (addr + len) then
      (user_mem_check.loop write (addr + len) (len.toNat + 1) addr mm).map fun r => (r.1, some r.2)
    else some (false, some mm)
  | none => some (decide (KERN_ACCESS kmemsize addr (addr + len)), none)

def vma_struct.Contains (v : vma_struct) (a : ℕ) : Prop :=
  v.vm_start.toNat ≤ a ∧ a < v.vm_end.toNat

/-- A byte lies in an area with the flag for the access and, for a write, outside the lowest page
of a stack. -/
def mm_struct.Allows (mm : mm_struct) (write : Bool) (a : ℕ) : Prop :=
  (∃ v ∈ mm.mmap_list, v.Contains a ∧ v.vm_flags &&& accessFlag write ≠ 0#32) ∧
    (write = true → ∀ v ∈ mm.mmap_list, v.vm_flags &&& VM_STACK ≠ 0#32 → v.Contains a →
      v.vm_start.toNat + PGSIZE ≤ a)

variable {mm : mm_struct} {v w : vma_struct} {start stop : BitVec 32} {a fuel : ℕ} {write : Bool}

namespace mm_struct.Searchable

variable (h : mm.Searchable)
include h

theorem contains_unique (hv : v ∈ mm.mmap_list) (hw : w ∈ mm.mmap_list) (hva : v.Contains a)
    (hwa : w.Contains a) : v = w := by
  have hsome : ∀ u ∈ mm.mmap_list, u.Contains a →
      mm.mmap_list.find? (BitVec.ofNat 32 a < ·.vm_end) = some u := by
    intro u hu hua
    have hlt := u.vm_end.isLt
    obtain ⟨hlo, hhi⟩ := hua
    exact pairwise_find? h.sorted hu (by bv_omega) (by bv_omega)
  exact Option.some.inj ((hsome v hv hva).symm.trans (hsome w hw hwa))

theorem contains_iff_find (start : BitVec 32) (hw : w ∈ mm.mmap_list) :
    w.Contains start.toNat ↔ (find_vma mm start).1 = some w ∧ w.vm_start ≤ start := by
  rw [h.find_vma_eq]
  constructor
  · rintro ⟨hlo, hhi⟩
    have hle : w.vm_start ≤ start := le_def.mpr hlo
    exact ⟨pairwise_find? h.sorted hw hle (lt_def.mpr hhi), hle⟩
  · rintro ⟨hfind, hle⟩
    have hlt : start < w.vm_end := by simpa using find?_some hfind
    exact ⟨le_def.mp hle, lt_def.mp hlt⟩

theorem allows_area (hv : v ∈ mm.mmap_list) (hflag : v.vm_flags &&& accessFlag write ≠ 0#32)
    (hlo : v.vm_start ≤ start) (htop : start < USERTOP)
    (hstack : ¬(write = true ∧ v.vm_flags &&& VM_STACK ≠ 0#32 ∧
      start < v.vm_start + BitVec.ofNat 32 PGSIZE))
    (ha : start.toNat ≤ a) (hend : a < v.vm_end.toNat) : mm.Allows write a := by
  have hlo := le_def.mp hlo
  have hva : v.Contains a := ⟨hlo.trans ha, hend⟩
  refine ⟨⟨v, hv, hva, hflag⟩, ?_⟩
  intro hwrite w hw hws hwa
  obtain rfl := h.contains_unique hv hw hva hwa
  by_contra hlow
  refine hstack ⟨hwrite, hws, lt_def.mpr ?_⟩
  have htop : start.toNat < 0x80000000 := lt_def.mp htop
  have hsum : (v.vm_start + BitVec.ofNat 32 PGSIZE).toNat = v.vm_start.toNat + 4096 := by
    rw [toNat_add]
    change (v.vm_start.toNat + 4096) % 2 ^ 32 = _
    omega
  have hpage : PGSIZE = 4096 := rfl
  omega

theorem loop_spec (write : Bool) (start : BitVec 32) (htop : stop ≤ USERTOP)
    (hfuel : stop.toNat - start.toNat < fuel) :
    ∃ ok mm', user_mem_check.loop write stop fuel start mm = some (ok, mm') ∧ mm'.Searchable ∧
      mm'.mmap_list = mm.mmap_list ∧
      (ok = true ↔ ∀ a, start.toNat ≤ a → a < stop.toNat → mm.Allows write a) := by
  induction fuel generalizing start mm with
  | zero => omega
  | succ fuel ih =>
    rw [user_mem_check.loop]
    by_cases hlt : start < stop
    swap
    · rw [if_neg hlt]
      refine ⟨true, mm, rfl, h, rfl, iff_of_true rfl ?_⟩
      intro a hlo hhi
      exact absurd (lt_def.mpr (hlo.trans_lt hhi)) hlt
    have hltn := lt_def.mp hlt
    -- a byte that is not allowed decides the whole range
    have hfail : ∀ mm' : mm_struct, mm'.Searchable → mm'.mmap_list = mm.mmap_list →
        ¬ mm.Allows write start.toNat →
        ∃ ok mm'', some (false, mm') = some (ok, mm'') ∧ mm''.Searchable ∧
          mm''.mmap_list = mm.mmap_list ∧
          (ok = true ↔ ∀ a, start.toNat ≤ a → a < stop.toNat → mm.Allows write a) := by
      intro mm' h' hlist hnot
      refine ⟨false, mm', rfl, h', hlist, iff_of_false Bool.false_ne_true ?_⟩
      exact fun hall => hnot (hall _ le_rfl hltn)
    have hsearch := h.find_vma_searchable start
    have hlist : (find_vma mm start).2.mmap_list = mm.mmap_list := rfl
    have hcontains := fun w hw => h.contains_iff_find (w := w) start hw
    rw [if_pos hlt]
    rcases hfind : find_vma mm start with ⟨_ | v, mm1⟩
    all_goals
      rw [hfind] at hsearch hlist hcontains
      simp only at hsearch hlist hcontains ⊢
    · apply hfail mm1 hsearch hlist
      rintro ⟨⟨w, hw, hwa, -⟩, -⟩
      cases ((hcontains w hw).mp hwa).1
    have hmem : v ∈ mm.mmap_list := by
      apply mem_of_find?_eq_some
      rw [← h.find_vma_eq start, hfind]
    split_ifs with hbelow hflag hstack
    · apply hfail mm1 hsearch hlist
      rintro ⟨⟨w, hw, hwa, -⟩, -⟩
      obtain ⟨heq, hle⟩ := (hcontains w hw).mp hwa
      cases heq
      bv_omega
    · apply hfail mm1 hsearch hlist
      rintro ⟨⟨w, hw, hwa, hwf⟩, -⟩
      cases ((hcontains w hw).mp hwa).1
      exact hwf hflag
    · apply hfail mm1 hsearch hlist
      rintro ⟨-, hlow⟩
      have hva := (hcontains v hmem).mpr ⟨rfl, by bv_omega⟩
      have hle := hlow hstack.1 v hmem hstack.2.1 hva
      have hlt' := lt_def.mp hstack.2.2
      rw [toNat_add] at hlt'
      have hpage : (BitVec.ofNat 32 PGSIZE).toNat = PGSIZE := rfl
      have hmod := Nat.mod_le (v.vm_start.toNat + PGSIZE) (2 ^ 32)
      omega
    · have hle : v.vm_start ≤ start := by bv_omega
      have hva := (hcontains v hmem).mpr ⟨rfl, hle⟩
      have hend := hva.2
      obtain ⟨ok, mm', hloop, h', hlist', hok⟩ := ih hsearch v.vm_end (by omega)
      refine ⟨ok, mm', hloop, h', hlist'.trans hlist, hok.trans ?_⟩
      have hallow : ∀ b, mm1.Allows write b ↔ mm.Allows write b := by
        intro b
        rw [mm_struct.Allows, mm_struct.Allows, hlist]
      simp only [hallow]
      constructor
      · intro hrest b hlo hhi
        by_cases hb : b < v.vm_end.toNat
        · exact h.allows_area hmem hflag hle (by bv_omega) hstack hlo hb
        · exact hrest b (by omega) hhi
      · intro hall b hlo hhi
        exact hall b (by omega) hhi

end mm_struct.Searchable

/-- The range is not empty, does not wrap around and lies in user space, and every byte of it is
allowed. -/
structure mm_struct.AllowsRange (mm : mm_struct) (addr len : BitVec 32) (write : Bool) : Prop where
  nonempty : 0 < len.toNat
  base : USERBASE.toNat ≤ addr.toNat
  top : addr.toNat + len.toNat ≤ USERTOP.toNat
  bytes : ∀ a, addr.toNat ≤ a → a < addr.toNat + len.toNat → mm.Allows write a

theorem user_access_iff (addr len : BitVec 32) : USER_ACCESS addr (addr + len) ↔
    0 < len.toNat ∧ USERBASE.toNat ≤ addr.toNat ∧ addr.toNat + len.toNat ≤ USERTOP.toNat := by
  have hlen := len.isLt
  have haddr := addr.isLt
  have hbase : USERBASE.toNat = 0x10000000 := rfl
  have htop : USERTOP.toNat = 0x80000000 := rfl
  rw [USER_ACCESS, le_def, lt_def, le_def, toNat_add]
  omega

theorem mm_struct.Searchable.check_spec (h : mm.Searchable) (kmemsize addr len : BitVec 32)
    (write : Bool) :
    ∃ ok mm', user_mem_check kmemsize (some mm) addr len write = some (ok, some mm') ∧
      mm'.Searchable ∧ mm'.mmap_list = mm.mmap_list ∧
      (ok = true ↔ mm.AllowsRange addr len write) := by
  rw [user_mem_check]
  by_cases huser : USER_ACCESS addr (addr + len)
  · obtain ⟨hpos, hbase, htop⟩ := (user_access_iff addr len).mp huser
    have hsum : (addr + len).toNat = addr.toNat + len.toNat := by
      have : USERTOP.toNat = 0x80000000 := rfl
      rw [toNat_add]
      omega
    obtain ⟨ok, mm', hloop, h', hlist, hok⟩ := h.loop_spec write addr huser.2.2
      (show (addr + len).toNat - addr.toNat < len.toNat + 1 by omega)
    rw [if_pos huser, hloop]
    refine ⟨ok, mm', rfl, h', hlist, hok.trans ?_⟩
    rw [hsum]
    exact ⟨fun hall => ⟨hpos, hbase, htop, hall⟩, fun hrange => hrange.bytes⟩
  · rw [if_neg huser]
    refine ⟨false, mm, rfl, h, rfl, iff_of_false Bool.false_ne_true ?_⟩
    intro hrange
    exact huser ((user_access_iff addr len).mpr ⟨hrange.nonempty, hrange.base, hrange.top⟩)

/-- The check of a range returns, and says yes exactly when every byte of it is allowed. -/
theorem user_mem_check_exact (h : mm.Searchable) (kmemsize addr len : BitVec 32) (write : Bool) :
    ∃ ok mm', user_mem_check kmemsize (some mm) addr len write = some (ok, some mm') ∧
      mm'.Searchable ∧ mm'.mmap_list = mm.mmap_list ∧
      (ok = true ↔ mm.AllowsRange addr len write) :=
  h.check_spec kmemsize addr len write

/-- A stack behind a heap. -/
def heapAndStack : mm_struct :=
  ⟨[⟨0x20000000#32, 0x20001000#32, VM_WRITE⟩,
    ⟨0x20001000#32, 0x20004000#32, VM_WRITE ||| VM_STACK⟩], none, none, 2⟩

/-- The upper pages of the stack may be written, a range over the boundary may not. -/
theorem user_mem_check_exact_stack : heapAndStack.Searchable ∧
    heapAndStack.AllowsRange 0x20002000#32 0x2000#32 true ∧
      ¬ heapAndStack.AllowsRange 0x20000ff0#32 0x2000#32 true := by
  have h : heapAndStack.Searchable := ⟨by decide, by simp [heapAndStack]⟩
  refine ⟨h, ?_, ?_⟩
  · obtain ⟨ok, mm', hcheck, -, -, hok⟩ :=
      user_mem_check_exact h 0x2000000#32 0x20002000#32 0x2000#32 true
    have heval : (user_mem_check 0x2000000#32 heapAndStack 0x20002000#32 0x2000#32 true).map
        Prod.fst = some true := by decide
    rw [hcheck] at heval
    exact hok.mp (Option.some.inj heval)
  · obtain ⟨ok, mm', hcheck, -, -, hok⟩ :=
      user_mem_check_exact h 0x2000000#32 0x20000ff0#32 0x2000#32 true
    have heval : (user_mem_check 0x2000000#32 heapAndStack 0x20000ff0#32 0x2000#32 true).map
        Prod.fst = some false := by decide
    rw [hcheck] at heval
    intro hrange
    rw [hok.mpr hrange] at heval
    cases heval

end ucore
