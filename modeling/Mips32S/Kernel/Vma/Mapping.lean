import Mips32S.Kernel.Vma.Areas

open List BitVec

namespace ucore

/-- The states of one address space under any calls of `mm_map`, and of `find_vma`, which
moves the cache. -/
inductive AddressSpace : mm_struct → Prop where
  | create (pgdir : Option ℕ) : AddressSpace { mm_create with pgdir }
  | map {mm mm' : mm_struct} {addr len vm_flags : BitVec 32} {fresh : Bool} {ret : ℤ}
      (h : AddressSpace mm) (hstep : mm_map mm addr len vm_flags fresh = some (ret, mm')) :
      AddressSpace mm'
  | find {mm : mm_struct} (h : AddressSpace mm) (addr : BitVec 32) :
      AddressSpace (find_vma mm addr).2

section
variable (addr len : BitVec 32)

theorem toNat_ROUNDDOWN_2N : (ROUNDDOWN_2N addr PGSHIFT).toNat = addr.toNat / 4096 * 4096 := by
  rw [ROUNDDOWN_2N, PGSHIFT, toNat_shiftLeft, toNat_ushiftRight,
    Nat.shiftRight_eq_div_pow, Nat.shiftLeft_eq]
  omega

theorem toNat_ROUNDUP_2N :
    (ROUNDUP_2N addr PGSHIFT).toNat = (addr.toNat + 4095) % 2 ^ 32 / 4096 * 4096 := by
  have hsum : (addr + 1#32 <<< PGSHIFT - 1#32).toNat = (addr.toNat + 4095) % 2 ^ 32 := by
    rw [show (1#32 <<< PGSHIFT : BitVec 32) = 4096#32 from rfl]
    bv_omega
  rw [ROUNDUP_2N, toNat_ROUNDDOWN_2N, hsum]

/-- The sum of address and length wraps around to an address of the page of `addr`. -/
def WrapsIntoPage : Prop := 2 ^ 32 < len.toNat + addr.toNat % PGSIZE

instance : Decidable (WrapsIntoPage addr len) := inferInstanceAs (Decidable (_ < _))

end

/-- The interval that `mm_map` computes can be added. -/
structure Accepts (mm : mm_struct) (addr len : BitVec 32) (fresh : Bool) : Prop where
  user : USER_ACCESS (ROUNDDOWN_2N addr PGSHIFT) (ROUNDUP_2N (addr + len) PGSHIFT)
  free : ¬ mm.Overlaps (ROUNDDOWN_2N addr PGSHIFT) (ROUNDUP_2N (addr + len) PGSHIFT)
  fresh : fresh = true

/-- `mm'` is `mm` with the area `v` added. -/
def Adds (mm mm' : mm_struct) (v : vma_struct) : Prop :=
  ∃ before after, mm.mmap_list = before ++ after ∧ mm'.mmap_list = before ++ v :: after

variable {mm target mm' : mm_struct}

theorem create_spec (h : mm.Ordered) {start stop vm_flags : BitVec 32} (fresh : Bool)
    (hv : (⟨start, stop, vm_flags⟩ : vma_struct).Valid) (hover : ¬ mm.Overlaps start stop) :
    ∃ ret mm', mm_map.create vm_flags fresh mm start stop = some (ret, mm') ∧ mm'.Ordered ∧
      ((ret = 0 ∧ fresh = true ∧ Adds mm mm' ⟨start, stop, vm_flags⟩) ∨
        (ret ≠ 0 ∧ fresh = false ∧ mm'.mmap_list = mm.mmap_list)) := by
  cases fresh with
  | false => exact ⟨-E_NO_MEM, mm, rfl, h, .inr ⟨by decide, rfl, rfl⟩⟩
  | true =>
    obtain ⟨before, after, mm', hsplit, heq, hlist, hord⟩ := insert_vma_struct_spec h hv hover
    refine ⟨0, mm', ?_, hord, .inl ⟨rfl, rfl, before, after, hsplit, hlist⟩⟩
    simp [mm_map.create, heq]

theorem valid_of_user_access {addr len : BitVec 32} (vm_flags : BitVec 32)
    (h : USER_ACCESS (ROUNDDOWN_2N addr PGSHIFT) (ROUNDUP_2N (addr + len) PGSHIFT)) :
    (⟨ROUNDDOWN_2N addr PGSHIFT, ROUNDUP_2N (addr + len) PGSHIFT, vm_flags⟩ :
      vma_struct).Valid where
  user := h
  start_aligned := by
    change (ROUNDDOWN_2N addr PGSHIFT).toNat % 4096 = 0
    rw [toNat_ROUNDDOWN_2N]
    omega
  end_aligned := by
    change (ROUNDUP_2N (addr + len) PGSHIFT).toNat % 4096 = 0
    rw [toNat_ROUNDUP_2N]
    omega

/-- A call of `mm_map` adds the interval it computes, or fails and leaves the list alone. -/
theorem mm_map_cases (h : mm.Ordered) (addr len vm_flags : BitVec 32) (fresh : Bool) :
    ∃ ret mm', mm_map mm addr len vm_flags fresh = some (ret, mm') ∧ mm'.Ordered ∧
      ((ret = 0 ∧ Accepts mm addr len fresh ∧ Adds mm mm'
          ⟨ROUNDDOWN_2N addr PGSHIFT, ROUNDUP_2N (addr + len) PGSHIFT, vm_flags⟩) ∨
        (ret ≠ 0 ∧ ¬ Accepts mm addr len fresh ∧ mm'.mmap_list = mm.mmap_list)) := by
  unfold mm_map
  by_cases huser : USER_ACCESS (ROUNDDOWN_2N addr PGSHIFT) (ROUNDUP_2N (addr + len) PGSHIFT)
  swap
  · simp only [huser, if_false]
    exact ⟨-E_INVAL, mm, rfl, h, .inr ⟨by decide, fun hacc => huser hacc.user, rfl⟩⟩
  simp only [huser, if_true]
  have hvalid := valid_of_user_access vm_flags huser
  have hover := overlaps_iff h (ROUNDDOWN_2N addr PGSHIFT) (ROUNDUP_2N (addr + len) PGSHIFT)
  obtain ⟨hlist, hord⟩ := find_vma_ordered h (ROUNDDOWN_2N addr PGSHIFT)
  rw [← find_vma_eq h] at hover
  generalize find_vma mm (ROUNDDOWN_2N addr PGSHIFT) = found at hlist hord hover
  obtain ⟨vma, mm1⟩ := found
  have hcreate : ¬ mm.Overlaps (ROUNDDOWN_2N addr PGSHIFT) (ROUNDUP_2N (addr + len) PGSHIFT) →
      ∃ ret mm', mm_map.create vm_flags fresh mm1 (ROUNDDOWN_2N addr PGSHIFT)
        (ROUNDUP_2N (addr + len) PGSHIFT) = some (ret, mm') ∧ mm'.Ordered ∧
      ((ret = 0 ∧ Accepts mm addr len fresh ∧ Adds mm mm'
          ⟨ROUNDDOWN_2N addr PGSHIFT, ROUNDUP_2N (addr + len) PGSHIFT, vm_flags⟩) ∨
        (ret ≠ 0 ∧ ¬ Accepts mm addr len fresh ∧ mm'.mmap_list = mm.mmap_list)) := by
    intro hnot
    have hnot1 : ¬ mm1.Overlaps (ROUNDDOWN_2N addr PGSHIFT) (ROUNDUP_2N (addr + len) PGSHIFT) := by
      rwa [mm_struct.Overlaps, hlist]
    obtain ⟨ret, mm', heq, hord', hcase⟩ := create_spec hord fresh hvalid hnot1
    refine ⟨ret, mm', heq, hord', ?_⟩
    rcases hcase with ⟨hret, hfresh, hadds⟩ | ⟨hret, hfresh, hsame⟩
    · rw [Adds, hlist] at hadds
      exact .inl ⟨hret, ⟨huser, hnot, hfresh⟩, hadds⟩
    · refine .inr ⟨hret, fun hacc => ?_, hsame.trans hlist⟩
      rw [hacc.fresh] at hfresh
      cases hfresh
  cases vma with
  | none => exact hcreate fun ho => by simpa using hover.mp ho
  | some v =>
    by_cases hv : v.vm_start < ROUNDUP_2N (addr + len) PGSHIFT
    · simp only [hv, if_true]
      exact ⟨-E_INVAL, mm1, rfl, hord, .inr ⟨by decide,
        fun hacc => hacc.free (hover.mpr ⟨v, rfl, hv⟩), hlist⟩⟩
    · simp only [hv, if_false]
      refine hcreate fun ho => ?_
      obtain ⟨w, hw, hlt⟩ := hover.mp ho
      cases hw
      exact hv hlt

theorem AddressSpace.ordered (h : AddressSpace mm) : mm.Ordered := by
  induction h with
  | create pgdir => exact ⟨by simp [mm_create], by simp [mm_create], by simp [mm_create], rfl⟩
  | map h hstep ih =>
    obtain ⟨ret, mm', heq, hord, -⟩ := mm_map_cases ih _ _ _ _
    rw [heq] at hstep
    cases hstep
    exact hord
  | find h addr ih => exact (find_vma_ordered ih addr).2

/-- The areas of the target of `dup_mmap` are the last areas of the source. -/
theorem dupAreas_spec (fresh copied : vma_struct → Bool) {rest : List vma_struct}
    (h : target.Ordered)
    (hsorted : (rest.reverse ++ target.mmap_list).Pairwise fun v w => v.vm_end ≤ w.vm_start)
    (hvalid : ∀ v ∈ rest, v.Valid) :
    ∃ ret mm', dupAreas fresh copied target rest = some (ret, mm') ∧ mm'.Ordered ∧
      (ret = 0 → mm'.mmap_list = rest.reverse ++ target.mmap_list) := by
  induction rest generalizing target with
  | nil => exact ⟨0, target, rfl, h, fun _ => rfl⟩
  | cons v rest ih =>
    have hv := hvalid v (by simp)
    rw [reverse_cons, List.append_assoc, singleton_append] at hsorted
    have hgt : ∀ w ∈ target.mmap_list, v.vm_end ≤ w.vm_start := by
      have htail := (pairwise_append.mp hsorted).2.1
      exact (pairwise_cons.mp htail).1
    by_cases hfresh : fresh v = true
    swap
    · exact ⟨-E_NO_MEM, target, by simp [dupAreas, hfresh], h, by simp [E_NO_MEM]⟩
    have hover : ¬ target.Overlaps v.vm_start v.vm_end := by
      rintro ⟨w, hw, hlt, -⟩
      have := hgt w hw
      bv_omega
    obtain ⟨before, after, mm1, hsplit, heq, hlist, hord⟩ := insert_vma_struct_spec h hv hover
    have hnil : before = [] := by
      by_contra hne
      obtain ⟨w, hw⟩ := exists_mem_of_ne_nil before hne
      have hle := hord.sorted
      rw [hlist, pairwise_append] at hle
      have hwv := hle.2.2 w hw v (by simp)
      have hvw := hgt w (by rw [hsplit]; exact mem_append_left _ hw)
      have hlt := hv.lt
      have hlt' := (h.valid w (by rw [hsplit]; exact mem_append_left _ hw)).lt
      bv_omega
    subst hnil
    rw [nil_append] at hsplit hlist
    by_cases hcopied : copied v = true
    swap
    · exact ⟨-E_NO_MEM, mm1, by simp [dupAreas, hfresh, heq, hcopied], hord, by simp [E_NO_MEM]⟩
    obtain ⟨ret, mm', hdup, hord', hlist'⟩ := ih hord (by rwa [hlist, ← hsplit])
      fun w hw => hvalid w (by simp [hw])
    refine ⟨ret, mm', by simp [dupAreas, hfresh, heq, hcopied, hdup], hord', fun hret => ?_⟩
    rw [hlist' hret, hlist, ← hsplit]
    simp

/-- The requested interval, rounded outwards to whole pages, as numbers. -/
def requested (addr len : BitVec 32) (v : vma_struct) : Prop :=
  v.vm_start.toNat = addr.toNat / PGSIZE * PGSIZE ∧
    v.vm_end.toNat = (addr.toNat + len.toNat + (PGSIZE - 1)) / PGSIZE * PGSIZE

/-- A call of `mm_map` fails no assertion, and adds exactly the requested interval with its
flags or returns an error and leaves the list unchanged. -/
def MapsExactly (mm : mm_struct) (addr len vm_flags : BitVec 32) (fresh : Bool) : Prop :=
  ∃ ret mm', mm_map mm addr len vm_flags fresh = some (ret, mm') ∧
    ((ret = 0 ∧ ∃ v, requested addr len v ∧ v.vm_flags = vm_flags ∧ Adds mm mm' v) ∨
      (ret ≠ 0 ∧ mm'.mmap_list = mm.mmap_list))

/-- The page of `addr` could be added as an area of its own. -/
def PageAvailable (mm : mm_struct) (addr : BitVec 32) (fresh : Bool) : Prop :=
  USERBASE ≤ addr ∧ addr < USERTOP ∧ fresh = true ∧
    ∀ v ∈ mm.mmap_list, ¬ (v.vm_start ≤ addr ∧ addr < v.vm_end)

section
variable {addr len : BitVec 32}

theorem toNat_stop (addr len : BitVec 32) : (ROUNDUP_2N (addr + len) PGSHIFT).toNat =
    ((addr.toNat + len.toNat) % 2 ^ 32 + 4095) % 2 ^ 32 / 4096 * 4096 := by
  rw [toNat_ROUNDUP_2N, toNat_add]

theorem stop_of_wraps (h : WrapsIntoPage addr len) :
    (ROUNDUP_2N (addr + len) PGSHIFT).toNat =
      ((ROUNDDOWN_2N addr PGSHIFT).toNat + 4096) % 2 ^ 32 := by
  have hlt := len.isLt
  have hlt' := addr.isLt
  have hwrap : 2 ^ 32 < len.toNat + addr.toNat % 4096 := h
  rw [toNat_stop, toNat_ROUNDDOWN_2N]
  omega

theorem requested_of_not_wraps
    (huser : USER_ACCESS (ROUNDDOWN_2N addr PGSHIFT) (ROUNDUP_2N (addr + len) PGSHIFT))
    (h : ¬ WrapsIntoPage addr len) (vm_flags : BitVec 32) :
    requested addr len
      ⟨ROUNDDOWN_2N addr PGSHIFT, ROUNDUP_2N (addr + len) PGSHIFT, vm_flags⟩ := by
  have hlt := len.isLt
  have hlt' := addr.isLt
  have hwrap : ¬ 2 ^ 32 < len.toNat + addr.toNat % 4096 := h
  have horder := lt_def.mp huser.2.1
  rw [toNat_stop, toNat_ROUNDDOWN_2N] at horder
  refine ⟨toNat_ROUNDDOWN_2N addr, ?_⟩
  change (ROUNDUP_2N (addr + len) PGSHIFT).toNat = (addr.toNat + len.toNat + 4095) / 4096 * 4096
  rw [toNat_stop]
  omega

theorem not_requested_of_wraps (h : WrapsIntoPage addr len) (vm_flags : BitVec 32) :
    ¬ requested addr len
      ⟨ROUNDDOWN_2N addr PGSHIFT, ROUNDUP_2N (addr + len) PGSHIFT, vm_flags⟩ := by
  rintro ⟨-, hend⟩
  have hstop : (ROUNDUP_2N (addr + len) PGSHIFT).toNat =
    (addr.toNat + len.toNat + 4095) / 4096 * 4096 := hend
  have hlt := (ROUNDUP_2N (addr + len) PGSHIFT).isLt
  have hwrap : 2 ^ 32 < len.toNat + addr.toNat % 4096 := h
  omega

theorem accepts_iff_of_wraps (h : mm.Ordered) (hwrap : WrapsIntoPage addr len) (fresh : Bool) :
    Accepts mm addr len fresh ↔ PageAvailable mm addr fresh := by
  have hstart := toNat_ROUNDDOWN_2N addr
  have hstop := stop_of_wraps hwrap
  have hlt' := addr.isLt
  have hcontains : ∀ v ∈ mm.mmap_list,
      (v.vm_start < ROUNDUP_2N (addr + len) PGSHIFT ∧ ROUNDDOWN_2N addr PGSHIFT < v.vm_end) ↔
        (v.vm_start ≤ addr ∧ addr < v.vm_end) := by
    intro v hv
    have hs : v.vm_start.toNat % 4096 = 0 := (h.valid v hv).start_aligned
    have he : v.vm_end.toNat % 4096 = 0 := (h.valid v hv).end_aligned
    rw [lt_def, lt_def, le_def, lt_def]
    omega
  have huser : USER_ACCESS (ROUNDDOWN_2N addr PGSHIFT) (ROUNDUP_2N (addr + len) PGSHIFT) ↔
      USERBASE ≤ addr ∧ addr < USERTOP := by
    have hbase : USERBASE.toNat = 0x10000000 := rfl
    have htop : USERTOP.toNat = 0x80000000 := rfl
    rw [USER_ACCESS, le_def, lt_def, le_def, le_def, lt_def]
    omega
  constructor
  · rintro ⟨hu, hfree, hfresh⟩
    refine ⟨(huser.mp hu).1, (huser.mp hu).2, hfresh, fun v hv hin => hfree ?_⟩
    exact ⟨v, hv, (hcontains v hv).mpr hin⟩
  · rintro ⟨hlo, hhi, hfresh, hnot⟩
    refine ⟨huser.mpr ⟨hlo, hhi⟩, ?_, hfresh⟩
    rintro ⟨v, hv, hin⟩
    exact hnot v hv ((hcontains v hv).mp hin)

end

theorem Adds.unique {v w : vma_struct} (hv : Adds mm mm' v) (hw : Adds mm mm' w) : v = w := by
  obtain ⟨before, after, hsplit, hlist⟩ := hv
  obtain ⟨before', after', hsplit', hlist'⟩ := hw
  have hperm : (v :: (before ++ after)).Perm (w :: (before' ++ after')) :=
    (perm_middle.symm.trans (hlist ▸ hlist' ▸ Perm.refl _)).trans perm_middle
  rw [← hsplit, ← hsplit'] at hperm
  have hcount := hperm.count_eq v
  by_contra hne
  rw [count_cons_self, count_cons_of_ne (Ne.symm hne)] at hcount
  omega

/-- Over any calls on one address space the areas stay ordered, and so are those of any copy
of it; a call adds exactly what was requested or changes nothing, unless the sum of address
and length wraps around into a page that is available. -/
theorem mm_map_areas (h : AddressSpace mm) :
    mm.Ordered ∧
    (∀ fresh copied pgdir, ∃ ret mm',
      dup_mmap fresh copied { mm_create with pgdir } mm = some (ret, mm') ∧ mm'.Ordered ∧
      (ret = 0 → mm'.mmap_list = mm.mmap_list)) ∧
    ∀ addr len vm_flags fresh, MapsExactly mm addr len vm_flags fresh ↔
      ¬ (WrapsIntoPage addr len ∧ PageAvailable mm addr fresh) := by
  have hord := h.ordered
  refine ⟨hord, fun fresh copied pgdir => ?_, fun addr len vm_flags fresh => ?_⟩
  · have hempty : ({ mm_create with pgdir } : mm_struct).Ordered :=
      (AddressSpace.create pgdir).ordered
    have hsorted : (mm.mmap_list.reverse.reverse ++ []).Pairwise
        fun (v w : vma_struct) => v.vm_end ≤ w.vm_start := by
      simpa using hord.sorted
    obtain ⟨ret, mm', heq, hord', hlist⟩ := dupAreas_spec fresh copied hempty hsorted
      (by simpa using hord.valid)
    exact ⟨ret, mm', heq, hord', fun hret => by simpa [mm_create] using hlist hret⟩
  · obtain ⟨ret, mm', heq, -, hcase⟩ := mm_map_cases hord addr len vm_flags fresh
    rcases hcase with ⟨rfl, hacc, hadds⟩ | ⟨hret, hacc, hsame⟩
    · constructor
      · rintro ⟨ret, mm'', heq', hres⟩ ⟨hwrap, -⟩
        rw [heq] at heq'
        cases heq'
        rcases hres with ⟨-, v, hreq, -, hadds'⟩ | ⟨hne, -⟩
        · obtain rfl := hadds.unique hadds'
          exact not_requested_of_wraps hwrap vm_flags hreq
        · exact hne rfl
      · intro hno
        have hwrap : ¬ WrapsIntoPage addr len := fun hwrap =>
          hno ⟨hwrap, (accepts_iff_of_wraps hord hwrap fresh).mp hacc⟩
        have hreq := requested_of_not_wraps hacc.user hwrap vm_flags
        exact ⟨0, mm', heq, .inl ⟨rfl, _, hreq, rfl, hadds⟩⟩
    · constructor
      · rintro - ⟨hwrap, havail⟩
        exact hacc ((accepts_iff_of_wraps hord hwrap fresh).mpr havail)
      · intro _
        exact ⟨ret, mm', heq, .inr ⟨hret, hsame⟩⟩

/-- A request from the middle of a page fills the gap between two areas, and one for their last
page is refused. -/
theorem mm_map_areas_gap : ∃ mm, AddressSpace mm ∧
    mm.mmap_list = [⟨0x20000000#32, 0x20001000#32, 0#32⟩, ⟨0x20003000#32, 0x20004000#32, 0#32⟩] ∧
    MapsExactly mm 0x20001800#32 0x1000#32 0#32 true ∧
    (mm_map mm 0x20001800#32 0x1000#32 0#32 true).map (fun r => (r.1, r.2.mmap_list)) =
      some (0, [⟨0x20000000#32, 0x20001000#32, 0#32⟩, ⟨0x20001000#32, 0x20003000#32, 0#32⟩,
        ⟨0x20003000#32, 0x20004000#32, 0#32⟩]) ∧
    MapsExactly mm 0x20003000#32 0x1000#32 0#32 true ∧
    (mm_map mm 0x20003000#32 0x1000#32 0#32 true).map (·.1) = some (-E_INVAL) := by
  have hfirst : mm_map mm_create 0x20000000#32 0x1000#32 0#32 true =
      some (0, ⟨[⟨0x20000000#32, 0x20001000#32, 0#32⟩], none, none, 1⟩) := by decide
  have hsecond : mm_map ⟨[⟨0x20000000#32, 0x20001000#32, 0#32⟩], none, none, 1⟩ 0x20003000#32
      0x1000#32 0#32 true = some (0, ⟨[⟨0x20000000#32, 0x20001000#32, 0#32⟩,
        ⟨0x20003000#32, 0x20004000#32, 0#32⟩], none, none, 2⟩) := by decide
  have hspace := ((AddressSpace.create none).map hfirst).map hsecond
  have hexact := (mm_map_areas hspace).2.2
  exact ⟨_, hspace, rfl, (hexact _ _ _ _).mpr fun h => absurd h.1 (by decide), by decide,
    (hexact _ _ _ _).mpr fun h => absurd h.1 (by decide), by decide⟩

/-- A request for all but one byte of the 32-bit address space, from the middle of a page, is
granted with the one page. -/
theorem mm_map_wraps : AddressSpace mm_create ∧
    mm_map mm_create 0x20000800#32 0xffffffff#32 0#32 true =
      some (0, ⟨[⟨0x20000000#32, 0x20001000#32, 0#32⟩], none, none, 1⟩) ∧
    ¬ MapsExactly mm_create 0x20000800#32 0xffffffff#32 0#32 true := by
  have hmap : mm_map mm_create 0x20000800#32 0xffffffff#32 0#32 true =
      some (0, ⟨[⟨0x20000000#32, 0x20001000#32, 0#32⟩], none, none, 1⟩) := by decide
  refine ⟨AddressSpace.create none, hmap, ?_⟩
  rintro ⟨ret, mm', heq, hres⟩
  cases heq
  rcases hres with ⟨-, v, hreq, -, before, after, hsplit, hlist⟩ | ⟨hne, -⟩
  · have hnil : before = [] ∧ after = [] := append_eq_nil_iff.mp hsplit.symm
    rw [hnil.1, hnil.2] at hlist
    cases hlist
    exact absurd hreq.2 (by decide)
  · exact hne rfl

end ucore
