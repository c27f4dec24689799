import Mips32S.Kernel.Files.Using

open Function Option Finset

namespace ucore

open fd_status

theorem SlotOk.of_zero {f : file} {h : Option ℕ} {c : Role → ℕ} (hok : SlotOk f h c) (hc : c = 0) :
    f.status = FD_NONE ∨
      ∃ n, f.status = FD_OPENED ∧ f.node = some n ∧ h = some n ∧ f.open_count = 1 := by
  subst hc
  cases hok with
  | free hs => exact .inl hs
  | init _ _ hc => exact absurd hc.symm (Pi.single_ne_zero_iff.mpr one_ne_zero)
  | opened n u hs hnode hh hn hc =>
    have hu : u = 0 := Pi.single_eq_zero_iff.mp hc.symm
    subst hu
    exact .inr ⟨n, hs, hnode, hh, hn⟩
  | closed _ u _ _ _ _ hc => exact absurd hc.symm (Pi.single_ne_zero_iff.mpr u.succ_ne_zero)
  | freeing _ _ _ hc => exact absurd hc.symm (Pi.single_ne_zero_iff.mpr one_ne_zero)

namespace Files

variable {s s' : Files} {held : FileSlot → Option ℕ} {p fd i : ℕ} {k : FileSlot} {f : file}
  {n u : ℕ}

theorem Inv.closes_slot (h : s.Inv held) (hp : p ∈ s.pids) (hfd : fd < FILES_STRUCT_NENTRY)
    (hc : (s.place p).claim = none) (hs : (s.fd_array (s.filesp p, fd)).status = FD_OPENED) :
    (∃ s1, s.fd_array_close (s.filesp p, fd) = some (true, s1) ∧
      ∀ l, l.claim = some (fd, .freer) → s.Steady p fd l → ∃ held', (s1.goto p l).Inv held') ∨
    s.holders (s.filesp p, fd) ≠ 0 ∧ ∃ f1, s.fd_array_close (s.filesp p, fd) =
      some (false, s.set (s.filesp p, fd) f1) ∧ (s.set (s.filesp p, fd) f1).Inv held := by
  obtain ⟨n, u, hnode, hheld, hn, hholders⟩ := (h.slot _ (h.slot_mem hp hfd)).of_opened hs
  have hclose : s.fd_array_close (s.filesp p, fd) = _ := if_pos hs
  rw [hclose]
  obtain hlast | ⟨hu, f1, hdrop, hinv⟩ := h.drops
    (f := { s.fd_array (s.filesp p, fd) with status := FD_CLOSED }) (a := none) hp hfd hc rfl hnode
    hheld hn hholders
  · exact .inl hlast
  · refine .inr ⟨?_, f1, hdrop, ?_⟩
    · rw [hholders]
      exact Pi.single_ne_zero_iff.mpr hu
    · have hsteady : s.Steady p fd (s.place p) := by
        refine ⟨rfl, ?_⟩
        intro i hi
        rw [hi] at hc
        cases hc
      have hinv := hinv (s.place p) s.ret hc hsteady
      rwa [update_eq_self] at hinv

namespace Inv

theorem files_closeall_from (fds : List ℕ) (hfds : ∀ i ∈ fds, i < FILES_STRUCT_NENTRY)
    (h : s.Inv held) (hp : p ∈ s.pids) (hidle : s.place p = .idle) :
    Keeps (s.files_closeall_from p fds) := by
  induction fds generalizing s held with
  | nil => exact ⟨_, held, rfl, h.returns hidle 0⟩
  | cons i fds ih =>
    have hrest : ∀ j ∈ fds, j < FILES_STRUCT_NENTRY :=
      fun j hj => hfds j (List.mem_cons_of_mem i hj)
    rw [Files.files_closeall_from]
    split_ifs with hs
    · obtain ⟨s1, hclose, hinv⟩ | ⟨-, f1, hclose, hinv⟩ :=
        h.closes_slot hp (hfds i List.mem_cons_self) (by rw [hidle]; rfl) hs
      · obtain ⟨held', hinv⟩ := hinv (.freeing i .closeall) rfl (steady (by rw [hidle]; rfl) rfl)
        rw [hclose]
        exact ⟨_, held', rfl, hinv⟩
      · rw [hclose]
        exact ih hrest hinv hp hidle
    · exact ih hrest h hp hidle

theorem files_closeall (h : s.Inv held) (hp : p ∈ s.pids) (hidle : s.place p = .idle) :
    Keeps (s.files_closeall p) := by
  rw [Files.files_closeall, h.get_fd_array hp (by rw [hidle]; rfl)]
  apply h.files_closeall_from _ _ hp hidle
  intro i hi
  exact List.mem_range.mp (List.mem_of_mem_drop hi)

section
variable (h : s.Inv held) (hp : p ∈ s.pids) (hd : (s.place p).destroys = true)
include h hp hd

theorem holders_alone (hc : (s.place p).claim = none) (fd : ℕ) :
    s.holders (s.filesp p, fd) = 0 := by
  funext r
  apply card_eq_zero.mpr
  apply filter_eq_empty_iff.mpr
  intro q hq hholds
  obtain ⟨c, hclaim, heq⟩ := map_eq_some_iff.mp hholds
  have hqp : q = p := h.alone p hp hd q hq (congrArg (·.1.1) heq)
  rw [hqp, hc] at hclaim
  cases hclaim

theorem destroyed (hc : (s.place p).claim = none)
    (hfree : ∀ i < FILES_STRUCT_NENTRY, (s.fd_array (s.filesp p, i)).status = FD_NONE) :
    Files.Inv { s with tables := s.tables.erase (s.filesp p), pids := s.pids.erase p } held := by
  have hother : ∀ q ∈ s.pids.erase p, s.filesp q ≠ s.filesp p := by
    intro q hq heq
    exact ne_of_mem_erase hq (h.alone p hp hd q (mem_of_mem_erase hq) heq)
  have hmem : ∀ j : FileSlot, j ∈ s.slots → j.1 ≠ s.filesp p →
      j ∈ slots { s with tables := s.tables.erase (s.filesp p) } := by
    intro j hj hne
    obtain ⟨ht, hi⟩ := mem_product.mp hj
    exact mem_product.mpr ⟨mem_erase.mpr ⟨hne, ht⟩, hi⟩
  have hnone : ∀ j n, held j = some n → j.1 ≠ s.filesp p := by
    rintro ⟨t, i⟩ n hj rfl
    have hi := mem_range.mp (mem_product.mp (h.held_mem _ n hj)).2
    rw [((h.slot _ (h.slot_mem hp hi)).of_none (hfree i hi)).2.1] at hj
    cases hj
  refine ⟨h.log, ?_, ?_, ?_, ?_, ?_, ?_, ?_, ?_⟩
  · intro j hj
    obtain ⟨ht, hi⟩ := mem_product.mp hj
    have hslot := h.slot j (mem_product.mpr ⟨mem_of_mem_erase ht, hi⟩)
    convert hslot using 1
    funext r
    exact congrArg card (census.filter_erase (by simp [holds, hc]))
  · intro j n hj
    exact hmem j (h.held_mem j n hj) (hnone j n hj)
  · intro q hq j r hj
    apply hmem j (h.holds_mem q (mem_of_mem_erase hq) j r hj)
    obtain ⟨c, _, heq⟩ := map_eq_some_iff.mp hj
    rw [← congrArg (·.1.1) heq]
    exact hother q hq
  · intro q hq
    exact mem_erase.mpr ⟨hother q hq, h.filesp_mem q (mem_of_mem_erase hq)⟩
  · intro t ht
    have hcount := h.count t (mem_of_mem_erase ht)
    rw [← census.filter_erase] at hcount
    · exact hcount
    · exact fun hpt => ne_of_mem_erase ht hpt.1.symm
  · intro n
    rw [h.inode n]
    congr 1
    ext j
    simp only [mem_filter]
    constructor
    · rintro ⟨hj, hn⟩
      exact ⟨hmem j hj (hnone j n hn), hn⟩
    · rintro ⟨_, hn⟩
      exact ⟨h.held_mem j n hn, hn⟩
  · intro q hq hdq r hr
    exact h.alone q (mem_of_mem_erase hq) hdq r (mem_of_mem_erase hr)
  · intro q hq
    exact h.passed q (mem_of_mem_erase hq)

end

omit k f n u in
theorem range_drop_cons {i : ℕ} {fds : List ℕ} {N : ℕ} (h : (List.range N).drop i = fd :: fds) :
    fd = i ∧ i < N ∧ fds = (List.range N).drop (i + 1) := by
  have hi : i < N := by
    by_contra hge
    rw [List.drop_eq_nil_of_le (by rw [List.length_range]; omega)] at h
    cases h
  rw [List.drop_eq_getElem_cons (by rwa [List.length_range]), List.getElem_range] at h
  cases h
  exact ⟨rfl, hi, rfl⟩

theorem files_destroy_from (fds : List ℕ) (hfds : (List.range FILES_STRUCT_NENTRY).drop i = fds)
    (h : s.Inv held) (hp : p ∈ s.pids) (hplace : s.place p = .destroying)
    (hfree : ∀ j < i, (s.fd_array (s.filesp p, j)).status = FD_NONE) :
    Keeps (s.files_destroy_from p fds) := by
  have hc : (s.place p).claim = none := by rw [hplace]; rfl
  have hd : (s.place p).destroys = true := by rw [hplace]; rfl
  induction fds generalizing i with
  | nil =>
    have hi := List.drop_eq_nil_iff.mp hfds
    rw [List.length_range] at hi
    exact ⟨_, held, rfl, h.destroyed hp hd hc fun j hj => hfree j (hj.trans_le hi)⟩
  | cons fd fds ih =>
    obtain ⟨rfl, hfd, hrest⟩ := range_drop_cons hfds
    have hzero := h.holders_alone hp hd hc fd
    rw [Files.files_destroy_from]
    obtain hs | ⟨n, hs, -⟩ := (h.slot _ (h.slot_mem hp hfd)).of_zero hzero
    · rw [if_neg (by rw [hs]; decide), if_pos hs]
      apply ih hrest.symm
      intro j hj
      obtain rfl | hlt := Nat.eq_or_lt_of_le (Nat.le_of_lt_succ hj)
      · exact hs
      · exact hfree j hlt
    · obtain ⟨s1, hclose, hinv⟩ | ⟨hne, -⟩ := h.closes_slot hp hfd hc hs
      · have hsteady : s.Steady p fd (.freeing fd .destroy) := by
          refine ⟨hd.symm, ?_⟩
          intro j hj
          cases hj
          exact ⟨rfl, hfree⟩
        obtain ⟨held', hinv⟩ := hinv _ rfl hsteady
        rw [if_pos hs, hclose]
        exact ⟨_, held', rfl, hinv⟩
      · exact absurd hzero hne

theorem frees (h : s.Inv held) (hp : p ∈ s.pids) (hc : (s.place p).claim = some (fd, .freer))
    {l : Place} (hl : l.claim = none) (hsteady : s.Steady p fd l) (ret : ℕ → ℤ) :
    Files.Inv { s with
      fd_array := Function.update s.fd_array (s.filesp p, fd)
        { s.fd_array (s.filesp p, fd) with status := FD_NONE }
      place := Function.update s.place p l
      ret := ret } held := by
  have hfd := h.claim_lt hp hc
  obtain ⟨hs, hn, hheld, hholders⟩ :=
    (h.slot _ (h.slot_mem hp hfd)).of_freer (holders_ne_zero hp hc)
  apply h.keep (a := some .freer) (b := none) ret hp hfd hc hl hsteady
  intro c hcount
  rw [hholders] at hcount
  exact .free rfl hn hheld (add_right_cancel (hcount.trans (zero_add _).symm))

theorem freed (h : s.Inv held) {next : Next} (hp : p ∈ s.pids)
    (hplace : s.place p = .freeing fd next) : Keeps (s.freed fd next p) := by
  have hc : (s.place p).claim = some (fd, .freer) := by rw [hplace]; rfl
  cases next with
  | ret r => exact ⟨_, held, rfl, h.frees hp hc rfl (steady (by rw [hplace]; rfl) rfl) _⟩
  | closeall =>
    apply (h.frees hp hc rfl (steady (by rw [hplace]; rfl) rfl) s.ret).files_closeall_from
      _ _ hp (update_self _ _ _)
    intro i hi
    exact List.mem_range.mp (List.mem_of_mem_drop hi)
  | destroy =>
    have hsteady : s.Steady p fd .destroying := by
      refine ⟨by rw [hplace]; rfl, ?_⟩
      intro i hi
      cases hi
    apply (h.frees hp hc rfl hsteady s.ret).files_destroy_from _ rfl hp (update_self _ _ _)
    intro j hj
    by_cases hjfd : j = fd
    · subst hjfd
      simp only [update_self]
    · have hne : (s.filesp p, j) ≠ (s.filesp p, fd) := fun heq => hjfd (congrArg Prod.snd heq)
      simp only [update_of_ne hne]
      exact h.passed p hp fd hplace j (by omega)

end Inv

end Files

end ucore
