import Mips32S.Kernel.Files.Closing

open Function Finset Prod

namespace ucore

open fd_status

namespace Files

variable {s : Files} {held : FileSlot → Option ℕ} {p t child : ℕ}

namespace Inv

section
variable (h : s.Inv held) (ht : t ∉ s.tables)
include h ht

theorem held_new (i : ℕ) : held (t, i) = none := by
  cases hheld : held (t, i) with
  | none => rfl
  | some n => exact absurd (mem_product.mp (h.held_mem _ n hheld)).1 ht

theorem created : (fd_array_init t { s with
    tables := insert t s.tables
    files_count := Function.update s.files_count t 0 }).Inv held := by
  have hmem : ∀ k ∈ s.slots, k ∈ (fd_array_init t { s with
      tables := insert t s.tables
      files_count := Function.update s.files_count t 0 }).slots := by
    intro k hk
    obtain ⟨hk, hi⟩ := mem_product.mp hk
    exact mem_product.mpr ⟨mem_insert_of_mem hk, hi⟩
  have hfilesp : ∀ q ∈ s.pids, s.filesp q ≠ t := fun q hq heq => ht (heq ▸ h.filesp_mem q hq)
  refine ⟨h.log, ?_, ?_, ?_, ?_, ?_, ?_, h.alone, ?_⟩
  · rintro ⟨t', i⟩ hk
    obtain ⟨hk, hi⟩ := mem_product.mp hk
    by_cases htt : t' = t
    · subst htt
      have hholders : s.holders (t', i) = 0 := by
        funext r
        apply card_eq_zero.mpr
        apply filter_eq_empty_iff.mpr
        intro q hq hholds
        exact ht (mem_product.mp (h.holds_mem q hq _ r hholds)).1
      exact .free (by simp [fd_array_init]) (by simp [fd_array_init]) (h.held_new ht i) hholders
    · have hk : (t', i) ∈ s.slots := mem_product.mpr ⟨mem_of_mem_insert_of_ne hk htt, hi⟩
      change SlotOk (if t' = t then _ else s.fd_array (t', i)) _ (s.holders (t', i))
      rw [if_neg htt]
      exact h.slot _ hk
  · exact fun k n hk => hmem k (h.held_mem k n hk)
  · exact fun q hq k r hk => hmem k (h.holds_mem q hq k r hk)
  · exact fun q hq => mem_insert_of_mem (h.filesp_mem q hq)
  · intro t' ht'
    by_cases htt : t' = t
    · subst htt
      simp only [fd_array_init, update_self]
      symm
      apply card_eq_zero.mpr
      apply filter_eq_empty_iff.mpr
      exact fun q hq hqt => hfilesp q hq hqt.1
    · simp only [fd_array_init, update_of_ne htt]
      exact h.count t' (mem_of_mem_insert_of_ne ht' htt)
  · intro n
    change s.open_count n = _
    rw [h.inode n]
    congr 1
    ext k
    simp only [mem_filter]
    constructor
    · exact fun hk => ⟨hmem k hk.1, hk.2⟩
    · exact fun hk => ⟨h.held_mem k n hk.2, hk.2⟩
  · intro q hq fd hfd i hi
    simpa [fd_array_init, hfilesp q hq] using h.passed q hq fd hfd i hi

end

theorem dup_slot {i n : ℕ} {f : file} (h : s.Inv held) (hp : p ∈ s.pids)
    (hidle : s.place p = .idle) (hk : (t, i) ∈ s.slots) (hnew : ∀ q ∈ s.pids, s.filesp q ≠ t)
    (hs : (s.fd_array (t, i)).status = FD_NONE) (hopened : f.status = FD_OPENED)
    (hnode : f.node = some n) (hcount : f.open_count = 1) :
    Files.Inv { s with
      fd_array := Function.update s.fd_array (t, i) f
      open_count := Function.update s.open_count n (s.open_count n + 1)
      log := s.log ++ [.opened (t, i) n] } (Function.update held (t, i) (some n)) := by
  obtain ⟨-, hheld, hholders⟩ := (h.slot _ hk).of_none hs
  have hnone : s.holds p = none := by rw [holds, hidle]; rfl
  apply h.changes (b := none) _ hp hk _ (open_count_inc hheld)
  · intro c hc
    simp only [update_self]
    refine .opened n 0 hopened hnode rfl hcount ?_
    rw [Pi.single_zero, add_right_cancel hc, hholders]
  · exact fun q hq _ hqt => absurd hqt (hnew q hq)
  · intro fd hfd
    rw [show s.place p = _ from hfd] at hidle
    cases hidle
  · exact ⟨rfl, rfl, rfl, rfl, fun _ _ => rfl, fun j hj => update_of_ne hj _ _, hnone, hnone, rfl⟩
  · rw [held_record h.log, Event.after, if_pos hheld]

theorem dup_files_from (src : ℕ) (is : List ℕ) (his : is.Nodup)
    (hlt : ∀ i ∈ is, i < FILES_STRUCT_NENTRY) (h : s.Inv held) (hp : p ∈ s.pids)
    (hidle : s.place p = .idle) (ht : t ∈ s.tables) (hsrc : src ∈ s.tables)
    (hnew : ∀ q ∈ s.pids, s.filesp q ≠ t) (hne : src ≠ t)
    (hfree : ∀ i ∈ is, (s.fd_array (t, i)).status = FD_NONE) :
    ∃ s' held', s.dup_files_from t src is = some s' ∧ s'.Inv held' ∧ s'.tables = s.tables ∧
      s'.pids = s.pids ∧ s'.filesp = s.filesp ∧ s'.place = s.place := by
  induction is generalizing s held with
  | nil => exact ⟨s, held, rfl, h, rfl, rfl, rfl, rfl⟩
  | cons i is ih =>
    obtain ⟨hi, his⟩ := List.nodup_cons.mp his
    have hrest : ∀ j ∈ is, j < FILES_STRUCT_NENTRY := fun j hj => hlt j (List.mem_cons_of_mem i hj)
    rw [Files.dup_files_from]
    split_ifs with hs
    · have hirange := mem_range.mpr (hlt i List.mem_cons_self)
      obtain ⟨n, u, hnode, -⟩ := (h.slot (src, i) (mem_product.mpr ⟨hsrc, hirange⟩)).of_opened hs
      have hk : (t, i) ∈ s.slots := mem_product.mpr ⟨ht, hirange⟩
      have hsi := hfree i List.mem_cons_self
      have hcount := ((h.slot _ hk).of_none hsi).1
      have hslot : (src, i) ≠ (t, i) := fun heq => hne (congrArg fst heq)
      simp only [fd_array_dup, set, update_self, update_of_ne hslot, hs, hnode,
        and_self, if_true, fd_array_open, update_idem, record, vop_open_inc, ne_eq,
        reduceCtorEq, not_false_eq_true, hcount, Option.bind_some]
      apply ih his hrest (h.dup_slot hp hidle hk hnew hsi rfl rfl rfl) hp hidle ht hsrc hnew
      intro j hj
      have hji : (t, j) ≠ (t, i) := by
        intro heq
        obtain rfl : j = i := congrArg snd heq
        exact hi hj
      simp only [update_of_ne hji]
      exact hfree j (List.mem_cons_of_mem i hj)
    · exact ih his hrest h hp hidle ht hsrc hnew fun j hj => hfree j (List.mem_cons_of_mem i hj)

theorem join (h : s.Inv held) (hchild : child ∉ s.pids) (ht : t ∈ s.tables)
    (hkept : ∀ q ∈ s.pids, (s.place q).destroys = true → s.filesp q ≠ t) :
    (s.join t child).Inv held := by
  have hne : ∀ q ∈ s.pids, q ≠ child := fun q hq heq => hchild (heq ▸ hq)
  have hold : ∀ q ∈ s.pids, (s.join t child).holds q = s.holds q := by
    intro q hq
    simp only [holds, Files.join, update_of_ne (hne q hq)]
  have hself : (s.join t child).holds child = none := by
    simp [holds, Files.join, Place.claim]
  have hplace : (s.join t child).place child = .idle := update_self _ _ _
  refine ⟨h.log, ?_, h.held_mem, ?_, ?_, ?_, h.inode, ?_, ?_⟩
  · intro k hk
    have hholders : (s.join t child).holders k = s.holders k := by
      funext r
      have hcard := census.card_insert
        (Q := fun q => (s.join t child).holds q = some (k, r)) hchild fun q hq => by rw [hold q hq]
      rwa [hself, if_neg (by simp)] at hcard
    rw [hholders]
    exact h.slot k hk
  · intro q hq k r hk
    obtain rfl | hq := mem_insert.mp hq
    · rw [hself] at hk
      cases hk
    · rw [hold q hq] at hk
      exact h.holds_mem q hq k r hk
  · intro q hq
    obtain rfl | hq := mem_insert.mp hq
    · simpa [Files.join] using ht
    · simpa [Files.join, update_of_ne (hne q hq)] using h.filesp_mem q hq
  · intro t' ht'
    have hcard := census.card_insert (P := fun q => s.filesp q = t' ∧ ¬(s.place q).destroys)
      (Q := fun q => (s.join t child).filesp q = t' ∧ ¬((s.join t child).place q).destroys) hchild
      fun q hq => by simp only [Files.join, update_of_ne (hne q hq)]
    have hcount := h.count t' ht'
    rw [hplace, ← hcount] at hcard
    refine Eq.trans ?_ hcard.symm
    simp only [Files.join, update_self]
    by_cases htt : t' = t
    · subst htt
      simp [Place.destroys]
    · simp [update_of_ne htt, Ne.symm htt]
  · intro q hq hd r hr hrq
    obtain rfl | hqs := mem_insert.mp hq
    · rw [hplace] at hd
      cases hd
    · simp only [Files.join, update_of_ne (hne q hqs)] at hd hrq
      obtain rfl | hrs := mem_insert.mp hr
      · rw [update_self] at hrq
        exact absurd hrq.symm (hkept q hqs hd)
      · rw [update_of_ne (hne r hrs)] at hrq
        exact h.alone q hqs hd r hrs hrq
  · intro q hq fd hfd
    obtain rfl | hq := mem_insert.mp hq
    · rw [hplace] at hfd
      cases hfd
    · simp only [Files.join, update_of_ne (hne q hq)] at hfd ⊢
      exact h.passed q hq fd hfd

theorem copy_files (h : s.Inv held) (hp : p ∈ s.pids) (hidle : s.place p = .idle)
    (hchild : child ∉ s.pids) (flags : BitVec 32) (room : Option ℕ) :
    Keeps (s.copy_files flags room child p) := by
  have hpc : p ≠ child := fun heq => hchild (heq ▸ hp)
  have hfilesp := h.filesp_mem p hp
  have hkept : ∀ q ∈ s.pids, (s.place q).destroys = true → s.filesp q ≠ s.filesp p := by
    intro q hq hd heq
    rw [← h.alone q hq hd p hp heq.symm, hidle] at hd
    cases hd
  have hidle' : ∀ {s' : Files} {t : ℕ}, s'.place = s.place → (s'.join t child).place p = .idle := by
    intro s' t hplace
    simp only [Files.join, update_of_ne hpc, hplace, hidle]
  rw [Files.copy_files, if_neg (not_not.mpr hfilesp)]
  split_ifs
  · exact ⟨_, held, rfl, (h.join hchild hfilesp hkept).returns (hidle' rfl) _⟩
  · cases room with
    | none => exact ⟨_, held, rfl, h.returns hidle _⟩
    | some t =>
      by_cases ht : t ∈ s.tables
      · rw [files_create, if_pos ht]
        exact ⟨_, held, rfl, h.returns hidle _⟩
      · have hpos := h.files_count_pos hp (by rw [hidle]; rfl)
        have hne : s.filesp p ≠ t := fun heq => ht (heq ▸ hfilesp)
        have hnew : ∀ q ∈ s.pids, s.filesp q ≠ t := fun q hq heq => ht (heq ▸ h.filesp_mem q hq)
        obtain ⟨s', held', hdup, hinv, htables, hpids, hfilesp', hplace⟩ :=
          (h.created ht).dup_files_from (s.filesp p) _ List.nodup_range
            (fun i hi => List.mem_range.mp hi) hp hidle (mem_insert_self t _)
            (mem_insert_of_mem hfilesp) hnew hne fun i _ => by simp [fd_array_init]
        rw [files_create, if_neg ht]
        simp only [dup_files, fd_array_init, update_self, update_of_ne hne, hpos, and_self, if_true]
        simp only [fd_array_init] at hdup
        rw [hdup]
        refine ⟨_, held', rfl, (hinv.join ?_ ?_ ?_).returns (hidle' hplace) _⟩
        · rwa [hpids]
        · rw [htables]
          exact mem_insert_self t _
        · intro q hq _
          rw [hfilesp']
          rw [hpids] at hq
          exact hnew q hq

variable (h : s.Inv held) (hp : p ∈ s.pids) (hidle : s.place p = .idle)
include h hp hidle

theorem retires (hlast : s.files_count (s.filesp p) - 1 = 0) :
    Files.Inv { s with
      files_count := Function.update s.files_count (s.filesp p) (s.files_count (s.filesp p) - 1)
      place := Function.update s.place p .destroying } held := by
  have hself : (s.place p).destroys = false := by rw [hidle]; rfl
  have hnot : ∀ q ∈ s.pids, s.filesp q = s.filesp p → (s.place q).destroys = false := by
    intro q hq hqp
    by_contra hd
    have hpq := h.alone q hq (by simpa using hd) p hp hqp.symm
    exact hd (hpq ▸ hself)
  have halone : ∀ q ∈ s.pids, s.filesp q = s.filesp p → q = p := by
    intro q hq hqp
    have hcount := h.count _ (h.filesp_mem p hp)
    by_contra hne
    have htwo : 1 < (s.pids.filter fun q => s.filesp q = s.filesp p ∧ ¬(s.place q).destroys).card :=
      one_lt_card.mpr ⟨q, by simp [hq, hqp, hnot q hq hqp], p, by simp [hp, hself], hne⟩
    omega
  have hplace : ∀ q, q ≠ p → Function.update s.place p .destroying q = s.place q :=
    fun q hq => update_of_ne hq _ _
  have hholds : ∀ q, holds { s with place := Function.update s.place p .destroying } q =
      s.holds q := by
    intro q
    by_cases hqp : q = p
    · simp [holds, hqp, hidle, Place.claim]
    · simp only [holds, hplace q hqp]
  refine ⟨h.log, ?_, h.held_mem, ?_, h.filesp_mem, ?_, h.inode, ?_, ?_⟩
  · intro k hk
    convert h.slot k hk using 1
    funext r
    exact congrArg card (filter_congr fun q _ => by rw [← hholds q]; rfl)
  · intro q hq k r hk
    exact h.holds_mem q hq k r ((hholds q).symm.trans hk)
  · intro t ht
    have hcount := h.count t ht
    by_cases htp : t = s.filesp p
    · subst htp
      simp only [update_self, hlast]
      symm
      apply card_eq_zero.mpr
      apply filter_eq_empty_iff.mpr
      rintro q hq ⟨hqp, hd⟩
      rw [halone q hq hqp, update_self] at hd
      exact hd rfl
    · simp only [update_of_ne htp]
      rw [hcount]
      refine congrArg card (filter_congr fun q _ => and_congr_right fun hqt => ?_)
      rw [hplace q (by rintro rfl; exact htp hqt.symm)]
  · intro q hq hd r hr hrq
    by_cases hqp : q = p
    · rw [hqp] at hrq ⊢
      exact halone r hr hrq
    · simp only [hplace q hqp] at hd
      exact h.alone q hq hd r hr hrq
  · intro q hq fd hfd
    by_cases hqp : q = p
    · simp only [hqp, update_self] at hfd
      cases hfd
    · simp only [hplace q hqp] at hfd
      exact h.passed q hq fd hfd

theorem exits :
    Files.Inv { s with
      files_count := Function.update s.files_count (s.filesp p) (s.files_count (s.filesp p) - 1)
      pids := s.pids.erase p } held := by
  have hself : (s.place p).destroys = false := by rw [hidle]; rfl
  refine ⟨h.log, ?_, h.held_mem, ?_, ?_, ?_, h.inode, ?_, ?_⟩
  · intro k hk
    convert h.slot k hk using 1
    funext r
    exact congrArg card (census.filter_erase (by simp [holds, hidle, Place.claim]))
  · exact fun q hq => h.holds_mem q (mem_of_mem_erase hq)
  · exact fun q hq => h.filesp_mem q (mem_of_mem_erase hq)
  · intro t ht
    have hcard := census.card_erase (P := fun q => s.filesp q = t ∧ ¬(s.place q).destroys) hp
    rw [← h.count t ht] at hcard
    by_cases htp : t = s.filesp p
    · subst htp
      simp only [hself, update_self] at hcard ⊢
      simp only [Bool.false_eq_true, not_false_eq_true, and_self, if_true] at hcard
      omega
    · simp only [update_of_ne htp]
      rwa [if_neg fun hpt => htp hpt.1.symm, add_zero, eq_comm] at hcard
  · intro q hq hd r hr
    exact h.alone q (mem_of_mem_erase hq) hd r (mem_of_mem_erase hr)
  · exact fun q hq => h.passed q (mem_of_mem_erase hq)

theorem put_files : Keeps (s.put_files p) := by
  simp only [Files.put_files, update_self]
  split_ifs with hlast
  · simp only [goto, files_destroy, update_self, if_pos hlast]
    exact (h.retires hp hidle hlast).files_destroy_from _ rfl hp (update_self _ _ _)
      fun j hj => absurd hj (Nat.not_lt_zero j)
  · exact ⟨_, held, rfl, h.exits hp hidle⟩

end Inv

end Files

end ucore
