import Mips32S.Kernel.Sfs.Truncate

open layout ownership

open Option (bind_eq_bind bind_eq_some_iff bind_some)

namespace ucore.sfs_fs

variable {I : Finset ℕ} {s s' s'' : sfs_fs} {n m b c k index : ℕ} {ret : ℤ} {r : Except ℤ Unit}
  {fresh create : Bool}

/-- The blocks in use stay. -/
def Spares (s s' : sfs_fs) : Prop := ∀ b ∉ s.freemap.free, s'.disk b = s.disk b

/-- Fewer blocks are free, or the device fails in one of the next transfers. -/
def Refuses (s : sfs_fs) : ℕ × ℕ → Prop
  | (blocks, transfers) => s.freemap.free.card < blocks ∨ ∃ i < transfers, s.answer i ≠ 0

/-- A call takes so many free blocks and transfers, and fails exactly if it does not get them. -/
structure Uses {α : Type} (needs : ℕ × ℕ) (s : sfs_fs) (r : Except ℤ α) (s' : sfs_fs) : Prop where
  fails : (∃ ret, r = .error ret) ↔ s.Refuses needs
  after : ∀ x, r = .ok x → s'.freemap.free.card + needs.1 = s.freemap.free.card ∧
    ∀ i, s'.answer i = s.answer (i + needs.2)

namespace Uses

variable {α β : Type} {needs : ℕ × ℕ} {b' t t' : ℕ} {x : α} {y : Except ℤ β}

theorem bind (h : Uses (b, t) s (Except.ok x) s') (h' : Uses (b', t') s' y s'') :
    Uses (b + b', t + t') s y s'' := by
  obtain ⟨hcard, hanswer⟩ := h.after x rfl
  have hfits : ¬ s.Refuses (b, t) := fun hno => by simpa using h.fails.mpr hno
  dsimp only at hcard hanswer
  refine ⟨h'.fails.trans ⟨?_, ?_⟩, fun z hz => ?_⟩
  · rintro (hfew | ⟨i, hi, hne⟩)
    · exact .inl (by omega)
    · exact .inr ⟨i + t, by omega, hanswer i ▸ hne⟩
  · rintro (hfew | ⟨i, hi, hne⟩)
    · exact .inl (by omega)
    · have hle : t ≤ i := by
        by_contra hlt
        exact hfits (.inr ⟨i, by omega, hne⟩)
      refine .inr ⟨i - t, by omega, ?_⟩
      rwa [hanswer, Nat.sub_add_cancel hle]
  · obtain ⟨hcard', hanswer'⟩ := h'.after z hz
    dsimp only at hcard' hanswer' ⊢
    refine ⟨by omega, fun i => ?_⟩
    rw [hanswer', hanswer, Nat.add_assoc, Nat.add_comm t' t]

theorem error (h : Uses (b, t) s (Except.error ret : Except ℤ α) s') (ret' : ℤ)
    (hle : (b, t) ≤ needs) : Uses needs s (Except.error ret' : Except ℤ β) s'' := by
  refine ⟨iff_of_true ⟨ret', rfl⟩ ?_, fun _ h => by cases h⟩
  rcases h.fails.mp ⟨ret, rfl⟩ with hfew | ⟨i, hi, hne⟩
  · exact .inl (hfew.trans_le hle.1)
  · exact .inr ⟨i, hi.trans_le hle.2, hne⟩

theorem of_answer {y : Except ℤ α} (hfree : s'.freemap = s.freemap)
    (hanswer : ∀ i, s'.answer i = s.answer (i + 1))
    (hy : (∃ ret, y = .error ret) ↔ s.answer 0 ≠ 0) : Uses (0, 1) s y s' :=
  ⟨by simpa [Refuses] using hy, fun _ _ => ⟨by rw [hfree, Nat.add_zero], hanswer⟩⟩

theorem take (hb : b ∈ s.freemap.free) (hfree : s'.freemap.free = s.freemap.free.erase b)
    (hanswer : s'.answer = s.answer) (x : α) : Uses (1, 0) s (Except.ok x) s' := by
  have hcard := Finset.card_erase_add_one hb
  refine ⟨iff_of_false (by simp) ?_, fun _ _ => ⟨hfree ▸ hcard, fun i => by rw [hanswer]; rfl⟩⟩
  rintro (hfew | ⟨i, hi, -⟩) <;> omega

theorem pure (x : α) : Uses (0, 0) s (Except.ok x) s :=
  ⟨by simp [Refuses], fun _ _ => ⟨rfl, fun _ => rfl⟩⟩

end Uses

section
variable {buf buf' x : ℕ → BitVec 8} {d len offset : ℕ}

theorem rblock_inversion {r : Except ℤ (ℕ → BitVec 8)}
    (heq : s.sfs_rblock_nolock c = some (r, s')) :
    Shifted s s' ∧ Uses (0, 1) s r s' ∧ (r = .ok (s.disk c) ∨ ∃ ret ≠ 0, r = .error ret) := by
  by_cases hok : s.answer 0 = 0
  · simp [sfs_rblock_nolock, dop_answer, hok, bind_eq_some_iff] at heq
    obtain ⟨-, rfl, rfl⟩ := heq
    exact ⟨⟨1, rfl⟩, .of_answer rfl (fun _ => rfl) (by simp [hok]), .inl rfl⟩
  · simp [sfs_rblock_nolock, dop_answer, hok, bind_eq_some_iff] at heq
    obtain ⟨-, rfl, rfl⟩ := heq
    exact ⟨⟨1, rfl⟩, .of_answer rfl (fun _ => rfl) (by simp [hok]), .inr ⟨_, hok, rfl⟩⟩

theorem rbuf_inversion (heq : s.sfs_rbuf buf d len c offset = some (ret, buf', s')) :
    Shifted s s' ∧ (ret = 0 → buf' = copy buf d (s.disk c) offset len) ∧
      Uses (0, 1) s (if ret ≠ 0 then .error ret else .ok ()) s' := by
  simp only [sfs_rbuf, bind_eq_bind, bind_eq_some_iff, Prod.exists] at heq
  obtain ⟨_, _, r, s1, hread, heq⟩ := heq
  obtain ⟨hs1, huses, hr⟩ := rblock_inversion hread
  rcases hr with rfl | ⟨e, hne, rfl⟩ <;> cases heq
  · exact ⟨hs1, fun _ => rfl, huses.bind (.pure ())⟩
  · rw [if_pos hne]
    exact ⟨hs1, fun hzero => absurd hzero hne, huses.error ret le_rfl⟩

theorem wblock_inversion (heq : s.sfs_wblock_nolock x c = some (r, s')) : Uses (0, 1) s r s' ∧
    ∃ s1, Shifted s s1 ∧
      (s' = s1 ∨ r = .ok () ∧ s' = { s1 with disk := Function.update s.disk c x }) := by
  by_cases hok : s.answer 0 = 0
  · simp [sfs_wblock_nolock, dop_answer, hok, bind_eq_some_iff] at heq
    obtain ⟨-, rfl, rfl⟩ := heq
    exact ⟨.of_answer rfl (fun _ => rfl) (by simp [hok]), _, ⟨1, rfl⟩, .inr ⟨rfl, rfl⟩⟩
  · simp [sfs_wblock_nolock, dop_answer, hok, bind_eq_some_iff] at heq
    obtain ⟨-, rfl, rfl⟩ := heq
    exact ⟨.of_answer rfl (fun _ => rfl) (by simp [hok]), _, ⟨1, rfl⟩, .inl rfl⟩

theorem wbuf_inversion (heq : s.sfs_wbuf buf d len c offset = some (r, s')) :
    s'.sin = s.sin ∧ (r ≠ .ok () → Shifted s s') ∧ Uses (0, 2) s r s' := by
  simp only [sfs_wbuf, bind_eq_bind, bind_eq_some_iff, Prod.exists] at heq
  obtain ⟨_, _, r1, s1, hread, heq⟩ := heq
  obtain ⟨hs1, huses, hr⟩ := rblock_inversion hread
  rcases hr with rfl | ⟨e, -, rfl⟩
  · obtain ⟨huses', s2, hs2, rfl | ⟨hok, rfl⟩⟩ := wblock_inversion heq
    · exact ⟨(hs1.trans hs2).sin, fun _ => hs1.trans hs2, huses.bind huses'⟩
    · exact ⟨(hs1.trans hs2).sin, fun herr => absurd hok herr, huses.bind huses'⟩
  · cases heq
    exact ⟨hs1.sin, fun _ => hs1, huses.error e (by decide)⟩

end

theorem block_free_inversion (heq : s.sfs_block_free b = some s') :
    s'.sin = s.sin ∧ s'.disk = s.disk := by
  simp only [sfs_block_free, bind_eq_bind, bind_eq_some_iff] at heq
  obtain ⟨_, _, _, _, _, _, heq⟩ := heq
  cases heq
  exact ⟨rfl, rfl⟩

theorem alloc_inversion {r : Except ℤ ℕ} (heq : s.sfs_block_alloc = some (r, s')) :
    s'.sin = s.sin ∧ (s.freemap.Ok →
      Spares s s' ∧ s'.freemap.Ok ∧ s'.freemap.free ⊆ s.freemap.free ∧ Uses (1, 1) s r s') := by
  simp only [sfs_block_alloc, bind_eq_bind, bind_eq_some_iff, Prod.exists] at heq
  obtain ⟨r0, fm, hbit, heq⟩ := heq
  cases r0 with
  | error e =>
    cases heq
    refine ⟨rfl, fun hok => ⟨fun _ _ => rfl, hok, subset_rfl, ?_⟩⟩
    rcases hok.alloc_spec with ⟨-, hempty⟩ | ⟨i, fm', h, -⟩
    · exact ⟨iff_of_true ⟨e, rfl⟩ (.inl (by simp [hempty])), fun _ h => by cases h⟩
    · rw [h] at hbit
      cases hbit
  | ok i =>
    simp only [bind_eq_some_iff, Prod.exists] at heq
    obtain ⟨-, -, -, -, -, -, r1, s1, hclear, heq⟩ := heq
    have hfresh (hok : s.freemap.Ok) : i ∈ s.freemap.free ∧ fm.Ok ∧
        fm.free = s.freemap.free.erase i := by
      rcases hok.alloc_spec with ⟨h, -⟩ | ⟨i', fm', h, hi, hok', -, hfree⟩
      · rw [h] at hbit
        cases hbit
      · rw [h] at hbit
        cases hbit
        exact ⟨hi, hok', hfree⟩
    obtain ⟨huses, hdone⟩ := wblock_inversion hclear
    have hneeds (hok : s.freemap.Ok) : Uses (1, 1) s r s' := by
      obtain ⟨hi, -, hfree⟩ := hfresh hok
      have hboth := Uses.bind (.take hi hfree (by rfl) i) huses
      cases r1 <;> cases heq
      · exact hboth.error _ le_rfl
      · exact hboth.bind (.pure i)
    have hs' : s' = s1 := by
      cases r1 <;> cases heq <;> rfl
    subst hs'
    have hsub (hok : s.freemap.Ok) : fm.free ⊆ s.freemap.free :=
      (hfresh hok).2.2 ▸ Finset.erase_subset i _
    obtain ⟨s2, ⟨j, rfl⟩, rfl | ⟨-, rfl⟩⟩ := hdone
    · exact ⟨rfl, fun hok => ⟨fun _ _ => rfl, (hfresh hok).2.1, hsub hok, hneeds hok⟩⟩
    · refine ⟨rfl, fun hok => ⟨fun b hb => ?_, (hfresh hok).2.1, hsub hok, hneeds hok⟩⟩
      have hne : b ≠ i := fun hsame => hb (hsame ▸ (hfresh hok).1)
      exact Function.update_of_ne hne _ _

theorem cleanup_inversion {r : Except ℤ (ℕ × ℕ)}
    (heq : sfs_bmap_get_sub_nolock.cleanup ret b fresh s = some (r, s')) :
    r = .error ret ∧ s'.sin = s.sin ∧ s'.disk = s.disk := by
  rw [sfs_bmap_get_sub_nolock.cleanup] at heq
  split_ifs at heq
  · obtain ⟨s1, hfree, hs1⟩ := Option.map_eq_some_iff.mp heq
    cases hs1
    exact ⟨rfl, block_free_inversion hfree⟩
  · cases heq
    exact ⟨rfl, rfl, rfl⟩

/-- What a helper of the mapping leaves of the state `s`. -/
def Retains {α : Type} (s : sfs_fs) (r : Except ℤ α) (s' : sfs_fs) : Prop :=
  s'.sin = s.sin ∧ (s.freemap.Ok → ∀ ret, r = .error ret → Spares s s')

/-- The free blocks and the transfers for a new block in the entry `index` of the block `ent`. -/
def entryNeeds (ent index : ℕ) (s : sfs_fs) : ℕ × ℕ :=
  if ent = 0 then (2, 4) else if s.entry ent index = 0 then (1, 4) else (0, 1)

/-- The free blocks and the transfers for a new block `index` of a file. -/
def blockNeeds (n index : ℕ) (s : sfs_fs) : ℕ × ℕ :=
  if index < SFS_NDIRECT then if (s.sin n).din.direct index = 0 then (1, 1) else (0, 0)
  else s.entryNeeds (s.sin n).din.indirect (index - SFS_NDIRECT)

theorem create_retains {r : Except ℤ (ℕ × ℕ)}
    (heq : sfs_bmap_get_sub_nolock.create b index fresh s = some (r, s')) :
    Retains s r s' ∧ (s.freemap.Ok → Uses (1, 3) s r s') := by
  simp only [sfs_bmap_get_sub_nolock.create, bind_eq_bind, bind_eq_some_iff, Prod.exists] at heq
  obtain ⟨r1, s1, halloc, heq⟩ := heq
  obtain ⟨hsin1, hspare⟩ := alloc_inversion halloc
  cases r1 with
  | error e =>
    obtain ⟨rfl, hsin, hdisk⟩ := cleanup_inversion heq
    exact ⟨⟨hsin.trans hsin1, fun hok _ _ c hc => hdisk ▸ (hspare hok).1 c hc⟩,
      fun hok => (hspare hok).2.2.2.error e (by decide)⟩
  | ok ino =>
    simp only [bind_eq_some_iff, Prod.exists] at heq
    obtain ⟨r2, s2, hwrite, heq⟩ := heq
    obtain ⟨hsin2, hfail, huses⟩ := wbuf_inversion hwrite
    have hboth (hok : s.freemap.Ok) := (hspare hok).2.2.2.bind huses
    cases r2 with
    | ok u =>
      cases heq
      exact ⟨⟨hsin2.trans hsin1, fun _ _ h => by cases h⟩, fun hok => (hboth hok).bind (.pure _)⟩
    | error e =>
      obtain ⟨i, rfl⟩ := hfail (by rintro ⟨⟩)
      simp only [bind_eq_some_iff] at heq
      obtain ⟨s3, hfree, heq⟩ := heq
      obtain ⟨hsin3, hdisk3⟩ := block_free_inversion hfree
      obtain ⟨rfl, hsin, hdisk⟩ := cleanup_inversion heq
      refine ⟨⟨by rw [hsin, hsin3, hsin2, hsin1], fun hok _ _ c hc => ?_⟩,
        fun hok => (hboth hok).error e le_rfl⟩
      rw [hdisk, hdisk3]
      exact (hspare hok).1 c hc

theorem get_sub_retains {r : Except ℤ (ℕ × ℕ)}
    (heq : s.sfs_bmap_get_sub_nolock b index create = some (r, s')) : Retains s r s' ∧
      (s.freemap.Ok → create = true →
        Uses (s.entryNeeds b index) s r s') := by
  simp only [sfs_bmap_get_sub_nolock, bind_eq_bind, bind_eq_some_iff] at heq
  obtain ⟨_, -, heq⟩ := heq
  split_ifs at heq with hb hcreate
  · simp only [bind_eq_some_iff, Prod.exists] at heq
    obtain ⟨e, buf, s1, hread, heq⟩ := heq
    obtain ⟨⟨i, rfl⟩, hbuf, huses⟩ := rbuf_inversion hread
    rw [entryNeeds, if_neg hb]
    split_ifs at heq with he hino
    · cases heq
      rw [if_pos he] at huses
      exact ⟨⟨rfl, fun _ _ _ _ _ => rfl⟩, fun _ _ => huses.error e (by split_ifs <;> decide)⟩
    all_goals
      rw [if_neg he] at huses
      rw [hbuf (not_not.mp he), value_entry] at hino
    · cases heq
      refine ⟨⟨rfl, fun _ _ h => by cases h⟩, fun _ hcreate => ?_⟩
      rw [if_neg (hino.resolve_right (by simp [hcreate]))]
      exact huses.bind (.pure _)
    · obtain ⟨⟨hsin, hspare⟩, hneeds⟩ := create_retains heq
      refine ⟨⟨hsin, hspare⟩, fun hok _ => ?_⟩
      rw [if_pos (not_not.mp fun hne => hino (.inl hne))]
      exact huses.bind (hneeds hok)
  · simp only [bind_eq_some_iff, Prod.exists] at heq
    obtain ⟨r1, s1, halloc, heq⟩ := heq
    obtain ⟨hsin1, hspare⟩ := alloc_inversion halloc
    rw [entryNeeds, if_pos (not_not.mp hb)]
    cases r1 with
    | error e =>
      cases heq
      exact ⟨⟨hsin1, fun hok _ _ => (hspare hok).1⟩,
        fun hok _ => (hspare hok).2.2.2.error e (by decide)⟩
    | ok ent =>
      obtain ⟨⟨hsin, hsp⟩, hneeds⟩ := create_retains heq
      refine ⟨⟨hsin.trans hsin1, fun hok e he c hc => ?_⟩,
        fun hok _ => (hspare hok).2.2.2.bind (hneeds (hspare hok).2.1)⟩
      obtain ⟨hsp1, hok1, hsub, -⟩ := hspare hok
      rw [hsp hok1 e he c fun hmem => hc (hsub hmem), hsp1 c hc]
  · cases heq
    exact ⟨⟨rfl, fun _ _ h => by cases h⟩, fun _ h => absurd h ‹_›⟩

/-- The mapping of a block counts no block, and keeps what is in use if it fails. It fails for want
of what it needs. -/
theorem get_retains {r : Except ℤ ℕ} (heq : s.sfs_bmap_get_nolock n index create = some (r, s')) :
    (s'.sin n).din.blocks = (s.sin n).din.blocks ∧
      (index < SFS_NDIRECT → (s'.sin n).din.indirect = (s.sin n).din.indirect) ∧
      (∀ ret, r = .error ret → Retains s r s') ∧
      (s.freemap.Ok → create = true → ((∃ ret, r = .error ret) ↔
        s.Refuses (s.blockNeeds n index))) := by
  have hout {ino : ℕ} {s1 : sfs_fs} (heq : sfs_bmap_get_nolock.out ino s1 = some (r, s')) :
      s' = s1 ∧ r = .ok ino := by
    simp only [sfs_bmap_get_nolock.out, bind_eq_bind, bind_eq_some_iff] at heq
    obtain ⟨_, -, heq⟩ := heq
    cases heq
    exact ⟨rfl, rfl⟩
  rw [sfs_bmap_get_nolock] at heq
  split_ifs at heq with hdirect hnew hk
  · simp only [bind_eq_bind, bind_eq_some_iff, Prod.exists] at heq
    obtain ⟨r1, s1, halloc, heq⟩ := heq
    obtain ⟨hsin, hspare⟩ := alloc_inversion halloc
    rw [blockNeeds, if_pos hdirect, if_pos hnew.1]
    cases r1 with
    | error e =>
      cases heq
      exact ⟨by rw [hsin], fun _ => by rw [hsin], fun _ _ => ⟨hsin, fun hok _ _ => (hspare hok).1⟩,
        fun hok _ => (hspare hok).2.2.2.fails⟩
    | ok ino =>
      obtain ⟨rfl, rfl⟩ := hout heq
      refine ⟨?_, fun _ => ?_, fun _ h => (by cases h), fun hok _ => ?_⟩
      · simp [setDirty, modifyDin, modifySin, hsin]
      · simp [setDirty, modifyDin, modifySin, hsin]
      · exact (hspare hok).2.2.2.fails
  · obtain ⟨rfl, rfl⟩ := hout heq
    refine ⟨rfl, fun _ => rfl, fun _ h => (by cases h), fun _ hcreate => ?_⟩
    rw [blockNeeds, if_pos hdirect, if_neg fun hzero => hnew ⟨hzero, hcreate⟩]
    simp [Refuses]
  · simp only [bind_eq_bind, bind_eq_some_iff, Prod.exists] at heq
    obtain ⟨r1, s1, hsub, heq⟩ := heq
    obtain ⟨⟨hsin, hspare⟩, hneeds⟩ := get_sub_retains hsub
    rw [blockNeeds, if_neg hdirect]
    cases r1 with
    | error e =>
      cases heq
      exact ⟨by rw [hsin], fun _ => by rw [hsin],
        fun _ _ => ⟨hsin, fun hok _ _ => hspare hok e rfl⟩, fun hok hcreate =>
          (iff_of_true ⟨e, rfl⟩ ⟨e, rfl⟩).trans (hneeds hok hcreate).fails⟩
    | ok q =>
      obtain ⟨ent, ino⟩ := q
      have hfails (hok : s.freemap.Ok) (hcreate : create = true) :=
        (iff_of_false (by simp : ¬∃ ret, Except.ok ino = Except.error (ε := ℤ) ret)
          (by simp)).trans (hneeds hok hcreate).fails
      simp only at heq
      split_ifs at heq
      · simp only [bind_eq_some_iff] at heq
        obtain ⟨_, -, heq⟩ := heq
        obtain ⟨rfl, rfl⟩ := hout heq
        refine ⟨?_, fun hlt => absurd hlt hdirect, fun _ h => (by cases h), hfails⟩
        simp [setDirty, modifyDin, modifySin, hsin]
      · obtain ⟨rfl, rfl⟩ := hout heq
        exact ⟨by rw [hsin], fun _ => by rw [hsin], fun _ h => (by cases h), hfails⟩

theorem load_retains {r : Except ℤ ℕ}
    (heq : s.sfs_bmap_load_nolock n (s.sin n).din.blocks = some (r, s')) :
    (∀ ret, r = .error ret → Retains s r s') ∧
      (∀ ino, r = .ok ino → (s'.sin n).din.blocks = (s.sin n).din.blocks + 1) ∧
      (s.freemap.Ok → ((∃ ret, r = .error ret) ↔
        s.Refuses (s.blockNeeds n (s.sin n).din.blocks))) := by
  simp only [sfs_bmap_load_nolock, decide_true, bind_eq_bind, bind_eq_some_iff, Prod.exists] at heq
  obtain ⟨_, -, r1, s1, hget, heq⟩ := heq
  obtain ⟨hblocks, -, hspare, hneeds⟩ := get_retains hget
  cases r1 with
  | error e =>
    cases heq
    exact ⟨fun _ _ => hspare e rfl, fun _ h => (by cases h), fun hok => hneeds hok rfl⟩
  | ok ino =>
    simp only [bind_eq_some_iff, if_true] at heq
    obtain ⟨_, -, _, -, heq⟩ := heq
    cases heq
    refine ⟨fun _ h => (by cases h), fun _ _ => ?_, fun hok => hneeds hok rfl⟩
    simp [modifyDin, modifySin, hblocks]

/-- The transfers that freeing the last block of a file takes. -/
def lastTransfers (n : ℕ) (s : sfs_fs) : ℕ :=
  let index := (s.sin n).din.blocks - 1
  if index < SFS_NDIRECT ∨ SFS_BLK_NENTRY ≤ index - SFS_NDIRECT ∨ (s.sin n).din.indirect = 0 then 0
  else if s.entry (s.sin n).din.indirect (index - SFS_NDIRECT) = 0 then 1 else 3

theorem free_sub_inversion (heq : s.sfs_bmap_free_sub_nolock b index = some (r, s')) :
    (∃ ret, r = .error ret) ↔ s.Refuses (0, if s.entry b index = 0 then 1 else 3) := by
  simp only [sfs_bmap_free_sub_nolock, bind_eq_bind, bind_eq_some_iff, Prod.exists] at heq
  obtain ⟨_, -, _, -, e, buf, s1, hread, heq⟩ := heq
  obtain ⟨-, hbuf, huses⟩ := rbuf_inversion hread
  split_ifs at heq with he hino
  · cases heq
    rw [if_pos he] at huses
    have hfail : Uses (0, if s.entry b index = 0 then 1 else 3) s (.error e : Except ℤ Unit) s' :=
      huses.error e (by split_ifs <;> decide)
    exact hfail.fails
  all_goals
    rw [if_neg he] at huses
    rw [hbuf (not_not.mp he), value_entry] at hino
  · simp only [bind_eq_some_iff, Prod.exists] at heq
    obtain ⟨r1, s2, hwrite, heq⟩ := heq
    have hboth := huses.bind (wbuf_inversion hwrite).2.2
    rw [if_neg hino]
    cases r1 with
    | error e =>
      cases heq
      exact hboth.fails
    | ok u =>
      obtain ⟨s3, -, heq⟩ := bind_eq_some_iff.mp heq
      cases heq
      exact hboth.fails
  · cases heq
    rw [if_pos (not_not.mp hino)]
    exact huses.fails

theorem truncate_inversion (heq : s.sfs_bmap_truncate_nolock n = some (r, s')) :
    (∃ ret, r = .error ret) ↔ s.Refuses (0, s.lastTransfers n) := by
  simp only [sfs_bmap_truncate_nolock, bind_eq_bind, bind_eq_some_iff, Prod.exists] at heq
  obtain ⟨_, -, r1, s1, hfree, heq⟩ := heq
  have hr : (∃ ret, r = .error ret) ↔ ∃ ret, r1 = .error ret := by
    cases r1 <;> cases heq <;> simp
  have hnone : ¬s.Refuses (0, 0) := by simp [Refuses]
  rw [hr, lastTransfers]
  rw [sfs_bmap_free_nolock] at hfree
  split_ifs at hfree with hdirect hne hentry
  · obtain ⟨s2, -, hfree⟩ := bind_eq_some_iff.mp hfree
    cases hfree
    simp [hdirect, hnone]
  · cases hfree
    simp [hdirect, hnone]
  · rw [free_sub_inversion hfree]
    simp [hdirect, hentry.2, not_le.mpr hentry.1]
  · cases hfree
    have hout : SFS_BLK_NENTRY ≤ (s.sin n).din.blocks - 1 - SFS_NDIRECT ∨
        (s.sin n).din.indirect = 0 := by
      by_contra hno
      exact hentry ⟨by omega, fun hzero => hno (.inr hzero)⟩
    simp [hdirect, hout, hnone]

variable {len : BitVec 32}

/-- The byte at the position `p` of a file in memory. -/
def byteAt (s : sfs_fs) (n p : ℕ) : BitVec 8 :=
  s.disk (s.slotOf (s.sin n).din n (fileSlot (p / SFS_BLKSIZE))) (p % SFS_BLKSIZE)

/-- The file `n` is as before. -/
structure Unaltered (n : ℕ) (s s' : sfs_fs) : Prop where
  size : (s'.sin n).din.size = (s.sin n).din.size
  blocks : (s'.sin n).din.blocks = (s.sin n).din.blocks
  bytes : ∀ p, s'.byteAt n p = s.byteAt n p

/-- The length is out of range, or the free blocks or the answers of the device do not suffice to
append or to free the first block. -/
def FailsAtOnce (n : ℕ) (len : BitVec 32) (s : sfs_fs) : Prop :=
  len.toInt < 0 ∨ len.toNat > SFS_MAX_FILE_SIZE ∨
  (s.sin n).din.blocks < ROUNDUP_DIV_2N len.toNat PGSHIFT ∧
    s.Refuses (s.blockNeeds n (s.sin n).din.blocks) ∨
  ROUNDUP_DIV_2N len.toNat PGSHIFT < (s.sin n).din.blocks ∧ s.Refuses (0, s.lastTransfers n)

section
variable (h : s.Consistent I) (hn : n ∈ s.inode_list)
include h hn

theorem Consistent.unaltered (hsin : s'.sin = s.sin) (hspare : Spares s s') : Unaltered n s s' := by
  have hI := h.loaded n hn
  have hslot (σ : Slot) : s.slotOf (s.sin n).din n σ ∉ s.freemap.free := by
    have hnot := h.not_free (n, σ)
    rwa [slot, if_pos hI, dinode_of_loaded hn] at hnot
  have hsame (σ : Slot) : s'.slotOf (s.sin n).din n σ = s.slotOf (s.sin n).din n σ := by
    refine slotOf_congr ⟨fun _ _ => rfl, rfl⟩ fun _ k _ => ?_
    rw [entry, entry, hspare (s.sin n).din.indirect (hslot .indirect)]
  refine ⟨by rw [hsin], by rw [hsin], fun p => ?_⟩
  rw [byteAt, byteAt, hsin, hsame, hspare _ (hslot _)]

omit h hn in
theorem enlarge_blocks_le (heq : sfs_truncfile.enlarge n k (s.sin n).din.blocks s = some (r, s')) :
    (s.sin n).din.blocks ≤ (s'.sin n).din.blocks := by
  induction k generalizing s with
  | zero =>
    cases heq
    exact le_rfl
  | succ k ih =>
    simp only [sfs_truncfile.enlarge, bind_eq_bind, bind_eq_some_iff, Prod.exists] at heq
    obtain ⟨r1, s1, hload, heq⟩ := heq
    obtain ⟨hfail, hcount, -⟩ := load_retains hload
    cases r1 with
    | error e =>
      cases heq
      rw [(hfail e rfl).1]
    | ok ino =>
      have hcount' := hcount ino rfl
      rw [← hcount'] at heq
      have hle := ih heq
      omega

theorem enlarge_error
    (heq : sfs_truncfile.enlarge n k (s.sin n).din.blocks s = some (.error ret, s')) :
    Unaltered n s s' ↔ s.Refuses (s.blockNeeds n (s.sin n).din.blocks) := by
  cases k with
  | zero => cases heq
  | succ k =>
    simp only [sfs_truncfile.enlarge, bind_eq_bind, bind_eq_some_iff, Prod.exists] at heq
    obtain ⟨r1, s1, hload, heq⟩ := heq
    obtain ⟨hfail, hcount, hneeds⟩ := load_retains hload
    rw [← hneeds h.ok]
    cases r1 with
    | error e =>
      cases heq
      obtain ⟨hsin, hspare⟩ := hfail ret rfl
      exact iff_of_true (h.unaltered hn hsin (hspare h.ok ret rfl)) ⟨ret, rfl⟩
    | ok ino =>
      have hcount' := hcount ino rfl
      rw [← hcount'] at heq
      have hle := enlarge_blocks_le heq
      refine iff_of_false (fun hsame => ?_) (by simp)
      have := hsame.blocks
      omega

theorem reduce_error (hk : k ≤ (s.sin n).din.blocks)
    (heq : sfs_truncfile.reduce n k s = some (.error ret, s')) :
    Unaltered n s s' ↔ s.Refuses (0, s.lastTransfers n) := by
  cases k with
  | zero => cases heq
  | succ k =>
    rcases truncate_cases h hn (by omega) with ⟨s1, htrunc, hr⟩ | ⟨e, s1, htrunc, hs1, -⟩
    · have hcount := hr.nblocks
      simp only [sfs_truncfile.reduce, htrunc, bind_eq_bind, bind_some] at heq
      rw [← truncate_inversion htrunc]
      refine iff_of_false (fun hsame => ?_) (by simp)
      have hblocks := hsame.blocks
      rcases reduce_cases (k := k) hr.consistent (hr.preserves.list ▸ hn) (by omega) with
        ⟨s2, hrest, -⟩ | ⟨e, s2, j, hrest, hr', -⟩
      · rw [hrest] at heq
        cases heq
      · rw [hrest] at heq
        cases heq
        have := hr'.nblocks
        omega
    · simp only [sfs_truncfile.reduce, htrunc, bind_eq_bind, bind_some] at heq
      cases heq
      obtain ⟨i, rfl⟩ := hs1
      rw [← truncate_inversion htrunc]
      exact iff_of_true (h.unaltered hn rfl fun _ _ => rfl) ⟨ret, rfl⟩

end

/-- A call of `sfs_truncfile` that fails leaves the file as it was exactly if it fails at once. -/
theorem truncfile_error (h : s.Consistent I) (hn : n ∈ s.inode_list)
    (heq : s.sfs_truncfile n len = some (.error ret, s')) :
    Unaltered n s s' ↔ FailsAtOnce n len s := by
  unfold FailsAtOnce
  set tblks := ROUNDUP_DIV_2N len.toNat PGSHIFT with htblks
  rw [sfs_truncfile] at heq
  by_cases hbad : len.toInt < 0 ∨ len.toNat > SFS_MAX_FILE_SIZE
  · rw [if_pos hbad] at heq
    cases heq
    exact iff_of_true ⟨rfl, rfl, fun _ => rfl⟩ (or_assoc.mp (.inl hbad))
  rw [if_neg hbad] at heq
  rw [← or_assoc, or_iff_right hbad]
  by_cases hsize : (s.sin n).din.size = len.toNat
  · split_ifs at heq
    cases heq
  rw [if_neg hsize] at heq
  simp only [bind_eq_bind, bind_eq_some_iff, Prod.exists] at heq
  obtain ⟨r1, s1, hresize, heq⟩ := heq
  cases r1 with
  | ok u =>
    simp only [bind_eq_some_iff] at heq
    obtain ⟨_, -, heq⟩ := heq
    cases heq
  | error e =>
    cases heq
    rw [sfs_truncfile.resize] at hresize
    by_cases hlt : (s.sin n).din.blocks < tblks
    · rw [if_pos hlt] at hresize
      rw [enlarge_error h hn hresize]
      simp only [hlt, true_and, not_lt_of_gt hlt, false_and, or_false]
    · rw [if_neg hlt] at hresize
      rw [reduce_error h hn (Nat.sub_le _ _) hresize]
      have hgt : tblks < (s.sin n).din.blocks := by
        refine lt_of_le_of_ne (not_lt.mp hlt) fun hsame => ?_
        rw [← hsame, Nat.sub_self] at hresize
        cases hresize
      simp only [hlt, false_and, false_or, hgt, true_and]

theorem emptyFile_short_of_blocks : ∃ ret s',
    emptyFile.sfs_truncfile 3 0x5000 = some (.error ret, s') ∧ (s'.sin 3).din.blocks = 4 ∧
      s'.sfs_truncfile 3 0 = none := by
  have hrun : (emptyFile.sfs_truncfile 3 0x5000).map (fun r => (r.1.toOption.isNone,
      (r.2.sin 3).din.blocks, (r.2.sfs_truncfile 3 0).isNone)) = some (true, 4, true) := by
    decide +kernel
  obtain ⟨⟨r, s'⟩, heq, hrun⟩ := Option.map_eq_some_iff.mp hrun
  simp only [Prod.mk.injEq, Option.isNone_iff_eq_none] at hrun
  cases r with
  | ok u => cases hrun.1
  | error ret => exact ⟨ret, s', heq, hrun.2⟩

/-- A file of no bytes is to get five blocks where four are free: the call fails and leaves it with
four blocks. The next call that asks for no bytes fails the assertion about the blocks. -/
theorem truncfile_half_done : emptyFile.Consistent {3} ∧ ∃ ret s',
    emptyFile.sfs_truncfile 3 0x5000 = some (.error ret, s') ∧ ¬Unaltered 3 emptyFile s' ∧
      s'.sfs_truncfile 3 0 = none := by
  obtain ⟨ret, s', heq, hblocks, hnone⟩ := emptyFile_short_of_blocks
  refine ⟨emptyFile_consistent, ret, s', heq, fun hsame => ?_, hnone⟩
  have hzero : (s'.sin 3).din.blocks = 0 := hsame.blocks
  omega

theorem truncfile_error_short_of_blocks : ∃ ret s',
    emptyFile.sfs_truncfile 3 0x5000 = some (.error ret, s') ∧
      (Unaltered 3 emptyFile s' ↔ FailsAtOnce 3 0x5000 emptyFile) := by
  obtain ⟨ret, s', heq, -⟩ := emptyFile_short_of_blocks
  exact ⟨ret, s', heq, truncfile_error emptyFile_consistent (by decide) heq⟩

end ucore.sfs_fs
