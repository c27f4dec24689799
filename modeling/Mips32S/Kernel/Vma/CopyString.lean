import Mips32S.Kernel.Vma.UserMemory
import Mips32S.Kernel.Vma.Mapping

open Option List BitVec
open BitVec (ofNat add_assoc)

namespace ucore

/-- What a copy does with user memory and with its buffer. -/
inductive CopyEvent
  | check (addr : BitVec 32) (len : ℕ) (ok : Bool)
  | read (addr : BitVec 32)
  | write (offset : ℕ) (byte : BitVec 8)

section

-- the bytes of user memory
variable (mem : BitVec 32 → BitVec 8)

def strnlen (s : BitVec 32) : ℕ → ℕ × List CopyEvent
  | 0 => (0, [])
  | len + 1 =>
    if mem s = 0 then (0, [.read s])
    else ((strnlen (s + 1) len).1 + 1, .read s :: (strnlen (s + 1) len).2)

def memcpy (dst : ℕ) (src : BitVec 32) : ℕ → List CopyEvent
  | 0 => []
  | n + 1 => .read src :: .write dst (mem src) :: memcpy (dst + 1) (src + 1) n

/-- The loop of `copy_string`; `none` when the fuel is used up. -/
def copy_string.loop (kmemsize : BitVec 32) :
    ℕ → ℕ → ℕ → BitVec 32 → ℕ → mm_struct → Option (Bool × List CopyEvent × mm_struct)
  | 0, _, _, _, _, _ => none
  | fuel + 1, part, dst, src, maxn, mm =>
    let part := if maxn < part then maxn else part
    (user_mem_check kmemsize (some mm) src (ofNat 32 part) false).bind fun (ok, mm') =>
      let mm := mm'.getD mm
      if ok then
        let (alen, reads) := strnlen mem src part
        let seen := .check src part true :: reads
        if alen < part then some (true, seen ++ memcpy mem dst src (alen + 1), mm)
        else if part = maxn then some (false, seen, mm)
        else
          (copy_string.loop kmemsize fuel PGSIZE (dst + part) (src + ofNat 32 part)
            (maxn - part) mm).map fun (ok, rest, mm) =>
              (ok, seen ++ memcpy mem dst src part ++ rest, mm)
      else some (false, [.check src part false], mm)

/-- Every round but the last copies at least one byte. -/
def copy_string (kmemsize : BitVec 32) (src maxn : BitVec 32) (mm : mm_struct) :
    Option (Bool × List CopyEvent × mm_struct) :=
  copy_string.loop mem kmemsize (maxn.toNat + 1)
    (ROUNDDOWN_2N (src + ofNat 32 PGSIZE) PGSHIFT - src).toNat 0 src maxn.toNat mm

end

/-- The offsets and bytes that a copy has written, in their order. -/
def CopyEvent.writes (l : List CopyEvent) : List (ℕ × BitVec 8) :=
  l.filterMap fun
    | .write offset byte => some (offset, byte)
    | _ => none

/-- Every byte that is read lies in a range that was checked before and accepted. -/
def CopyEvent.Guarded (l : List CopyEvent) : Prop :=
  ∀ pre a post, l = pre ++ .read a :: post →
    ∃ b n, .check b n true ∈ pre ∧ ∃ i < n, a = b + ofNat 32 i

/-- The first `n` bytes at `src`, at the offsets from `dst`. -/
def copied (mem : BitVec 32 → BitVec 8) (dst : ℕ) (src : BitVec 32) (n : ℕ) :
    List (ℕ × BitVec 8) :=
  (range n).map fun j => (dst + j, mem (src + ofNat 32 j))

structure mm_struct.Aligned (mm : mm_struct) : Prop where
  vm_start : ∀ v ∈ mm.mmap_list, v.vm_start.toNat % PGSIZE = 0
  vm_end : ∀ v ∈ mm.mmap_list, v.vm_end.toNat % PGSIZE = 0

/-- A byte of user space that the user may read. -/
def mm_struct.Readable (mm : mm_struct) (a : BitVec 32) : Prop :=
  USERBASE ≤ a ∧ a < USERTOP ∧ ∃ v ∈ mm.mmap_list, v.vm_start ≤ a ∧ a < v.vm_end ∧
    v.vm_flags &&& VM_READ ≠ 0#32

variable {mem : BitVec 32 → BitVec 8} {mm mm' : mm_struct} {src s a : BitVec 32}
  {dst n len i maxn part j k fuel : ℕ} {rest : List CopyEvent}

theorem add_ofNat_succ (s : BitVec 32) (j : ℕ) :
    s + ofNat 32 (j + 1) = s + 1 + ofNat 32 j := by
  bv_omega

theorem strnlen_le (s : BitVec 32) (len : ℕ) : (strnlen mem s len).1 ≤ len := by
  induction len generalizing s with
  | zero => exact le_refl 0
  | succ len ih =>
    rw [strnlen]
    split_ifs
    · exact Nat.zero_le _
    · exact Nat.succ_le_succ (ih (s + 1))

theorem strnlen_ne_zero (hj : j < (strnlen mem s len).1) : mem (s + ofNat 32 j) ≠ 0 := by
  induction len generalizing s j with
  | zero => cases hj
  | succ len ih =>
    rw [strnlen] at hj
    split_ifs at hj with hs
    · cases hj
    · cases j with
      | zero => simpa using hs
      | succ j =>
        rw [add_ofNat_succ]
        exact ih (Nat.lt_of_succ_lt_succ hj)

theorem strnlen_eq_zero (h : (strnlen mem s len).1 < len) :
    mem (s + ofNat 32 (strnlen mem s len).1) = 0 := by
  induction len generalizing s with
  | zero => cases h
  | succ len ih =>
    rw [strnlen] at h ⊢
    split_ifs at h ⊢ with hs
    · simpa using hs
    · rw [add_ofNat_succ]
      exact ih (Nat.lt_of_succ_lt_succ h)

theorem strnlen_reads {e : CopyEvent} (he : e ∈ (strnlen mem s len).2) :
    ∃ i < len, e = .read (s + ofNat 32 i) := by
  induction len generalizing s with
  | zero => cases he
  | succ len ih =>
    have hfirst : ∃ i < len + 1, CopyEvent.read s = .read (s + ofNat 32 i) :=
      ⟨0, len.succ_pos, by simp⟩
    rw [strnlen] at he
    split_ifs at he
    · rwa [mem_singleton.mp he]
    · rcases mem_cons.mp he with rfl | he
      · exact hfirst
      · obtain ⟨i, hi, rfl⟩ := ih he
        exact ⟨i + 1, Nat.succ_lt_succ hi, by rw [add_ofNat_succ]⟩

theorem memcpy_reads (h : .read a ∈ memcpy mem dst src n) :
    ∃ i < n, a = src + ofNat 32 i := by
  induction n generalizing dst src with
  | zero => cases h
  | succ n ih =>
    rcases mem_cons.mp h with heq | h
    · cases heq
      exact ⟨0, n.succ_pos, by simp⟩
    · rcases mem_cons.mp h with heq | h
      · cases heq
      · obtain ⟨i, hi, rfl⟩ := ih h
        exact ⟨i + 1, Nat.succ_lt_succ hi, by rw [add_ofNat_succ]⟩

theorem copied_add (m n : ℕ) :
    copied mem dst src (m + n) =
      copied mem dst src m ++ copied mem (dst + m) (src + ofNat 32 m) n := by
  rw [copied, copied, copied, range_add, map_append, List.map_map]
  congr 1
  apply map_congr_left
  intro j _
  rw [Function.comp_apply, ofNat_add, add_assoc, Nat.add_assoc]

theorem memcpy_writes : CopyEvent.writes (memcpy mem dst src n) = copied mem dst src n := by
  induction n generalizing dst src with
  | zero => rfl
  | succ n ih =>
    have hone : copied mem dst src 1 = [(dst, mem src)] := by simp [copied]
    have hsplit : copied mem dst src (n + 1) =
        (dst, mem src) :: copied mem (dst + 1) (src + ofNat 32 1) n := by
      rw [Nat.add_comm n 1, copied_add, hone, singleton_append]
    rw [hsplit, ← ih]
    rfl

theorem writes_strnlen : CopyEvent.writes (strnlen mem s len).2 = [] := by
  apply filterMap_eq_nil_iff.mpr
  intro e he
  obtain ⟨i, -, rfl⟩ := strnlen_reads he
  rfl

theorem CopyEvent.Guarded.round (src : BitVec 32) (part : ℕ) {l : List CopyEvent}
    (hl : ∀ a, .read a ∈ l → ∃ i < part, a = src + ofNat 32 i) (hrest : Guarded rest) :
    Guarded (.check src part true :: l ++ rest) := by
  intro pre a post heq
  cases pre with
  | nil => cases heq
  | cons e pre =>
    rw [List.cons_append, List.cons_append, List.cons.injEq] at heq
    obtain ⟨rfl, heq⟩ := heq
    rcases append_eq_append_iff.mp heq with ⟨mid, rfl, hmid⟩ | ⟨mid, hl', hmid⟩
    · -- the read belongs to a later round
      obtain ⟨b, n, hmem, hi⟩ := hrest mid a post hmid
      exact ⟨b, n, mem_cons_of_mem _ (mem_append_right _ hmem), hi⟩
    · cases mid with
      | nil =>
        obtain ⟨b, n, hmem, -⟩ := hrest [] a post hmid.symm
        cases hmem
      | cons e mid =>
        cases hmid
        refine ⟨src, part, mem_cons_self, hl a ?_⟩
        rw [hl']
        exact mem_append_right _ mem_cons_self

theorem CopyEvent.Guarded.nil : Guarded [] := by
  intro pre a post heq
  exact absurd heq (by simp)

namespace mm_struct.Aligned

variable (h : mm.Aligned)
include h

theorem readable_page (hr : mm.Readable src) (hi : src.toNat % PGSIZE + i < PGSIZE) :
    mm.Readable (src + ofNat 32 i) := by
  obtain ⟨hbase, htop, v, hv, hlo, hhi, hflag⟩ := hr
  have hs : v.vm_start.toNat % 4096 = 0 := h.vm_start v hv
  have he : v.vm_end.toNat % 4096 = 0 := h.vm_end v hv
  have hi : src.toNat % 4096 + i < 4096 := hi
  have htop' : src.toNat < 0x80000000 := lt_def.mp htop
  have hadd : (src + ofNat 32 i).toNat = src.toNat + i := by
    rw [toNat_add, toNat_ofNat]
    omega
  rw [le_def] at hbase hlo
  rw [lt_def] at hhi
  have hU : USERTOP.toNat = 0x80000000 := rfl
  refine ⟨le_def.mpr ?_, lt_def.mpr ?_, v, hv, le_def.mpr ?_, lt_def.mpr ?_, hflag⟩
  all_goals rw [hadd]; omega

theorem allowsRange_iff (hpos : 0 < part) (hpart : src.toNat % PGSIZE + part ≤ PGSIZE) :
    mm.AllowsRange src (ofNat 32 part) false ↔ mm.Readable src := by
  have hpart : src.toNat % 4096 + part ≤ 4096 := hpart
  have hlen : (ofNat 32 part).toNat = part := by
    rw [toNat_ofNat]
    omega
  have hU : USERTOP.toNat = 0x80000000 := rfl
  constructor
  · rintro ⟨-, hbase, htop, hbytes⟩
    obtain ⟨⟨v, hv, hva, hflag⟩, -⟩ := hbytes src.toNat le_rfl (by omega)
    exact ⟨le_def.mpr hbase, lt_def.mpr (by omega), v, hv, le_def.mpr hva.1,
      lt_def.mpr hva.2, hflag⟩
  · intro hr
    have htop : src.toNat < 0x80000000 := lt_def.mp hr.2.1
    refine ⟨by omega, le_def.mp hr.1, by omega, ?_⟩
    intro a hlo hhi
    have hi : src.toNat % 4096 + (a - src.toNat) < 4096 := by omega
    obtain ⟨-, -, v, hv, hvlo, hvhi, hflag⟩ := h.readable_page hr hi
    have hadd : (src + ofNat 32 (a - src.toNat)).toNat = a := by
      rw [toNat_add, toNat_ofNat]
      omega
    rw [le_def, hadd] at hvlo
    rw [lt_def, hadd] at hvhi
    refine ⟨⟨v, hv, ⟨hvlo, hvhi⟩, hflag⟩, ?_⟩
    rintro ⟨⟩

end mm_struct.Aligned

/-- `k` is the place of a NUL byte that is reached over readable bytes only. -/
def mm_struct.Terminated (mm : mm_struct) (mem : BitVec 32 → BitVec 8) (src : BitVec 32) (k : ℕ) :
    Prop :=
  mem (src + ofNat 32 k) = 0 ∧ ∀ j ≤ k, mm.Readable (src + ofNat 32 j)

/-- What a copy of at most `maxn` bytes does: it succeeds exactly if there is a NUL byte to reach;
what it writes is the beginning of the string, on success all of it with its NUL byte; and it reads
only what was checked. -/
structure Copies (mm : mm_struct) (mem : BitVec 32 → BitVec 8) (dst : ℕ) (src : BitVec 32)
    (maxn : ℕ) (ok : Bool) (l : List CopyEvent) : Prop where
  ok_iff : ok = true ↔ ∃ k < maxn, mm.Terminated mem src k
  writes : ∃ m ≤ maxn, CopyEvent.writes l = copied mem dst src m ∧
    (ok = true → ∃ k, m = k + 1 ∧ mm.Terminated mem src k ∧
      ∀ j < k, mem (src + ofNat 32 j) ≠ 0)
  guarded : CopyEvent.Guarded l

theorem mm_struct.Readable.congr (hlist : mm'.mmap_list = mm.mmap_list) :
    mm'.Readable a ↔ mm.Readable a := by
  rw [mm_struct.Readable, mm_struct.Readable, hlist]

theorem terminated_add (hread : ∀ i < n, mm.Readable (src + ofNat 32 i)) :
    mm.Terminated mem src (n + k) ↔ mm.Terminated mem (src + ofNat 32 n) k := by
  have hadd : ∀ j, src + ofNat 32 (n + j) = src + ofNat 32 n + ofNat 32 j := by
    intro j
    rw [ofNat_add, add_assoc]
  rw [mm_struct.Terminated, mm_struct.Terminated, hadd]
  refine and_congr_right fun _ => ⟨?_, ?_⟩
  · intro hall j hj
    rw [← hadd]
    exact hall (n + j) (by omega)
  · intro hall j hj
    by_cases hjn : j < n
    · exact hread j hjn
    · have hback := hall (j - n) (by omega)
      rwa [← hadd, Nat.add_sub_cancel' (by omega)] at hback

section
variable (hn : n ≤ maxn) (hread : ∀ i < n, mm.Readable (src + ofNat 32 i))
include hn hread

theorem Copies.last (hc : (strnlen mem src n).1 < n) :
    Copies mm mem dst src maxn true (.check src n true :: (strnlen mem src n).2 ++
      memcpy mem dst src ((strnlen mem src n).1 + 1)) := by
  have hterm : mm.Terminated mem src (strnlen mem src n).1 :=
    ⟨strnlen_eq_zero hc, fun j hj => hread j (hj.trans_lt hc)⟩
  refine ⟨iff_of_true rfl ⟨_, hc.trans_le hn, hterm⟩, ?_, ?_⟩
  · refine ⟨_, by omega, ?_, fun _ => ⟨_, rfl, hterm, fun j => strnlen_ne_zero⟩⟩
    rw [← memcpy_writes]
    simp only [CopyEvent.writes, List.cons_append, filterMap_cons, filterMap_append]
    exact congrArg (· ++ _) writes_strnlen
  · have hround := CopyEvent.Guarded.round src n
      (l := (strnlen mem src n).2 ++ memcpy mem dst src ((strnlen mem src n).1 + 1)) ?_
      CopyEvent.Guarded.nil
    · simpa using hround
    · intro a ha
      rcases mem_append.mp ha with ha | ha
      · obtain ⟨i, hi, heq⟩ := strnlen_reads ha
        cases heq
        exact ⟨i, hi, rfl⟩
      · obtain ⟨i, hi, heq⟩ := memcpy_reads ha
        exact ⟨i, by omega, heq⟩

omit hn hread in
theorem Copies.bound (hc : (strnlen mem src n).1 = n) :
    Copies mm mem dst src n false (.check src n true :: (strnlen mem src n).2) := by
  refine ⟨iff_of_false Bool.false_ne_true ?_, ?_, ?_⟩
  · rintro ⟨k, hk, hzero, -⟩
    exact strnlen_ne_zero (hc.symm ▸ hk) hzero
  · refine ⟨0, n.zero_le, ?_, fun heq => absurd heq Bool.false_ne_true⟩
    exact writes_strnlen
  · have hround := CopyEvent.Guarded.round src n (l := (strnlen mem src n).2) ?_
      CopyEvent.Guarded.nil
    · simpa using hround
    · intro a ha
      obtain ⟨i, hi, heq⟩ := strnlen_reads ha
      cases heq
      exact ⟨i, hi, rfl⟩

theorem Copies.more {ok : Bool} (hc : (strnlen mem src n).1 = n)
    (hrest : Copies mm mem (dst + n) (src + ofNat 32 n) (maxn - n) ok rest) :
    Copies mm mem dst src maxn ok (.check src n true :: (strnlen mem src n).2 ++
      memcpy mem dst src n ++ rest) := by
  have hne : ∀ j < n, mem (src + ofNat 32 j) ≠ 0 := fun j hj =>
    strnlen_ne_zero (hc.symm ▸ hj)
  refine ⟨hrest.ok_iff.trans ⟨?_, ?_⟩, ?_, ?_⟩
  · rintro ⟨k, hk, hterm⟩
    exact ⟨n + k, by omega, (terminated_add hread).mpr hterm⟩
  · rintro ⟨k, hk, hterm⟩
    have hle : n ≤ k := by
      by_contra hlt
      exact hne k (by omega) hterm.1
    obtain ⟨k, rfl⟩ := Nat.exists_eq_add_of_le hle
    exact ⟨k, by omega, (terminated_add hread).mp hterm⟩
  · obtain ⟨m, hm, hwrites, hdone⟩ := hrest.writes
    refine ⟨n + m, by omega, ?_, ?_⟩
    · rw [copied_add, ← hwrites, ← memcpy_writes]
      simp only [CopyEvent.writes, List.cons_append, filterMap_cons, filterMap_append]
      rw [show filterMap _ (strnlen mem src n).2 = [] from writes_strnlen]
      rfl
    · intro hok
      obtain ⟨k, rfl, hterm, hk⟩ := hdone hok
      refine ⟨n + k, by omega, (terminated_add hread).mpr hterm, ?_⟩
      intro j hj
      by_cases hjn : j < n
      · exact hne j hjn
      · have hback := hk (j - n) (by omega)
        rwa [add_assoc, ← ofNat_add, Nat.add_sub_cancel' (by omega)] at hback
  · have hround := CopyEvent.Guarded.round src n
      (l := (strnlen mem src n).2 ++ memcpy mem dst src n) ?_ hrest.guarded
    · simpa using hround
    · intro a ha
      rcases mem_append.mp ha with ha | ha
      · obtain ⟨i, hi, heq⟩ := strnlen_reads ha
        cases heq
        exact ⟨i, hi, rfl⟩
      · exact memcpy_reads ha

end

theorem copy_string_loop (mem : BitVec 32 → BitVec 8) (kmemsize : BitVec 32) (dst : ℕ)
    (h : mm.Searchable) (ha : mm.Aligned) (hpart : src.toNat % PGSIZE + part = PGSIZE)
    (hpos : 0 < maxn) (hfuel : maxn < fuel) :
    ∃ ok l mm', copy_string.loop mem kmemsize fuel part dst src maxn mm = some (ok, l, mm') ∧
      Copies mm mem dst src maxn ok l := by
  induction fuel generalizing part dst src maxn mm with
  | zero => omega
  | succ fuel ih =>
    have hpage : src.toNat % 4096 + part = 4096 := hpart
    have hsrc := src.isLt
    simp only [copy_string.loop]
    set n := if maxn < part then maxn else part with hn
    have hn' : 0 < n ∧ n ≤ maxn ∧ n ≤ part ∧ (n ≠ maxn → n = part) := by
      rw [hn]
      split_ifs <;> omega
    clear_value n
    obtain ⟨hn0, hnmax, hnpart, hnfull⟩ := hn'
    obtain ⟨ok, mm', hcheck, h', hlist, hok⟩ := h.check_spec kmemsize src (ofNat 32 n) false
    rw [ha.allowsRange_iff hn0 (by omega)] at hok
    rw [hcheck, bind_some]
    cases ok with
    | false =>
      have hnot : ¬ mm.Readable src := fun hr => Bool.false_ne_true (hok.mpr hr)
      refine ⟨false, _, _, rfl, ⟨iff_of_false Bool.false_ne_true ?_, ?_, ?_⟩⟩
      · rintro ⟨k, -, -, hread⟩
        exact hnot (by simpa using hread 0 k.zero_le)
      · exact ⟨0, maxn.zero_le, rfl, fun heq => absurd heq Bool.false_ne_true⟩
      · intro pre a post heq
        cases pre with
        | nil => cases heq
        | cons e pre => exact absurd (List.cons.inj heq).2 (by simp)
    | true =>
      have hr : mm.Readable src := hok.mp rfl
      have hread : ∀ i < n, mm.Readable (src + ofNat 32 i) := by
        intro i hi
        exact ha.readable_page hr (by omega)
      by_cases hc : (strnlen mem src n).1 < n
      · rw [if_pos hc]
        exact ⟨true, _, _, rfl, .last hnmax hread hc⟩
      have hc' : (strnlen mem src n).1 = n := le_antisymm (strnlen_le src n) (not_lt.mp hc)
      rw [if_neg hc]
      by_cases hmax : n = maxn
      · rw [if_pos hmax]
        subst hmax
        exact ⟨false, _, _, rfl, .bound hc'⟩
      · rw [if_neg hmax, getD_some]
        have hn := hnfull hmax
        have ha' : mm'.Aligned := by
          constructor <;> rw [hlist]
          · exact ha.vm_start
          · exact ha.vm_end
        have hnext : (src + ofNat 32 n).toNat % PGSIZE + PGSIZE = PGSIZE := by
          change (src + ofNat 32 n).toNat % 4096 + 4096 = 4096
          rw [toNat_add, toNat_ofNat]
          omega
        obtain ⟨ok, l, mm2, hloop, hcopies⟩ := ih (dst + n) h' ha' hnext
          (show 0 < maxn - n by omega) (by omega)
        rw [hloop]
        refine ⟨ok, _, mm2, rfl, .more hnmax hread hc' ?_⟩
        have hterm : ∀ k, mm'.Terminated mem (src + ofNat 32 n) k ↔
            mm.Terminated mem (src + ofNat 32 n) k := by
          intro k
          simp only [mm_struct.Terminated, mm_struct.Readable.congr hlist]
        obtain ⟨hiff, hwrites, hguard⟩ := hcopies
        simp only [hterm] at hiff hwrites
        exact ⟨hiff, hwrites, hguard⟩

/-- Copying a string succeeds exactly when a NUL byte is among the first `maxn` bytes and can be
reached over readable bytes; it then has written the string with its NUL byte and nothing else. In
no case does it read a byte that it did not check or write more than `maxn` bytes. -/
theorem copy_string_exact (h : mm.Searchable) (ha : mm.Aligned) (mem : BitVec 32 → BitVec 8)
    (kmemsize src maxn : BitVec 32) (hmaxn : 0 < maxn) :
    ∃ ok l mm', copy_string mem kmemsize src maxn mm = some (ok, l, mm') ∧
      (ok = true ↔ ∃ k < maxn.toNat, mem (src + ofNat 32 k) = 0 ∧
        ∀ j ≤ k, mm.Readable (src + ofNat 32 j)) ∧
      (ok = true → ∃ k < maxn.toNat, mem (src + ofNat 32 k) = 0 ∧
        (∀ j < k, mem (src + ofNat 32 j) ≠ 0) ∧
        CopyEvent.writes l = copied mem 0 src (k + 1)) ∧
      CopyEvent.Guarded l ∧
      ∃ m ≤ maxn.toNat, CopyEvent.writes l = copied mem 0 src m := by
  have hpart : src.toNat % PGSIZE +
      (ROUNDDOWN_2N (src + ofNat 32 PGSIZE) PGSHIFT - src).toNat = PGSIZE := by
    have hlt := src.isLt
    change src.toNat % 4096 + _ = 4096
    rw [toNat_sub, toNat_ROUNDDOWN_2N, toNat_add]
    change _ + (2 ^ 32 - src.toNat + (src.toNat + 4096) % 2 ^ 32 / 4096 * 4096) % 2 ^ 32 = _
    omega
  obtain ⟨ok, l, mm', hloop, hiff, ⟨m, hm, hwrites, hdone⟩, hguard⟩ :=
    copy_string_loop mem kmemsize 0 h ha hpart (lt_def.mp hmaxn)
      (Nat.lt_succ_self _)
  refine ⟨ok, l, mm', hloop, hiff, ?_, hguard, m, hm, hwrites⟩
  intro hok
  obtain ⟨k, rfl, hterm, hne⟩ := hdone hok
  exact ⟨k, hm, hterm.1, hne, hwrites⟩

/-- A string of four bytes over the boundary of two pages. -/
theorem copy_string_exact_boundary :
    ∃ mm : mm_struct, mm.Searchable ∧ mm.Aligned ∧ ∃ l mm', ∃ k < 10,
      copy_string (fun a => if a = 0x20001002#32 then 0 else 65) 0x2000000#32 0x20000ffe#32 10#32
        mm =
        some (true, l, mm') ∧
      CopyEvent.writes l =
        copied (fun a => if a = 0x20001002#32 then 0 else 65) 0 0x20000ffe#32 (k + 1) := by
  have h : mm_struct.Searchable ⟨[⟨0x20000000#32, 0x20002000#32, VM_READ⟩], none, none, 1⟩ :=
    ⟨by decide, by simp⟩
  have ha : mm_struct.Aligned ⟨[⟨0x20000000#32, 0x20002000#32, VM_READ⟩], none, none, 1⟩ :=
    ⟨by decide, by decide⟩
  obtain ⟨ok, l, mm', hcopy, -, hdone, -⟩ := copy_string_exact h ha
    (fun a => if a = 0x20001002#32 then 0 else 65) 0x2000000#32 0x20000ffe#32 10#32 (by decide)
  have hok : (copy_string (fun a => if a = 0x20001002#32 then 0 else 65) 0x2000000#32 0x20000ffe#32
      10#32 ⟨[⟨0x20000000#32, 0x20002000#32, VM_READ⟩], none, none, 1⟩).map Prod.fst =
        some true := by
    decide
  rw [hcopy] at hok
  obtain rfl : ok = true := some.inj hok
  obtain ⟨k, hk, -, -, hwrites⟩ := hdone rfl
  exact ⟨_, h, ha, l, mm', k, hk, hcopy, hwrites⟩

end ucore
