import Mips32S.Cpu.Mmu

namespace mips32s.Isa

/-- One page of a TLB entry: its frame number, and whether it is writable and valid. -/
structure Page where
  pfn : BitVec 20
  d : Bool
  v : Bool
  deriving DecidableEq

/-- An entry maps a pair of adjacent pages. -/
structure TlbEntry where
  vpn2 : BitVec 19
  odd : Page
  even : Page
  deriving DecidableEq

namespace TlbEntry

def page (x : TlbEntry) (vaddr : Word) : Page := if vaddr.getLsbD 12 then x.odd else x.even

def Matches (x : TlbEntry) (vaddr : Word) : Prop := x.vpn2 = vaddr.extractLsb' 13 19

instance (x : TlbEntry) (vaddr : Word) : Decidable (x.Matches vaddr) :=
  inferInstanceAs (Decidable (_ = _))

def unpack (w : BitVec 63) : TlbEntry where
  vpn2 := w.extractLsb' 44 19
  odd := ⟨w.extractLsb' 24 20, w.getLsbD 23, w.getLsbD 22⟩
  even := ⟨w.extractLsb' 2 20, w.getLsbD 1, w.getLsbD 0⟩

end TlbEntry

/-- The lowest-numbered entry that matches an address. -/
def probe (tlb : Fin 16 → TlbEntry) (vaddr : Word) : Option (Fin 16) :=
  (List.finRange 16).find? fun j => decide ((tlb j).Matches vaddr)

/-- The page an address translates to. -/
def lookup (tlb : Fin 16 → TlbEntry) (vaddr : Word) : Option Page :=
  (probe tlb vaddr).map fun j => (tlb j).page vaddr

/-- The address lies in a segment translated by the TLB. -/
def Mapped (vaddr : Word) : Prop := vaddr.toNat < 0x80000000 ∨ 0xC0000000 ≤ vaddr.toNat

instance (vaddr : Word) : Decidable (Mapped vaddr) := inferInstanceAs (Decidable (_ ∨ _))

variable {tlb : Fin 16 → TlbEntry} {vaddr vaddr' : Word} {j : Fin 16}

theorem probe_eq_some_iff :
    probe tlb vaddr = some j ↔ (tlb j).Matches vaddr ∧ ∀ k < j, ¬ (tlb k).Matches vaddr := by
  rw [probe, List.find?_eq_some_iff_getElem]
  simp only [decide_eq_true_eq, List.getElem_finRange, List.length_finRange, Bool.not_eq_true',
    decide_eq_false_iff_not]
  refine and_congr_right fun _ =>
    ⟨?_, fun h => ⟨j, j.isLt, by simp, fun k hk => h ⟨k, by omega⟩ hk⟩⟩
  rintro ⟨k, hk, rfl, hbefore⟩ i hi
  exact hbefore i hi

theorem probe_eq_none_iff : probe tlb vaddr = none ↔ ∀ k, ¬ (tlb k).Matches vaddr := by
  simp [probe, List.find?_eq_none]

theorem probe_congr (h : vaddr.extractLsb' 13 19 = vaddr'.extractLsb' 13 19) :
    probe tlb vaddr = probe tlb vaddr' := by
  have hmatch : ∀ j, (tlb j).Matches vaddr ↔ (tlb j).Matches vaddr' := fun j => by
    rw [TlbEntry.Matches, TlbEntry.Matches, h]
  simp only [probe, hmatch]

end mips32s.Isa

namespace mips32s

open Isa vir2phy

def ExceptType.isTlb : ExceptType → Bool
  | .tlbl_inst | .tlb_modify | .tlbl_data | .tlbs => true
  | _ => false

/-- The TLB as the instruction set sees it. -/
def mmu.State.tlb (s : mmu.State) : Fin 16 → TlbEntry := fun j => .unpack (s.tlb_entry j)

variable (s : mmu.State) (vaddr : Word) (held : Fin 16)

theorem is_kseg0_kseg1_iff : is_kseg0_kseg1 vaddr = true ↔ ¬ Mapped vaddr := by
  have hlt := vaddr.isLt
  unfold is_kseg0_kseg1 Mapped
  simp only [Bool.or_eq_true, beq_iff_eq, ← BitVec.toNat_inj, BitVec.extractLsb'_toNat,
    BitVec.toNat_ofNat, Nat.shiftRight_eq_div_pow]
  omega

theorem is_kseg0_kseg1_of_mapped (h : Mapped vaddr) : is_kseg0_kseg1 vaddr = false := by
  rwa [Bool.eq_false_iff, Ne, is_kseg0_kseg1_iff, not_not]

theorem tlb_miss_eq : tlb_miss s.tlb_entry vaddr = (probe s.tlb vaddr).isNone := by
  rw [tlb_miss, Bool.eq_iff_iff, Option.isNone_iff_eq_none, probe_eq_none_iff]
  simp [hit, mmu.State.tlb, TlbEntry.Matches, TlbEntry.unpack]

theorem hit_index_eq {j : Fin 16} (h : probe s.tlb vaddr = some j) :
    hit_index s.tlb_entry vaddr held = j := by
  have hfind : (List.finRange 16).find? (hit s.tlb_entry vaddr) = some j := h
  rw [hit_index, hfind]
  rfl

theorem V_eq (w : BitVec 63) : V w vaddr = ((TlbEntry.unpack w).page vaddr).v := by
  unfold V TlbEntry.page TlbEntry.unpack
  split_ifs <;> rfl

theorem D_eq (w : BitVec 63) : D w vaddr = ((TlbEntry.unpack w).page vaddr).d := by
  unfold D TlbEntry.page TlbEntry.unpack
  split_ifs <;> rfl

theorem PFN_eq (w : BitVec 63) : PFN w vaddr = ((TlbEntry.unpack w).page vaddr).pfn := by
  unfold PFN TlbEntry.page TlbEntry.unpack
  split_ifs <;> rfl

theorem missing_eq : mmu.missing s.tlb_entry vaddr held = !(lookup s.tlb vaddr).any Page.v := by
  rw [mmu.missing, tlb_miss_eq, lookup]
  cases hprobe : probe s.tlb vaddr with
  | none => rfl
  | some j =>
    rw [hit_index_eq s vaddr held hprobe, V_eq]
    rfl

/-- The translation of an address: the page of the lowest-numbered entry that matches,
in the half that address bit 12 selects, or a miss when no entry matches. -/
structure Translates (tlb : Fin 16 → TlbEntry) : Prop where
  found : ∀ j, (tlb j).Matches vaddr → (∀ k < j, ¬ (tlb k).Matches vaddr) →
    tlb_miss s.tlb_entry vaddr = false ∧
      physical_addr s.tlb_entry vaddr held = ((tlb j).page vaddr).pfn ++ vaddr.extractLsb' 0 12 ∧
      V (s.tlb_entry (hit_index s.tlb_entry vaddr held)) vaddr = ((tlb j).page vaddr).v ∧
      D (s.tlb_entry (hit_index s.tlb_entry vaddr held)) vaddr = ((tlb j).page vaddr).d
  missed : (∀ j, ¬ (tlb j).Matches vaddr) → tlb_miss s.tlb_entry vaddr = true

theorem translates (h : Mapped vaddr) : Translates s vaddr held s.tlb where
  found j hj hbefore := by
    have hprobe : probe s.tlb vaddr = some j := probe_eq_some_iff.mpr ⟨hj, hbefore⟩
    have hindex := hit_index_eq s vaddr held hprobe
    refine ⟨?_, ?_, ?_, ?_⟩
    · rw [tlb_miss_eq, hprobe]
      rfl
    · rw [physical_addr, is_kseg0_kseg1_of_mapped vaddr h, physical_addr_tlb, hindex, PFN_eq]
      rfl
    · rw [hindex, V_eq]
      rfl
    · rw [hindex, D_eq]
      rfl
  missed hnone := by
    rw [tlb_miss_eq, probe_eq_none_iff.mpr hnone]
    rfl

end mips32s
