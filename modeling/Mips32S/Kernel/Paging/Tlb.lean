import Mips32S.Isa.TlbUnit
import Mips32S.Kernel.Paging.Pte

open mips32s.Isa Function

namespace ucore

def THUMIPS_TLB_ENTRYL_G : BitVec 32 := 1#32 <<< 0

def THUMIPS_TLB_ENTRYL_V : BitVec 32 := 1#32 <<< 1

def THUMIPS_TLB_ENTRYL_D : BitVec 32 := 1#32 <<< 2

def THUMIPS_TLB_ENTRYH_VPN2_MASK : BitVec 32 := ~~~0x1fff#32

/-- The processor has no page mask, so the write of it has no effect. -/
def write_one_tlb (index hi low0 low1 : BitVec 32) (u : TlbUnit) : TlbUnit :=
  ((((u.exec (.entryLo0 low0)).exec (.entryLo1 low1)).exec (.entryHi hi)).exec
    (.index index)).exec .tlbwi

def tlb_replace_random (random : BitVec 4) (hi low0 low1 : BitVec 32) (u : TlbUnit) : TlbUnit :=
  (((u.exec (.entryLo0 low0)).exec (.entryLo1 low1)).exec (.entryHi hi)).exec (.tlbwr random)

def pte2tlblow (pte : BitVec 32) : BitVec 32 :=
  if ptep_present pte then
    (pte - KERNBASE) >>> 12 <<< 6 ||| THUMIPS_TLB_ENTRYL_V ||| THUMIPS_TLB_ENTRYL_G |||
      3#32 <<< 3 ||| if ptep_s_write pte then THUMIPS_TLB_ENTRYL_D else 0#32
  else 0#32

@[irreducible] def tlb_invalidate_all (u : TlbUnit) : TlbUnit :=
  (List.range 128).foldl
    (fun u i => write_one_tlb (BitVec.ofNat 32 i) (0x80000000#32 + BitVec.ofNat 32 i <<< 20)
      0#32 0#32 u) u

def UserEntry (e : TlbEntry) : Prop := e.vpn2.getLsbD 18 = false

def Flushed (u : TlbUnit) : Prop := ∀ j, ¬ UserEntry (u.tlb j)

theorem write_one_tlb_tlb (index hi low0 low1 : BitVec 32) (u : TlbUnit) :
    (write_one_tlb index hi low0 low1 u).tlb = update u.tlb (index.extractLsb' 0 4).toFin
      ⟨hi.extractLsb' 13 19, .ofEntryLo low1, .ofEntryLo low0⟩ := rfl

theorem tlb_replace_random_tlb (random : BitVec 4) (hi low0 low1 : BitVec 32) (u : TlbUnit) :
    (tlb_replace_random random hi low0 low1 u).tlb = update u.tlb random.toFin
      ⟨hi.extractLsb' 13 19, .ofEntryLo low1, .ofEntryLo low0⟩ := rfl

theorem not_userEntry_invalid (i : Fin 128) (odd even : mips32s.Isa.Page) :
    ¬ UserEntry ⟨(0x80000000#32 + BitVec.ofNat 32 i <<< 20).extractLsb' 13 19, odd, even⟩ := by
  have hvpn : ∀ i : Fin 128,
      ((0x80000000#32 + BitVec.ofNat 32 i <<< 20).extractLsb' 13 19).getLsbD 18 = true := by decide
  rw [UserEntry, hvpn i]
  exact Bool.noConfusion

/-- Invalidation: the loop over 128 indices writes each of the 16 entries, and whatever it
writes matches no user address. -/
theorem tlb_invalidate_all_flushed (u : TlbUnit) : Flushed (tlb_invalidate_all u) := by
  have hloop : ∀ n ≤ 128, ∀ j : Fin 16, j.val < n → ¬ UserEntry (((List.range n).foldl
      (fun u i => write_one_tlb (BitVec.ofNat 32 i) (0x80000000#32 + BitVec.ofNat 32 i <<< 20)
        0#32 0#32 u) u).tlb j) := by
    intro n hn
    induction n with
    | zero => intro j hj; omega
    | succ n ih =>
      intro j hj
      rw [List.range_succ, List.foldl_concat, write_one_tlb_tlb]
      by_cases hjn : j = ((BitVec.ofNat 32 n).extractLsb' 0 4).toFin
      · rw [hjn, update_self]
        exact not_userEntry_invalid ⟨n, by omega⟩ _ _
      · rw [update_of_ne hjn]
        refine ih (by omega) j ?_
        have hval : ((BitVec.ofNat 32 n).extractLsb' 0 4).toFin.val = n % 16 := by
          simp
        have hne : j.val ≠ n % 16 := fun h => hjn (Fin.ext (h.trans hval.symm))
        omega
  intro j
  rw [tlb_invalidate_all]
  exact hloop 128 (le_refl _) j (by omega)

end ucore
