import Mathlib.Data.BitVec

open BitVec

namespace ucore

def KERNBASE : BitVec 32 := 0x80000000#32

def PTE_P : BitVec 32 := 0x001#32

def PTE_W : BitVec 32 := 0x002#32

def PTE_U : BitVec 32 := 0x004#32

def PTE_USER : BitVec 32 := PTE_U ||| PTE_W ||| PTE_P

def PDX (la : BitVec 32) : ℕ := ((la >>> 22) &&& 0x3ff#32).toNat

def PTX (la : BitVec 32) : ℕ := ((la >>> 12) &&& 0x3ff#32).toNat

def PPN (la : BitVec 32) : ℕ := ((la - KERNBASE) >>> 12).toNat

def PTE_ADDR (pte : BitVec 32) : BitVec 32 := pte &&& ~~~0xfff#32

def page2pa (page : ℕ) : BitVec 32 := KERNBASE + BitVec.ofNat 32 page <<< 12

/-- The page of a physical address; an address behind the last page is a panic. -/
def pa2page (npage : ℕ) (pa : BitVec 32) : Option ℕ := if PPN pa < npage then some (PPN pa) else none

/-- The page behind the kernel address of a physical address. -/
def KADDR (npage : ℕ) (pa : BitVec 32) : Option ℕ := if PPN pa < npage then some (PPN pa) else none

def ptep_invalid (pte : BitVec 32) : Bool := pte == 0#32

def ptep_present (pte : BitVec 32) : Bool := pte &&& PTE_P != 0#32

def ptep_s_write (pte : BitVec 32) : Bool := pte &&& PTE_W != 0#32

def ptep_u_read (pte : BitVec 32) : Bool := pte &&& PTE_U != 0#32

def ptep_u_write (pte : BitVec 32) : Bool := ptep_u_read pte && ptep_s_write pte

def pte2page (npage : ℕ) (pte : BitVec 32) : Option ℕ :=
  if ptep_present pte then pa2page npage (PTE_ADDR pte) else none

variable {page npage : ℕ} {pte flags la mask : BitVec 32}

theorem PDX_eq (la : BitVec 32) : PDX la = la.toNat / 2 ^ 22 := by
  have hlt := la.isLt
  have hand := Nat.and_two_pow_sub_one_eq_mod (la.toNat / 2 ^ 22) 10
  rw [PDX, toNat_and, toNat_ushiftRight, Nat.shiftRight_eq_div_pow]
  exact hand.trans (Nat.mod_eq_of_lt (by omega))

theorem PTX_eq (la : BitVec 32) : PTX la = la.toNat / 2 ^ 12 % 1024 := by
  have hand := Nat.and_two_pow_sub_one_eq_mod (la.toNat / 2 ^ 12) 10
  rwa [PTX, toNat_and, toNat_ushiftRight, Nat.shiftRight_eq_div_pow]

theorem PDX_lt (la : BitVec 32) : PDX la < 1024 := by
  have hlt := la.isLt
  rw [PDX_eq]
  omega

theorem PTX_lt (la : BitVec 32) : PTX la < 1024 := by
  rw [PTX_eq]
  omega

theorem toNat_page2pa (h : page < 2 ^ 19) : (page2pa page).toNat = 0x80000000 + page * 4096 := by
  have hsmall : (BitVec.ofNat 32 page <<< 12).toNat = page * 4096 := by
    rw [toNat_shiftLeft, toNat_ofNat, Nat.shiftLeft_eq]
    omega
  rw [page2pa, toNat_add, hsmall]
  change (0x80000000 + page * 4096) % 2 ^ 32 = _
  omega

theorem PTE_ADDR_page2pa (page : ℕ) : PTE_ADDR (page2pa page) = page2pa page := by
  have hmask : ~~~0xfff#32 = allOnes 32 <<< 12 := by decide
  have hpa : page2pa page = (0x80000#32 + BitVec.ofNat 32 page) <<< 12 := by
    rw [shiftLeft_add_distrib]
    rfl
  rw [PTE_ADDR, hpa, hmask, ← shiftLeft_and_distrib, and_allOnes]

theorem PTE_ADDR_page2pa_or (page : ℕ) (hf : PTE_ADDR flags = 0#32) :
    PTE_ADDR (page2pa page ||| flags) = page2pa page := by
  have hor : PTE_ADDR (page2pa page ||| flags) =
      PTE_ADDR (page2pa page) ||| PTE_ADDR flags := and_or_distrib_right
  rw [hor, hf, PTE_ADDR_page2pa, or_zero]

theorem page2pa_or_and (page : ℕ) (flags : BitVec 32) (hm : PTE_ADDR mask = 0#32) :
    (page2pa page ||| flags) &&& mask = flags &&& mask := by
  have hpa : page2pa page &&& mask = 0#32 := by
    rw [← PTE_ADDR_page2pa, PTE_ADDR, BitVec.and_assoc, BitVec.and_comm (~~~_), ← PTE_ADDR, hm,
      and_zero]
  rw [and_or_distrib_right, hpa, zero_or]

theorem ptep_present_page2pa_or (page : ℕ) (flags : BitVec 32) :
    ptep_present (page2pa page ||| flags) = ptep_present flags := by
  rw [ptep_present, page2pa_or_and page flags rfl, ptep_present]

theorem ptep_present_or (perm : BitVec 32) : ptep_present (PTE_P ||| perm) := by
  rw [ptep_present, bne_iff_ne]
  intro hzero
  have hbit := congrArg (getLsbD · 0) hzero
  simp [PTE_P] at hbit

theorem PPN_page2pa (h : page < 2 ^ 19) : PPN (page2pa page) = page := by
  have hpa := toNat_page2pa h
  have hk : KERNBASE.toNat = 0x80000000 := rfl
  rw [PPN, toNat_ushiftRight, Nat.shiftRight_eq_div_pow]
  bv_omega

theorem toNat_PTE_ADDR (pte : BitVec 32) : (PTE_ADDR pte).toNat = pte.toNat / 4096 * 4096 := by
  have hmask : PTE_ADDR pte = pte >>> 12 <<< 12 := by
    ext i hi
    by_cases hlow : i < 12
    · have hbit : ∀ i < 12, (0xfffff000#32).getLsbD i = false := by decide
      simp [PTE_ADDR, hlow, ← getLsbD_eq_getElem, hbit i hlow]
    · have hbit : ∀ i < 32, ¬ i < 12 → (0xfffff000#32).getLsbD i = true := by decide
      have hindex : 12 + (i - 12) = i := by omega
      simp [PTE_ADDR, hlow, hi, ← getLsbD_eq_getElem, hbit i hi hlow, hindex]
  have hlt := pte.isLt
  rw [hmask, toNat_shiftLeft, toNat_ushiftRight, Nat.shiftLeft_eq, Nat.shiftRight_eq_div_pow]
  omega

theorem PPN_PTE_ADDR (pte : BitVec 32) : PPN (PTE_ADDR pte) = PPN pte := by
  have haddr := toNat_PTE_ADDR pte
  have hk : KERNBASE.toNat = 0x80000000 := rfl
  rw [PPN, PPN, toNat_ushiftRight, toNat_ushiftRight, toNat_sub,
    toNat_sub, Nat.shiftRight_eq_div_pow, Nat.shiftRight_eq_div_pow]
  omega

end ucore
