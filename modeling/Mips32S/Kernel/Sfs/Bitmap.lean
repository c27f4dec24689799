import Mips32S.Kernel.Vma.Vmm

open BitVec Finset

namespace ucore

def WORD_BITS : ℕ := 32

/-- A bit is 1 for a free block. A failed `assert` is `none`. -/
structure bitmap where
  nbits : ℕ
  nwords : ℕ
  map : ℕ → BitVec 32

def bitmap.setWord (b : bitmap) (ix : ℕ) (x : BitVec 32) : bitmap :=
  { b with map := Function.update b.map ix x }

/-- The search for a bit of a word from `offset` on. -/
def bitmap_alloc.bit (word : BitVec 32) : ℕ → ℕ → Option ℕ
  | 0, _ => none
  | fuel + 1, offset =>
    if word &&& 1#32 <<< offset ≠ 0 then some offset else bit word fuel (offset + 1)

/-- The search for a word from `ix` on. -/
def bitmap_alloc.word (b : bitmap) : ℕ → ℕ → Option (Except ℤ ℕ × bitmap)
  | 0, _ => some (.error (-E_NO_MEM), b)
  | fuel + 1, ix =>
    if b.map ix ≠ 0 then do
      let offset ← bitmap_alloc.bit (b.map ix) WORD_BITS 0
      return (.ok (ix * WORD_BITS + offset), b.setWord ix (b.map ix ^^^ 1#32 <<< offset))
    else word b fuel (ix + 1)

def bitmap_alloc (b : bitmap) : Option (Except ℤ ℕ × bitmap) := bitmap_alloc.word b b.nwords 0

/-- The word and the mask of a bit. -/
def bitmap_translate (b : bitmap) (index : ℕ) : Option (ℕ × BitVec 32) := do
  guard (index < b.nbits)
  return (index / WORD_BITS, 1#32 <<< (index % WORD_BITS))

def bitmap_test (b : bitmap) (index : ℕ) : Option Bool := do
  let (word, mask) ← bitmap_translate b index
  return decide (b.map word &&& mask ≠ 0)

def bitmap_free (b : bitmap) (index : ℕ) : Option bitmap := do
  let (word, mask) ← bitmap_translate b index
  guard (b.map word &&& mask = 0)
  return b.setWord word (b.map word ||| mask)

namespace bitmap

variable {b : bitmap} {i k w fuel : ℕ}

/-- The bit of a block. -/
def get (b : bitmap) (i : ℕ) : Bool := (b.map (i / WORD_BITS)).getLsbD (i % WORD_BITS)

/-- The free blocks. -/
def free (b : bitmap) : Finset ℕ := (range b.nbits).filter fun i => b.get i

/-- The words hold all bits, and those behind the last one are 0. -/
structure Ok (b : bitmap) : Prop where
  nbits : b.nbits ≤ b.nwords * WORD_BITS
  rest : ∀ i, b.nbits ≤ i → i < b.nwords * WORD_BITS → b.get i = false

theorem mem_free : i ∈ b.free ↔ i < b.nbits ∧ b.get i = true := by
  rw [free, mem_filter, mem_range]

theorem and_mask_eq_zero (w : BitVec 32) (hk : k < WORD_BITS) :
    w &&& 1#32 <<< k = 0 ↔ w.getLsbD k = false := by
  have hk' : k < 32 := hk
  constructor
  · intro h
    have hbit := congrArg (fun x => getLsbD x k) h
    simpa [hk'] using hbit
  · intro h
    refine eq_of_getLsbD_eq fun i hi => ?_
    simp only [getLsbD_and, getLsbD_shiftLeft, getLsbD_one, ofNat_eq_ofNat, getLsbD_zero]
    rcases Nat.lt_trichotomy i k with hlt | rfl | hlt
    · simp [hlt]
    · simp [h]
    · have hne : i - k ≠ 0 := by omega
      simp [hne]

theorem getLsbD_mask (hi : i < WORD_BITS) : (1#32 <<< k).getLsbD i = decide (i = k) := by
  have hi' : i < 32 := hi
  rcases Nat.lt_trichotomy i k with hlt | rfl | hlt
  · simp [hlt, hlt.ne]
  · simp [hi']
  · have hne : i - k ≠ 0 := by omega
    simp [hne, hlt.ne']

theorem get_update {x : BitVec 32} {v : Bool} (hk : k < WORD_BITS)
    (hx : ∀ i < WORD_BITS, x.getLsbD i = if i = k then v else (b.map w).getLsbD i) :
    (b.setWord w x).get i =
      if i = w * WORD_BITS + k then v else b.get i := by
  have hpos : 0 < WORD_BITS := by decide
  have hmod := Nat.mod_lt i hpos
  have hdiv := Nat.div_add_mod i WORD_BITS
  unfold get setWord
  dsimp only
  rcases eq_or_ne (i / WORD_BITS) w with rfl | hw
  · rw [Function.update_self, hx _ hmod]
    refine if_congr ?_ rfl rfl
    rw [Nat.mul_comm] at hdiv
    omega
  · rw [Function.update_of_ne hw, if_neg]
    rintro rfl
    refine hw ?_
    rw [Nat.mul_comm, Nat.mul_add_div hpos, Nat.div_eq_of_lt hk, Nat.add_zero]

theorem bit_spec {word : BitVec 32} {offset : ℕ} (hk : k < WORD_BITS) (hlo : offset ≤ k)
    (hhi : k < offset + fuel) (hle : offset + fuel ≤ WORD_BITS) (hbit : word.getLsbD k = true) :
    ∃ k', bitmap_alloc.bit word fuel offset = some k' ∧ k' < WORD_BITS ∧
      word.getLsbD k' = true := by
  induction fuel generalizing offset with
  | zero => omega
  | succ fuel ih =>
    rw [bitmap_alloc.bit]
    split
    · rename_i hmask
      have hset := (and_mask_eq_zero word (by omega)).not.mp hmask
      exact ⟨offset, rfl, by omega, by simpa using hset⟩
    · rename_i hmask
      have hclear := (and_mask_eq_zero word (by omega)).mp (not_not.mp hmask)
      have hne : offset ≠ k := by
        rintro rfl
        rw [hbit] at hclear
        cases hclear
      exact ih (by omega) (by omega) (by omega)

/-- The state of the bitmap once the bit `i` is 0. -/
structure Taken (b : bitmap) (i : ℕ) (b' : bitmap) : Prop where
  nbits : b'.nbits = b.nbits
  nwords : b'.nwords = b.nwords
  get : ∀ j, b'.get j = if j = i then false else b.get j

theorem word_spec {ix : ℕ} (hix : ix + fuel = b.nwords) :
    bitmap_alloc.word b fuel ix = some (.error (-E_NO_MEM), b) ∧
      (∀ i, ix * WORD_BITS ≤ i → i < b.nwords * WORD_BITS → b.get i = false) ∨
    ∃ i b', bitmap_alloc.word b fuel ix = some (.ok i, b') ∧ i < b.nwords * WORD_BITS ∧
      b.get i = true ∧ Taken b i b' := by
  have hpos : 0 < WORD_BITS := by decide
  induction fuel generalizing ix with
  | zero =>
    refine .inl ⟨rfl, fun i hlo hhi => ?_⟩
    rw [← hix, Nat.add_zero] at hhi
    omega
  | succ fuel ih =>
    rw [bitmap_alloc.word]
    by_cases hword : b.map ix ≠ 0
    · rw [if_pos hword]
      obtain ⟨k, hk, hbit⟩ : ∃ k < WORD_BITS, (b.map ix).getLsbD k = true := by
        by_contra hnone
        push Not at hnone
        refine hword (eq_of_getLsbD_eq fun i hi => ?_)
        simpa using hnone i hi
      obtain ⟨k', hk', hlt, hset⟩ : ∃ k', bitmap_alloc.bit (b.map ix) WORD_BITS 0 = some k' ∧
          k' < WORD_BITS ∧ (b.map ix).getLsbD k' = true :=
        bit_spec hk (Nat.zero_le k) (by omega) (by omega) hbit
      have hget : b.get (ix * WORD_BITS + k') = true := by
        rw [get, Nat.mul_comm, Nat.mul_add_div hpos, Nat.div_eq_of_lt hlt, Nat.add_zero,
          Nat.mul_add_mod, Nat.mod_eq_of_lt hlt]
        exact hset
      refine .inr ⟨ix * WORD_BITS + k', b.setWord ix (b.map ix ^^^ 1#32 <<< k'), by rw [hk']; rfl,
        ?_, hget, rfl, rfl, fun j => ?_⟩
      · have hle : (ix + 1) * WORD_BITS ≤ b.nwords * WORD_BITS := Nat.mul_le_mul_right _ (by omega)
        rw [Nat.add_mul, Nat.one_mul] at hle
        omega
      · refine get_update hlt fun i hi => ?_
        rw [getLsbD_xor, getLsbD_mask hi]
        split
        · rename_i heq
          rw [heq, hset]
          simp
        · rename_i hne
          simp [hne]
    · rw [if_neg hword]
      have hnext : ix + 1 + fuel = b.nwords := by omega
      rcases ih hnext with ⟨heq, hclear⟩ | hfound
      · refine .inl ⟨heq, fun i hlo hhi => ?_⟩
        rcases Nat.lt_or_ge i ((ix + 1) * WORD_BITS) with hlt | hle
        · have hdiv : i / WORD_BITS = ix := Nat.div_eq_of_lt_le hlo hlt
          rw [get, hdiv, not_not.mp hword]
          simp
        · exact hclear i hle hhi
      · exact .inr hfound

theorem Ok.alloc_spec (h : b.Ok) : bitmap_alloc b = some (.error (-E_NO_MEM), b) ∧ b.free = ∅ ∨
    ∃ i b', bitmap_alloc b = some (.ok i, b') ∧ i ∈ b.free ∧ b'.Ok ∧ b'.nbits = b.nbits ∧
      b'.free = b.free.erase i := by
  rcases word_spec (Nat.zero_add b.nwords) with ⟨heq, hclear⟩ | ⟨i, b', heq, hlt, hget, htaken⟩
  · refine .inl ⟨heq, eq_empty_of_forall_notMem fun i hi => ?_⟩
    obtain ⟨hi, hget⟩ := mem_free.mp hi
    rw [hclear i (by omega) (by have := h.nbits; omega)] at hget
    cases hget
  · have hi : i < b.nbits := by
      by_contra hle
      rw [h.rest i (by omega) hlt] at hget
      cases hget
    refine .inr ⟨i, b', heq, mem_free.mpr ⟨hi, hget⟩, ⟨?_, fun j hlo hhi => ?_⟩, htaken.nbits, ?_⟩
    · rw [htaken.nbits, htaken.nwords]
      exact h.nbits
    · rw [htaken.nbits] at hlo
      rw [htaken.nwords] at hhi
      rw [htaken.get, h.rest j hlo hhi, ite_self]
    · ext j
      rw [mem_free, mem_erase, mem_free, htaken.nbits, htaken.get]
      by_cases hji : j = i <;> simp [hji]

theorem test_eq (hi : i < b.nbits) : bitmap_test b i = some (decide (i ∈ b.free)) := by
  have hmod : i % WORD_BITS < WORD_BITS := Nat.mod_lt i (by decide)
  have hmask := and_mask_eq_zero (b.map (i / WORD_BITS)) hmod
  simp only [bitmap_test, bitmap_translate, guard, if_pos hi, Option.pure_def, Option.bind_eq_bind,
    Option.bind_some, Option.some_inj]
  refine decide_eq_decide.mpr ?_
  rw [mem_free, ne_eq, hmask, Bool.not_eq_false]
  exact ⟨fun hbit => ⟨hi, hbit⟩, And.right⟩

theorem Ok.free_spec (h : b.Ok) (hi : i < b.nbits) (hused : i ∉ b.free) :
    ∃ b', bitmap_free b i = some b' ∧ b'.Ok ∧ b'.nbits = b.nbits ∧ b'.free = insert i b.free := by
  have hmod : i % WORD_BITS < WORD_BITS := Nat.mod_lt i (by decide)
  have hclear : b.map (i / WORD_BITS) &&& 1#32 <<< (i % WORD_BITS) = 0 := by
    rw [and_mask_eq_zero _ hmod, ← Bool.not_eq_true]
    exact fun hbit => hused (mem_free.mpr ⟨hi, hbit⟩)
  set x := b.map (i / WORD_BITS) ||| 1#32 <<< (i % WORD_BITS)
  set b' : bitmap := b.setWord (i / WORD_BITS) x
  have hget : ∀ j, b'.get j = if j = i then true else b.get j := by
    intro j
    have hi' : i / WORD_BITS * WORD_BITS + i % WORD_BITS = i := by
      rw [Nat.mul_comm]
      exact Nat.div_add_mod i WORD_BITS
    have heq : b'.get j = if j = i / WORD_BITS * WORD_BITS + i % WORD_BITS then true else b.get j := by
      refine get_update hmod fun k hk => ?_
      rw [getLsbD_or, getLsbD_mask hk]
      split
      · rename_i heq
        simp [heq]
      · rename_i hne
        simp [hne]
    rwa [hi'] at heq
  refine ⟨b', ?_, ⟨h.nbits, fun j hlo hhi => ?_⟩, rfl, ?_⟩
  · simp only [bitmap_free, bitmap_translate, guard, if_pos hi, hclear, if_true, Option.pure_def,
      Option.bind_eq_bind, Option.bind_some]
    rfl
  · have hlo' : b.nbits ≤ j := hlo
    rw [hget, if_neg (by omega)]
    exact h.rest j hlo hhi
  · ext j
    rw [mem_free, mem_insert, mem_free, hget]
    by_cases hji : j = i
    · simp [hji, b', hi, setWord]
    · simp [hji, b', setWord]

end bitmap

end ucore
