import Mips32S.Kernel.Paging.Machine
import Mips32S.Lib.Layout

open layout

namespace ucore

def EXEC_MAX_ARG_NUM : ℕ := 32

def EXEC_MAX_ARG_LEN : ℕ := 4095

/-- The bytes of a string, with a 0 behind them. -/
def cstr (s : List (BitVec 8)) (i : ℕ) : BitVec 8 := s.getD i 0

namespace load_icode

variable (writable : ℕ → Bool) (argc : ℕ) (kargv : ℕ → List (BitVec 8))

/-- The kernel writes `n` bytes to user addresses. A fault at an address that is in no area, or in
one that must not be written, is a panic. -/
def store (a : ℕ) (src : ℕ → BitVec 8) (n : ℕ) (mem : ℕ → BitVec 8) : Option (ℕ → BitVec 8) :=
  if ∀ i < n, writable (a + i) then some (copy mem a src 0 n) else none

def strcpy (dst : ℕ) (s : List (BitVec 8)) (mem : ℕ → BitVec 8) : Option (ℕ → BitVec 8) :=
  store writable dst (cstr s) (s.length + 1) mem

def stacktop : ℕ := USTACKTOP.toNat - argc * PGSIZE

def uargv : ℕ := stacktop argc - argc * 4

/-- The loop over the arguments, from the number `i` on. -/
def copyArgs : ℕ → ℕ → (ℕ → BitVec 8) → Option (ℕ → BitVec 8)
  | 0, _, mem => some mem
  | k + 1, i, mem => do
    let mem ← strcpy writable (stacktop argc + i * PGSIZE) (kargv i) mem
    let mem ← store writable (uargv argc + i * 4) (byteOf (stacktop argc + i * PGSIZE)) 4 mem
    copyArgs k (i + 1) mem

/-- The registers of the new trap frame that hold the stack and the arguments. -/
structure ArgRegs where
  sp : ℕ
  a0 : ℕ
  a1 : ℕ

/-- The end of `load_icode`, once the new address space is in use. -/
def args (mem : ℕ → BitVec 8) : Option (ArgRegs × (ℕ → BitVec 8)) := do
  let mem ← copyArgs writable argc kargv argc 0 mem
  return (⟨USTACKTOP.toNat, argc, uargv argc⟩, mem)

/-- An address of the area that is mapped for the stack. -/
def InStack (a : ℕ) : Prop := USTACKTOP.toNat - USTACKSIZE.toNat ≤ a ∧ a < USTACKTOP.toNat

/-- The registers lead to copies of the arguments, `ptr i` to the one of the number `i`, and all of
their bytes are in the area of the stack. -/
structure Placed (r : ArgRegs) (mem : ℕ → BitVec 8) (ptr : ℕ → ℕ) : Prop where
  a0 : r.a0 = argc
  array : ∀ i < argc, value 4 (fun j => mem (r.a1 + i * 4 + j)) = ptr i
  string : ∀ i < argc, ∀ j ≤ (kargv i).length, mem (ptr i + j) = cstr (kargv i) j
  disjoint : ∀ i < argc, ∀ i' < argc, i ≠ i' →
    ∀ j ≤ (kargv i).length, ∀ j' ≤ (kargv i').length, ptr i + j ≠ ptr i' + j'
  array_inside : ∀ i < argc, ∀ j < 4, InStack (r.a1 + i * 4 + j)
  string_inside : ∀ i < argc, ∀ j ≤ (kargv i).length, InStack (ptr i + j)

/-- The stack pointer is not above the arguments. -/
def Below (r : ArgRegs) (ptr : ℕ → ℕ) : Prop := ∀ i < argc, r.sp ≤ r.a1 + i * 4 ∧ r.sp ≤ ptr i

section
variable {writable argc kargv} {i k a : ℕ} {mem : ℕ → BitVec 8}
  (hstack : ∀ a, InStack a → writable a = true)
  (hlen : ∀ i < argc, (kargv i).length ≤ EXEC_MAX_ARG_LEN)

theorem inStack_iff : InStack a ↔ 0x7fff0000 ≤ a ∧ a < 0x80000000 := Iff.rfl

include hstack hlen

theorem copyArgs_spec (hargc : argc ≤ 15) (hik : i + k = argc) : ∃ mem',
    copyArgs writable argc kargv k i mem = some mem' ∧
    (∀ a, a < uargv argc + i * 4 ∨ stacktop argc ≤ a ∧ a < stacktop argc + i * PGSIZE →
      mem' a = mem a) ∧
    ∀ i', i ≤ i' → i' < argc →
      (∀ j ≤ (kargv i').length, mem' (stacktop argc + i' * PGSIZE + j) = cstr (kargv i') j) ∧
      ∀ j < 4, mem' (uargv argc + i' * 4 + j) = byteOf (stacktop argc + i' * PGSIZE) j := by
  have hpage : PGSIZE = 4096 := rfl
  have hst : stacktop argc = 0x80000000 - argc * 4096 := rfl
  have hua : uargv argc = stacktop argc - argc * 4 := rfl
  induction k generalizing i mem with
  | zero => exact ⟨mem, rfl, fun _ _ => rfl, fun i' hle hlt => by omega⟩
  | succ k ih =>
    have hi : (kargv i).length ≤ 4095 := hlen i (by omega)
    have hstr : strcpy writable (stacktop argc + i * PGSIZE) (kargv i) mem =
        some (copy mem (stacktop argc + i * 4096) (cstr (kargv i)) 0 ((kargv i).length + 1)) :=
      if_pos fun j hj => hstack _ (inStack_iff.mpr (by rw [hpage]; omega))
    set mem1 := copy mem (stacktop argc + i * 4096) (cstr (kargv i)) 0 ((kargv i).length + 1)
      with hmem1
    have hptr : store writable (uargv argc + i * 4) (byteOf (stacktop argc + i * PGSIZE)) 4 mem1 =
        some (copy mem1 (uargv argc + i * 4) (byteOf (stacktop argc + i * 4096)) 0 4) :=
      if_pos fun j hj => hstack _ (inStack_iff.mpr (by omega))
    obtain ⟨mem', hrest, hkeep, hdone⟩ := @ih (i + 1)
      (copy mem1 (uargv argc + i * 4) (byteOf (stacktop argc + i * 4096)) 0 4) (by omega)
    rw [hpage] at hkeep hdone ⊢
    refine ⟨mem', by simp [copyArgs, hstr, hptr, hrest], fun a ha => ?_, fun i' hle hlt => ?_⟩
    · rw [hkeep a (by omega), copy_of_not (by omega), hmem1, copy_of_not (by omega)]
    · rcases hle.eq_or_lt with rfl | hlt'
      · refine ⟨fun j hj => ?_, fun j hj => ?_⟩
        · rw [hkeep _ (by omega), copy_of_not (by omega), hmem1, copy_of_mem (by omega) (by omega)]
          congr 1
          omega
        · rw [hkeep _ (by omega), copy_of_mem (by omega) (by omega)]
          congr 1
          omega
      · exact hdone i' hlt' hlt

end

/-- With the area of the stack writable, the arguments are where they belong for at most 15 of them,
and the stack pointer is above them for every program that `do_execve` starts. -/
theorem exec_arguments {writable : ℕ → Bool} {argc : ℕ} {kargv : ℕ → List (BitVec 8)}
    {mem : ℕ → BitVec 8} (hstack : ∀ a, InStack a → writable a = true)
    (hargc : argc ≤ EXEC_MAX_ARG_NUM)
    (hlen : ∀ i < argc, (kargv i).length ≤ EXEC_MAX_ARG_LEN) :
    ((∃ r mem' ptr, args writable argc kargv mem = some (r, mem') ∧
      Placed argc kargv r mem' ptr ∧ Below argc r ptr) ↔ argc = 0) ∧
    ((∃ r mem' ptr, args writable argc kargv mem = some (r, mem') ∧
      Placed argc kargv r mem' ptr) ↔ argc ≤ 15) := by
  have hmax : argc ≤ 32 := hargc
  have hst : stacktop argc = 0x80000000 - argc * 4096 := rfl
  have hua : uargv argc = stacktop argc - argc * 4 := rfl
  have hregs {r : ArgRegs} {mem' : ℕ → BitVec 8}
      (heq : args writable argc kargv mem = some (r, mem')) :
      r = ⟨USTACKTOP.toNat, argc, uargv argc⟩ := by
    obtain ⟨mem1, -, heq⟩ := Option.bind_eq_some_iff.mp heq
    cases heq
    rfl
  have hplaced (h15 : argc ≤ 15) : ∃ r mem' ptr, args writable argc kargv mem = some (r, mem') ∧
      Placed argc kargv r mem' ptr := by
    obtain ⟨mem', hcopy, -, hdone⟩ :=
      @copyArgs_spec _ _ _ 0 argc mem hstack hlen h15 (Nat.zero_add argc)
    have hbytes (i : ℕ) (hi : i < argc) : (kargv i).length ≤ 4095 := hlen i hi
    refine ⟨⟨USTACKTOP.toNat, argc, uargv argc⟩, mem', fun i => stacktop argc + i * 4096,
      by simp [args, hcopy], rfl, fun i hi => ?_, fun i hi => (hdone i (Nat.zero_le i) hi).1,
      fun i hi i' hi' hne j hj j' hj' => ?_, fun i hi j hj => ?_, fun i hi j hj => ?_⟩
    · rw [value_congr (hdone i (Nat.zero_le i) hi).2, value_byteOf]
      exact Nat.mod_eq_of_lt (by change stacktop argc + i * 4096 < 2 ^ 32; omega)
    · have := hbytes i hi
      have := hbytes i' hi'
      omega
    · exact inStack_iff.mpr (by dsimp only; omega)
    · have := hbytes i hi
      exact inStack_iff.mpr (by omega)
  refine ⟨⟨?_, ?_⟩, ?_, hplaced⟩
  · rintro ⟨r, mem', ptr, heq, -, hbelow⟩
    by_contra hne
    have hsp : r.sp ≤ r.a1 + 0 * 4 := (hbelow 0 (by omega)).1
    rw [hregs heq] at hsp
    have htop : 0x80000000 ≤ uargv argc + 0 * 4 := hsp
    omega
  · intro hzero
    obtain ⟨r, mem', ptr, heq, hp⟩ := hplaced (by omega)
    exact ⟨r, mem', ptr, heq, hp, fun i hi => by omega⟩
  · rintro ⟨r, mem', ptr, heq, hp⟩
    by_contra hmany
    have hin := inStack_iff.mp (hp.array_inside 0 (by omega) 0 (by omega))
    rw [hregs heq] at hin
    dsimp only at hin
    omega

/-- The program `a` with one argument: its stack starts above it. -/
theorem exec_overwritable : ∃ r mem', args (fun _ => true) 1 (fun _ => [0x61]) (fun _ => 0) =
    some (r, mem') ∧ r.a1 = 0x7fffeffc ∧ mem' 0x7ffff000 = 0x61 ∧ r.sp = 0x80000000 ∧
      ¬∃ ptr, Placed 1 (fun _ => [0x61]) r mem' ptr ∧ Below 1 r ptr := by
  refine ⟨_, _, rfl, by decide, by decide, by decide, ?_⟩
  rintro ⟨ptr, -, hbelow⟩
  exact absurd (hbelow 0 (by decide)).1 (by decide)

theorem exec_arguments_two : ∃ r mem' ptr, args (fun _ => true) 2 (fun _ => [0x61]) (fun _ => 0) =
    some (r, mem') ∧ Placed 2 (fun _ => [0x61]) r mem' ptr :=
  (exec_arguments (fun _ _ => rfl) (by decide) fun _ _ => by decide).2.mpr (by decide)

end load_icode

end ucore
