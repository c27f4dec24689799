import Mips32S.Lib.Layout

open layout Option List

namespace growable

variable {α : Type} {f g : ℕ → α} {size off len n i : ℕ}

/-- At most `len` items from `off` on. -/
def read (xs : List α) (off len : ℕ) : List α := (xs.drop off).take len

/-- The items from `off` on are replaced by `ys`, and the list grows if they end after it. -/
def write (xs : List α) (off : ℕ) (ys : List α) : List α :=
  xs.take off ++ ys ++ xs.drop (off + ys.length)

/-- The first items of a buffer are replaced by `xs`. -/
def fill (xs : List α) (buf : ℕ → α) : ℕ → α := fun i => xs[i]?.getD (buf i)

/-- The first `n` items of a memory. -/
def contents (n : ℕ) (f : ℕ → α) : List α := (range n).map f

@[simp] theorem length_contents : (contents n f).length = n := by simp [contents]

theorem getElem?_contents (n : ℕ) (f : ℕ → α) (i : ℕ) :
    (contents n f)[i]? = if i < n then some (f i) else none := by
  by_cases hi : i < n <;> simp [contents, hi]

theorem contents_congr (h : ∀ i < n, f i = g i) : contents n f = contents n g :=
  map_congr_left fun i hi => h i (mem_range.mp hi)

theorem read_contents :
    read (contents size f) off len = contents (min len (size - off)) fun i => f (off + i) := by
  refine ext_getElem? fun i => ?_
  rw [read, getElem?_take, getElem?_drop, getElem?_contents, getElem?_contents]
  split_ifs <;> first | rfl | omega

theorem write_contents (h : off ≤ size) :
    write (contents size f) off (contents len g) =
      contents (max size (off + len)) (copy f off g 0 len) := by
  refine ext_getElem? fun i => ?_
  rw [write, append_assoc, getElem?_append, getElem?_append, getElem?_take,
    getElem?_drop, length_take, length_contents, length_contents, Nat.min_eq_left h]
  simp only [getElem?_contents]
  by_cases hlo : i < off
  · rw [if_pos hlo, if_pos hlo, if_pos (by omega), if_pos (by omega), copy_of_not (by omega)]
  by_cases hhi : i - off < len
  · rw [if_neg hlo, if_pos hhi, if_pos hhi, if_pos (by omega), copy_of_mem (by omega) (by omega),
      Nat.zero_add]
  · have hindex : off + len + (i - off - len) = i := by omega
    rw [if_neg hlo, if_neg hhi, hindex, copy_of_not (by omega)]
    split_ifs <;> first | rfl | omega

theorem fill_contents (buf : ℕ → α) :
    fill (contents len fun i => f (off + i)) buf = copy buf 0 f off len := by
  funext i
  rw [fill, getElem?_contents]
  by_cases hi : i < len
  · rw [if_pos hi, copy_of_mem (by omega) (by omega), Nat.sub_zero, getD_some]
  · rw [if_neg hi, copy_of_not (by omega), getD_none]

end growable
