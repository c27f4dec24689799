import Mips32S.Lib.Dyadic
import Mathlib.Algebra.BigOperators.Group.Finset.Basic

open Function

namespace ucore

def MAX_ORDER : ℕ := 10

def MAX_ZONE_NUM : ℕ := 10

/-- The bits of `flags` that the modelled code uses. -/
structure PageFlags where
  reserved : Bool
  property : Bool
  slab : Bool
  deriving DecidableEq

def PageFlags.zero : PageFlags := ⟨false, false, false⟩

/-- `struct Page`; its link is an entry of the list that holds the page. -/
structure Page where
  ref : ℤ
  flags : PageFlags
  property : ℕ
  zone_num : ℕ
  deriving DecidableEq

/-- What a descriptor holds for the owner of the page. -/
def Page.owner (x : Page) : ℤ × Bool := (x.ref, x.flags.slab)

/-- The state of the allocator: the page descriptors, the free areas with the first pages of
their blocks, and the bases of the zones that have been set up so far. A page is named by its
index, and a failed `assert` or a `panic` of a function is `none`. -/
structure Buddy where
  npage : ℕ
  pages : ℕ → Page
  free_list : ℕ → List ℕ
  nr_free : ℕ → ℕ
  zones : ℕ → ℕ
  zone_num : ℕ

namespace Buddy

def setPage (s : Buddy) (p : ℕ) (f : Page → Page) : Buddy :=
  { s with pages := update s.pages p (f (s.pages p)) }

/-- `p->property = order`, `SetPageProperty(p)` and the insertion of `p` into its list. -/
def link (s : Buddy) (order p : ℕ) : Buddy :=
  { s.setPage p fun x => { x with property := order, flags.property := true } with
    nr_free := update s.nr_free order (s.nr_free order + 1)
    free_list := update s.free_list order (p :: s.free_list order) }

def unlink (s : Buddy) (order p : ℕ) : Buddy :=
  { s with
    nr_free := update s.nr_free order (s.nr_free order - 1)
    free_list := update s.free_list order ((s.free_list order).erase p) }

def ClearPageProperty (s : Buddy) (p : ℕ) : Buddy :=
  s.setPage p fun x => { x with flags.property := false }

/-- The loop over the `n` descriptors from `base` that asserts `ok` and applies `f`. -/
def sweep (ok : Page → Bool) (f : Page → Page) : (n base : ℕ) → Buddy → Option Buddy
  | 0, _, s => some s
  | n + 1, base, s =>
    if ok (s.pages base) then sweep ok f n (base + 1) (s.setPage base f) else none

end Buddy

open Buddy

def buddy_init (s : Buddy) : Buddy :=
  { s with free_list := fun _ => [], nr_free := fun _ => 0 }

/-- `while (n >= order_size)` of `buddy_init_memmap`. -/
def initBlocks (order : ℕ) (s : Buddy) (p n : ℕ) : Buddy × ℕ × ℕ :=
  if 2 ^ order ≤ n then initBlocks order (s.link order p) (p + 2 ^ order) (n - 2 ^ order)
  else (s, p, n)
termination_by n
decreasing_by
  have := Nat.two_pow_pos order
  omega

/-- `while (n != 0)` of `buddy_init_memmap`. -/
def initOrders : (order : ℕ) → Buddy → (p n : ℕ) → Buddy
  | 0, s, p, n => (initBlocks 0 s p n).1
  | order + 1, s, p, n =>
    if n = 0 then s
    else
      let (s, p, n) := initBlocks (order + 1) s p n
      initOrders order s p n

def buddy_init_memmap (base n : ℕ) (s : Buddy) : Option Buddy := do
  guard (0 < n ∧ s.zone_num < MAX_ZONE_NUM)
  let s ← s.sweep (fun x => x.flags.reserved)
    (fun x => { x with flags := .zero, property := 0, zone_num := s.zone_num, ref := 0 }) n base
  let s := { s with
    zones := update s.zones s.zone_num base
    zone_num := s.zone_num + 1 }
  return initOrders MAX_ORDER s base n

/-- The least order whose blocks hold `n` pages. -/
def getorder (n : ℕ) : Option ℕ := (List.range (MAX_ORDER + 1)).find? (n ≤ 2 ^ ·)

def page2idx (s : Buddy) (page : ℕ) : ℕ := page - s.zones (s.pages page).zone_num

def idx2page (s : Buddy) (zone_num idx : ℕ) : ℕ := s.zones zone_num + idx

def page_is_buddy (s : Buddy) (page order zone_num : ℕ) : Bool :=
  if page < s.npage then
    if (s.pages page).zone_num = zone_num then
      !(s.pages page).flags.reserved && (s.pages page).flags.property &&
        (s.pages page).property == order
    else false
  else false

/-- The loop of `buddy_free_pages_sub` that merges the block with its buddies. -/
def mergeUp (zone_num : ℕ) (s : Buddy) (page_idx order : ℕ) : Buddy × ℕ × ℕ :=
  if order < MAX_ORDER then
    let buddy_idx := page_idx ^^^ 2 ^ order
    let buddy := idx2page s zone_num buddy_idx
    if page_is_buddy s buddy order zone_num then
      mergeUp zone_num ((s.unlink order buddy).ClearPageProperty buddy) (page_idx &&& buddy_idx)
        (order + 1)
    else (s, page_idx, order)
  else (s, page_idx, order)
termination_by MAX_ORDER - order

def buddy_free_pages_sub (base order : ℕ) (s : Buddy) : Option Buddy := do
  let page_idx := page2idx s base
  guard (page_idx &&& (2 ^ order - 1) = 0)
  let s ← s.sweep (fun x => !x.flags.reserved && !x.flags.property)
    (fun x => { x with flags := .zero, ref := 0 }) (2 ^ order) base
  let zone_num := (s.pages base).zone_num
  let (s, page_idx, order) := mergeUp zone_num s page_idx order
  return s.link order (idx2page s zone_num page_idx)

/-- `while (n >= order_size)` of `buddy_free_pages`. -/
def freeUp (s : Buddy) (base n order : ℕ) : Option (Buddy × ℕ × ℕ × ℕ) :=
  if 2 ^ order ≤ n then
    if order ≤ MAX_ORDER then
      if page2idx s base &&& 2 ^ order ≠ 0 then do
        let s ← buddy_free_pages_sub base order s
        freeUp s (base + 2 ^ order) (n - 2 ^ order) (order + 1)
      else freeUp s base n (order + 1)
    else none
  else some (s, base, n, order)
termination_by MAX_ORDER + 1 - order

/-- `while (n != 0)` of `buddy_free_pages`, with the loop that lowers the order. -/
def freeDown (s : Buddy) (base n order : ℕ) : Option Buddy :=
  if n = 0 then some s
  else if n < 2 ^ order then freeDown s base n (order - 1)
  else do
    let s ← buddy_free_pages_sub base order s
    freeDown s (base + 2 ^ order) (n - 2 ^ order) order
termination_by (n, order)
decreasing_by
  · have : order ≠ 0 := by
      rintro rfl
      simp at *
      omega
    exact Prod.Lex.right _ (by omega)
  · have := Nat.two_pow_pos order
    exact Prod.Lex.left _ _ (by omega)

def buddy_free_pages (base n : ℕ) (s : Buddy) : Option Buddy := do
  guard (0 < n)
  if n = 1 then buddy_free_pages_sub base 0 s
  else
    let (s, base, n, order) ← freeUp s base n 0
    freeDown s base n order

/-- The loop of `buddy_alloc_pages_sub` that halves a block of order `order + d`. -/
def splitDown (order page : ℕ) : (d : ℕ) → Buddy → Buddy
  | 0, s => s
  | d + 1, s => splitDown order page d (s.link (order + d) (page + 2 ^ (order + d)))

/-- The page is `none` when every list of order at least `order` is empty. -/
def buddy_alloc_pages_sub (order : ℕ) (s : Buddy) : Option (Option ℕ × Buddy) := do
  guard (order ≤ MAX_ORDER)
  match (List.range' order (MAX_ORDER + 1 - order)).find? (fun o => !(s.free_list o).isEmpty) with
  | none => return (none, s)
  | some cur_order =>
    match s.free_list cur_order with
    | [] => return (none, s)
    | page :: _ =>
      let s := splitDown order page (cur_order - order) (s.unlink cur_order page)
      return (some page, s.ClearPageProperty page)

def buddy_alloc_pages (n : ℕ) (s : Buddy) : Option (Option ℕ × Buddy) := do
  guard (0 < n)
  let order ← getorder n
  let (page, s) ← buddy_alloc_pages_sub order s
  match page with
  | none => return (none, s)
  | some page =>
    if n ≠ 2 ^ order then
      let s ← buddy_free_pages (page + n) (2 ^ order - n) s
      return (some page, s)
    else return (some page, s)

def buddy_nr_free_pages (s : Buddy) : ℕ :=
  ∑ order ∈ Finset.range (MAX_ORDER + 1), s.nr_free order * 2 ^ order

end ucore
