import Mips32S.Kernel.Buddy.Pmm

namespace ucore

/-- The page descriptors and the free area, with the first pages of the free blocks. A failed
`assert` is `none`. -/
structure FirstFit where
  pages : ℕ → Page
  free_list : List ℕ
  nr_free : ℕ

namespace FirstFit

def setPage (p : ℕ) (f : Page → Page) (s : FirstFit) : FirstFit :=
  { s with pages := Function.update s.pages p (f (s.pages p)) }

def SetPageProperty (p : ℕ) (s : FirstFit) : FirstFit :=
  s.setPage p fun x => { x with flags.property := true }

def ClearPageProperty (p : ℕ) (s : FirstFit) : FirstFit :=
  s.setPage p fun x => { x with flags.property := false }

def setProperty (p n : ℕ) (s : FirstFit) : FirstFit := s.setPage p fun x => { x with property := n }

def list_del (p : ℕ) (s : FirstFit) : FirstFit := { s with free_list := s.free_list.erase p }

/-- `list_add`: the page `p` gets its place behind `le`. -/
def list_add (le p : ℕ) : List ℕ → List ℕ
  | [] => []
  | x :: l => if x = le then x :: p :: l else x :: list_add le p l

/-- The loop over the `n` descriptors from `base` on that asserts `ok` and applies `f`. -/
def sweep (ok : Page → Bool) (f : Page → Page) : (n base : ℕ) → FirstFit → Option FirstFit
  | 0, _, s => some s
  | n + 1, base, s =>
    if ok (s.pages base) then sweep ok f n (base + 1) (s.setPage base f) else none

end FirstFit

open FirstFit

def default_init (s : FirstFit) : FirstFit := { s with free_list := [], nr_free := 0 }

def default_init_memmap (base n : ℕ) (s : FirstFit) : Option FirstFit := do
  guard (0 < n)
  let s ← s.sweep (fun x => x.flags.reserved)
    (fun x => { x with flags := .zero, property := 0, ref := 0 }) n base
  let s := (s.setProperty base n).SetPageProperty base
  return { s with nr_free := s.nr_free + n, free_list := base :: s.free_list }

/-- The pages of the block at `page` that was found: the rest of it gets the place of the block. -/
def default_alloc_pages.take (page n : ℕ) (s : FirstFit) : FirstFit :=
  let s :=
    if (s.pages page).property > n then
      let p := page + n
      let s' := (s.setProperty p ((s.pages page).property - n)).SetPageProperty p
      { s' with free_list := list_add page p s'.free_list }
    else s
  let s := s.list_del page
  { s with nr_free := s.nr_free - n }.ClearPageProperty page

def default_alloc_pages (n : ℕ) (s : FirstFit) : Option (Option ℕ × FirstFit) := do
  guard (0 < n)
  if n > s.nr_free then return (none, s)
  else
    match s.free_list.find? fun p => decide ((s.pages p).property ≥ n) with
    | none => return (none, s)
    | some page => return (some page, default_alloc_pages.take page n s)

/-- The first loop of `default_free_pages` over what is left of the list. The next entry is taken
before the current one is deleted. -/
def default_free_pages.merge : List ℕ → ℕ → FirstFit → ℕ × FirstFit
  | [], base, s => (base, s)
  | p :: le, base, s =>
    if base + (s.pages base).property = p then
      let s := s.setProperty base ((s.pages base).property + (s.pages p).property)
      merge le base ((s.ClearPageProperty p).list_del p)
    else if p + (s.pages p).property = base then
      let s := s.setProperty p ((s.pages p).property + (s.pages base).property)
      merge le p ((s.ClearPageProperty base).list_del p)
    else merge le base s

/-- The second loop puts the block before the first one with a higher address. -/
def default_free_pages (base n : ℕ) (s : FirstFit) : Option FirstFit := do
  guard (0 < n)
  let s ← s.sweep (fun x => !x.flags.reserved && !x.flags.property)
    (fun x => { x with flags := .zero, ref := 0 }) n base
  let s := (s.setProperty base n).SetPageProperty base
  let (base, s) := default_free_pages.merge s.free_list base s
  return { s with
    nr_free := s.nr_free + n
    free_list := s.free_list.orderedInsert (· < ·) base }

end ucore
