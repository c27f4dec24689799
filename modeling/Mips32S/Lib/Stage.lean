import Mathlib.Logic.Basic

namespace pipeline

/-- The update rule of a pipeline register between two stages. A clear empties it;
when its input stage is stopped it holds its content if the output stage is stopped
too and otherwise passes an empty slot on; in all other cases it loads. -/
def stage {α : Type} (clear stop stopNext : Bool) (empty held loaded : α) : α :=
  if clear then empty
  else if stop then (if stopNext then held else empty)
  else loaded

variable {α : Type} {empty held loaded : α}

@[simp] theorem stage_clear (stop stopNext : Bool) :
    stage true stop stopNext empty held loaded = empty := rfl

@[simp] theorem stage_load (stopNext : Bool) :
    stage false false stopNext empty held loaded = loaded := rfl

@[simp] theorem stage_hold : stage false true true empty held loaded = held := rfl

@[simp] theorem stage_bubble : stage false true false empty held loaded = empty := rfl

end pipeline
