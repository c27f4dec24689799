import Mathlib.Data.List.Basic

namespace terminal

/-- The size of a terminal, and how many rows it scrolls at a time. -/
structure Format where
  width : ℕ
  height : ℕ
  step : ℕ
  width_pos : 0 < width
  height_pos : 0 < height
  step_pos : 0 < step

/-- What a character terminal shows: the finished rows above the cursor, the top one first, and the
row of the cursor up to the cursor. -/
structure Screen (α : Type*) (f : Format) where
  above : List (List α)
  row : List α
  above_lt : above.length < f.height
  row_lt : row.length < f.width

namespace Screen

variable {α : Type*} {f : Format} (s : Screen α f)

/-- The screen with nothing on it. -/
def blank : Screen α f where
  above := []
  row := []
  above_lt := f.height_pos
  row_lt := f.width_pos

theorem feed_above_lt (text : List α) : (if s.above.length + 1 < f.height then s.above ++ [text]
    else (s.above ++ [text]).drop f.step).length < f.height := by
  have hstep := f.step_pos
  have habove := s.above_lt
  split_ifs with h
  · simpa using h
  · simp only [List.length_drop, List.length_append, List.length_singleton]
    omega

/-- The cursor leaves its row, which then reads `text`, for a new one. A full screen drops its first
rows. -/
def feed (text : List α) : Screen α f where
  above :=
    if s.above.length + 1 < f.height then s.above ++ [text] else (s.above ++ [text]).drop f.step
  row := []
  above_lt := s.feed_above_lt text
  row_lt := f.width_pos

theorem feed_above_of_lt (text : List α) (h : s.above.length + 1 < f.height) :
    (s.feed text).above = s.above ++ [text] := if_pos h

theorem feed_above_of_not_lt (text : List α) (h : ¬ s.above.length + 1 < f.height) :
    (s.feed text).above = (s.above ++ [text]).drop f.step := if_neg h

def newline : Screen α f := s.feed s.row

theorem put_row_lt (h : s.row.length + 1 < f.width) (c : α) : (s.row ++ [c]).length < f.width := by
  simpa using h

/-- The character at the end of a row wraps the cursor to the next one. -/
def put (c : α) : Screen α f :=
  if h : s.row.length + 1 < f.width then
    { s with row := s.row ++ [c], row_lt := s.put_row_lt h c }
  else s.feed (s.row ++ [c])

theorem erase_row_lt : s.row.dropLast.length < f.width :=
  Nat.lt_of_le_of_lt s.row.dropLast_sublist.length_le s.row_lt

/-- Backspace and delete stay in the row. -/
def erase : Screen α f :=
  { s with row := s.row.dropLast, row_lt := s.erase_row_lt }

/-- The character shown in a position. -/
def char? (line column : ℕ) : Option α := (s.above ++ [s.row])[line]?.bind (·[column]?)

end Screen

end terminal
