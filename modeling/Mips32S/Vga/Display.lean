import Mips32S.Lib.Ring
import Mips32S.Lib.Slice
import Mips32S.Vga.Terminal
import Mips32S.Vga.TextBuffer

open Function Option BitVec
open BitVec (ofNat)

namespace mips32s.vga

open bits ring terminal

/-- A terminal of 100 columns and 32 rows that scrolls by five. -/
def format : Format := ⟨100, 32, 5, by decide, by decide, by decide⟩

abbrev Display := Screen (BitVec 8) format

/-- The terminal on a received byte: newline, backspace, delete or a character. -/
def type (t : Display) (byte : BitVec 8) : Display :=
  if byte = 0x0A#8 then t.newline
  else if byte = 0x08#8 ∨ byte = 0x7F#8 then t.erase
  else t.put byte

def respond (t : Display) (i : Input) : Display :=
  if i.rst = true then .blank
  else if i.serial_data_enable = true then type t i.data_from_serial
  else t

/-- The terminal after the inputs that follow a reset. -/
def displayed (is : List Input) : Display := is.foldl respond .blank

/-! ### What the text buffer keeps of the terminal -/

/-- The line of the memory begins with the characters. -/
def Cells (mem : BitVec 13 → BitVec 9) (line : BitVec 6) : List (BitVec 8) → Prop :=
  Window (fun column x => mem (line ++ column) = 0#1 ++ x) 0#7

/-- A finished line as it was received: what ended a short line is its newline. -/
def received (text : List (BitVec 8)) : List (BitVec 8) :=
  if text.length < 100 then text ++ [0x0A#8] else text

/-- The finished line in the memory and in the table of line ends. -/
structure Keeps (endline : BitVec 6 → BitVec 7) (mem : BitVec 13 → BitVec 9) (line : BitVec 6)
    (text : List (BitVec 8)) : Prop where
  fits : text.length ≤ 100
  ends : endline line = slot 0#7 ((received text).length - 1)
  cells : Cells mem line (received text)

/-- The text buffer holds the screen of the terminal. -/
structure Shows (s : State) (t : Display) : Prop where
  line : s.char_pos_line = slot s.startline t.above.length
  column : s.char_pos_column = slot 0#7 t.row.length
  above : Window (Keeps s.endline s.video_char_mem) s.startline t.above
  row : Cells s.video_char_mem s.char_pos_line t.row

section
variable {mem : BitVec 13 → BitVec 9} {endline : BitVec 6 → BitVec 7} {line line' : BitVec 6}
  {column : BitVec 7} {text : List (BitVec 8)} {x : BitVec 9}

theorem Cells.append (h : Cells mem line text) (hlen : text.length < 100) (b : BitVec 8) :
    Cells (update mem (line ++ slot 0#7 text.length) (0#1 ++ b)) line (text ++ [b]) := by
  refine Window.append (h.imp fun i hi y hy => ?_) (update_self ..)
  have hne : slot 0#7 i ≠ slot 0#7 text.length := by
    rw [Ne, slot_inj (by omega) (by omega)]
    exact hi.ne
  rw [update_of_ne, hy]
  rw [Ne, append_inj]
  exact fun heq => hne heq.2

theorem Cells.write_other (h : Cells mem line text) (hne : line ≠ line') :
    Cells (update mem (line' ++ column) x) line text := by
  refine h.imp fun i _ y hy => ?_
  rw [update_of_ne, hy]
  rw [Ne, append_inj]
  exact fun heq => hne heq.1

end

namespace Shows

variable {s : State} {t : Display}
variable (h : Shows s t)
include h

theorem scan (hdata vdata : BitVec WIDTH) : Shows { s with hdata := hdata, vdata := vdata } t :=
  ⟨h.line, h.column, h.above, h.row⟩

theorem slot_ne {i : ℕ} (hi : i < t.above.length) : slot s.startline i ≠ s.char_pos_line := by
  have hlt : t.above.length < 32 := t.above_lt
  rw [h.line, Ne, slot_inj (by omega) (by omega)]
  exact hi.ne

/-- The byte a cursor position receives joins the cursor's line. -/
theorem write_row (b : BitVec 8) :
    Cells (update s.video_char_mem (s.char_pos_line ++ s.char_pos_column) (0#1 ++ b))
      s.char_pos_line (t.row ++ [b]) := by
  rw [h.column]
  exact h.row.append t.row_lt b

theorem write_above (x : BitVec 9) :
    Window (Keeps s.endline (update s.video_char_mem
      (s.char_pos_line ++ s.char_pos_column) x)) s.startline t.above :=
  h.above.imp fun _ hi _ hkeep => ⟨hkeep.fits, hkeep.ends, hkeep.cells.write_other (h.slot_ne hi)⟩

theorem last_line :
    s.char_pos_line = s.startline + V_CHAR_NUM - 0b000001#6 ↔ ¬ t.above.length + 1 < 32 := by
  have hlt : t.above.length < 32 := t.above_lt
  have hlast : s.startline + V_CHAR_NUM - 0b000001#6 = slot s.startline 31 := by
    rw [slot, V_CHAR_NUM]
    bv_omega
  rw [hlast, h.line, slot_inj (by omega) (by omega)]
  omega

/-- A finished line, as received, is the cursor's line with the byte that ended it. -/
theorem newLine {text : List (BitVec 8)} {b : BitVec 8} (htext : received text = t.row ++ [b])
    (hfits : text.length ≤ 100) :
    Shows { s.newLine with
      video_char_mem := update s.video_char_mem (s.char_pos_line ++ s.char_pos_column)
        (0#1 ++ b) } (t.feed text) := by
  set mem := update s.video_char_mem (s.char_pos_line ++ s.char_pos_column) (0#1 ++ b)
  have hkept : Window (Keeps s.newLine.endline mem) s.startline (t.above ++ [text]) := by
    refine Window.append ?_ ⟨hfits, ?_, ?_⟩
    · refine (h.write_above _).imp fun i hi x hkeep => ⟨hkeep.fits, ?_, hkeep.cells⟩
      rw [State.newLine_endline, update_of_ne (h.slot_ne hi), hkeep.ends]
    · rw [State.newLine_endline, ← h.line, update_self, h.column, htext,
        List.length_append, List.length_singleton, Nat.add_sub_cancel]
    · rw [← h.line, htext]
      exact h.write_row b
  have hnil : Cells mem s.newLine.char_pos_line [] := Window.nil
  by_cases hfull : t.above.length + 1 < 32
  · have hstart : s.newLine.startline = s.startline :=
      if_neg fun hlast => h.last_line.mp hlast hfull
    have habove := t.feed_above_of_lt text hfull
    refine ⟨?_, rfl, ?_, hnil⟩
    · show s.char_pos_line + 1#6 = slot s.newLine.startline _
      rw [hstart, habove, List.length_append, List.length_singleton, slot_succ, h.line]
    · show Window _ s.newLine.startline _
      rwa [hstart, habove]
  · have hstart : s.newLine.startline = slot s.startline 5 := if_pos (h.last_line.mpr hfull)
    have habove : (t.feed text).above = (t.above ++ [text]).drop 5 :=
      t.feed_above_of_not_lt text hfull
    have hlt : t.above.length < 32 := t.above_lt
    have hlen : t.above.length = 31 := by omega
    refine ⟨?_, rfl, ?_, hnil⟩
    · show s.char_pos_line + 1#6 = slot s.newLine.startline _
      rw [hstart, slot_add, habove, h.line, ← slot_succ]
      simp [hlen]
    · show Window _ s.newLine.startline _
      rw [hstart, habove]
      exact hkept.drop 5

theorem write_take (b : BitVec 8) {k : ℕ} (hk : k ≤ t.row.length) :
    Cells (update s.video_char_mem (s.char_pos_line ++ s.char_pos_column) (0#1 ++ b))
      s.char_pos_line (t.row.take k) := by
  have hcells := (h.write_row b).take k
  rwa [List.take_append_of_le_length hk] at hcells

theorem column_eq_iff {n : ℕ} (hn : n < 128) :
    s.char_pos_column = ofNat 7 n ↔ t.row.length = n := by
  have hrow : t.row.length < 100 := t.row_lt
  have hslot : ofNat 7 n = slot 0#7 n := (BitVec.zero_add _).symm
  rw [h.column, hslot, slot_inj (by omega) hn]

/-- A received byte does to the text buffer what it does to the terminal. -/
theorem receive (b : BitVec 8) :
    Shows { s.receive b with
      video_char_mem := update s.video_char_mem (s.char_pos_line ++ s.char_pos_column)
        (0#1 ++ b) } (type t b) := by
  have hrow : t.row.length < 100 := t.row_lt
  unfold State.receive type
  split_ifs with hnl hbs hpos hend
  · refine h.newLine ?_ hrow.le
    rw [received, if_pos hrow, hnl]
  · -- the cursor goes back onto the last character
    refine ⟨h.line, ?_, h.write_above _, ?_⟩
    · show s.char_pos_column - 1#7 = slot 0#7 t.row.dropLast.length
      have hne : t.row.length ≠ 0 := by
        rw [Ne, ← h.column_eq_iff (by decide)]
        bv_omega
      obtain ⟨n, hn⟩ := Nat.exists_eq_succ_of_ne_zero hne
      rw [h.column, List.length_dropLast, hn, Nat.succ_sub_one, Nat.succ_eq_add_one, slot_succ,
        BitVec.add_sub_cancel]
    · show Cells _ _ t.row.dropLast
      rw [List.dropLast_eq_take]
      exact h.write_take b (Nat.sub_le ..)
  · -- nothing to erase
    have hnil : t.row = [] := by
      rw [← List.length_eq_zero_iff, ← h.column_eq_iff (by decide)]
      bv_omega
    refine ⟨h.line, ?_, h.write_above _, ?_⟩
    · show s.char_pos_column = slot 0#7 t.row.dropLast.length
      rw [h.column, hnil, List.dropLast_nil]
    · show Cells _ _ t.row.dropLast
      rw [hnil]
      exact Window.nil
  · -- the character in the last column ends the line
    have hlast : t.row.length = 99 := (h.column_eq_iff (by decide)).mp hend
    have hwrap : ¬ t.row.length + 1 < format.width := by rw [hlast]; decide
    rw [Screen.put, dif_neg hwrap]
    refine h.newLine ?_ (by simp [hlast])
    rw [received, if_neg (by simp [hlast])]
  · have hlast : t.row.length ≠ 99 := (h.column_eq_iff (by decide)).not.mp hend
    have hfits : t.row.length + 1 < format.width := show _ < 100 by omega
    rw [Screen.put, dif_pos hfits]
    refine ⟨h.line, ?_, h.write_above _, h.write_row b⟩
    show s.char_pos_column + 1#7 = slot 0#7 (t.row ++ [b]).length
    rw [h.column, List.length_append, List.length_singleton, slot_succ]

theorem step (i : Input) : Shows (step s i) (respond t i) := by
  obtain ⟨rst, byte, enable⟩ := i
  refine scan (s := { s.position _ with video_char_mem := s.char_mem_write _ }) ?_ s.hdata_next
    s.vdata_next
  cases rst with
  | true => exact ⟨rfl, rfl, Window.nil, Window.nil⟩
  | false =>
    cases enable with
    | true => exact h.receive byte
    | false => exact h

theorem run (is : List Input) : Shows (run s is) (is.foldl respond t) := by
  induction is generalizing s t with
  | nil => exact h
  | cons i is ih => exact ih (h.step i)

end Shows

/-- After a reset the text buffer holds what the terminal shows. -/
theorem shows_run (s : State) (i : Input) (is : List Input) :
    Shows (run s ({ i with rst := true } :: is)) (displayed is) := by
  refine Shows.run ⟨rfl, rfl, ?_, ?_⟩ is <;> exact Window.nil

/-! ### What is scanned out -/

/-- The lines in the memory: those above the cursor as they were received. -/
def lines (t : Display) : List (List (BitVec 8)) := t.above.map received ++ [t.row]

/-- The code of a position; 0 where nothing is shown. -/
def code (x : Option (BitVec 8)) : BitVec 9 := x.elim 0#9 (0#1 ++ ·)

section
variable {s : State} {t : Display} {line column : ℕ} {text : List (BitVec 8)}

theorem received_length_pos (text : List (BitVec 8)) : 0 < (received text).length := by
  unfold received
  split_ifs with h
  · simp
  · omega

theorem received_length_le (h : text.length ≤ 100) : (received text).length ≤ 100 := by
  unfold received
  split_ifs with hlt
  · rwa [List.length_append, List.length_singleton]
  · exact h

theorem code_received (hc : column < 100) :
    code (received text)[column]? = code text[column]? ↔ text.length ≠ column := by
  unfold received
  split_ifs with hlt
  · obtain h | rfl | h := Nat.lt_trichotomy column text.length
    · simp [List.getElem?_append_left h, h.ne']
    · simp [code]
    · simp [List.getElem?_append_right h.le, h.ne, List.getElem?_eq_none h.le,
        List.getElem?_eq_none (show [0x0A#8].length ≤ column - text.length by simp; omega)]
  · simp only [true_iff]
    omega

theorem lines_getElem?_of_lt (h : line < t.above.length) :
    (lines t)[line]? = t.above[line]?.map received := by
  rw [lines, List.getElem?_append_left (by simpa using h), List.getElem?_map]

theorem lines_getElem?_length : (lines t)[t.above.length]? = some t.row := by
  simp [lines]

theorem lines_getElem?_of_gt (h : t.above.length < line) : (lines t)[line]? = none := by
  rwa [lines, List.getElem?_eq_none_iff, List.length_append, List.length_map, List.length_singleton]

theorem Shows.lines_cells (h : Shows s t) :
    Window (Cells s.video_char_mem) s.startline (lines t) := by
  refine Window.append (fun i x hx => ?_) ?_
  · rw [List.getElem?_map, map_eq_some_iff] at hx
    obtain ⟨text, htext, rfl⟩ := hx
    exact (h.above i text htext).cells
  · rw [List.length_map, ← h.line]
    exact h.row

theorem Shows.lit_iff (h : Shows s t) (hl : line < 64) (hc : column < 128) :
    (s.char_pos_line - s.startline > ofNat 6 line ∧
          s.endline (slot s.startline line) ≥ ofNat 7 column) ∨
        (s.char_pos_line - s.startline = ofNat 6 line ∧
          s.char_pos_column > ofNat 7 column) ↔
      ∃ text, (lines t)[line]? = some text ∧ column < text.length := by
  have habove : t.above.length < 32 := t.above_lt
  have hrow : t.row.length < 100 := t.row_lt
  have hzero (n : ℕ) : slot 0#7 n = ofNat 7 n := BitVec.zero_add _
  rw [h.line, slot_sub, gt_iff_lt, ofNat_lt_ofNat (by omega) (by omega), h.column, hzero,
    gt_iff_lt, ofNat_lt_ofNat (by omega) (by omega), ofNat_inj (by omega) (by omega)]
  obtain hlt | rfl | hgt := Nat.lt_trichotomy line t.above.length
  · have htext := List.getElem?_eq_getElem hlt
    have hkeep := h.above line _ htext
    have hpos := received_length_pos t.above[line]
    have hle := received_length_le hkeep.fits
    simp only [hlt, hlt.ne', lines_getElem?_of_lt, htext, hkeep.ends, hzero, ge_iff_le, true_and,
      false_and, or_false, map_some, some.injEq, exists_eq_left']
    rw [← BitVec.not_lt, ofNat_lt_ofNat (by omega) (by omega)]
    omega
  · simp [lines_getElem?_length]
  · simp [lines_getElem?_of_gt hgt, hgt.le, hgt.ne]

/-- The text buffer shows the lines in the memory. -/
theorem Shows.char_real_eq (h : Shows s t) (hde : data_enable s = true)
    (hline : out_pos_line s = ofNat 6 line)
    (hcolumn : out_pos_column s = ofNat 7 column) (hl : line < 64) (hc : column < 128) :
    char_real s = code ((lines t)[line]?.bind (·[column]?)) := by
  have hslot : ofNat 6 line + s.startline = slot s.startline line := BitVec.add_comm ..
  have hlit := h.lit_iff hl hc
  rw [char_real, char_raw, hline, hcolumn, hslot]
  by_cases hshown : ∃ text, (lines t)[line]? = some text ∧ column < text.length
  · rw [if_pos ⟨hde, hlit.mpr hshown⟩]
    obtain ⟨text, htext, hlen⟩ := hshown
    have hcell := h.lines_cells line text htext column _ (List.getElem?_eq_getElem hlen)
    rw [slot, slot, BitVec.zero_add] at hcell
    rwa [htext, bind_some, List.getElem?_eq_getElem hlen]
  · rw [if_neg fun hpos => hshown (hlit.mp hpos.2)]
    cases htext : (lines t)[line]? with
    | none => rfl
    | some text =>
      rw [bind_some, List.getElem?_eq_none (by grind)]
      rfl

/-- The lines in the memory and the terminal differ behind the lines that a newline ended. -/
theorem code_lines_iff (hc : column < 100) :
    code ((lines t)[line]?.bind (·[column]?)) = code (t.char? line column) ↔
      ¬ ∃ text, t.above[line]? = some text ∧ text.length = column := by
  by_cases hlt : line < t.above.length
  · rw [lines_getElem?_of_lt hlt, Screen.char?, List.getElem?_append_left hlt,
      List.getElem?_eq_getElem hlt, map_some, bind_some, bind_some,
      code_received hc]
    simp
  · have hnone : t.above[line]? = none := List.getElem?_eq_none (not_lt.mp hlt)
    have hsame : (lines t)[line]? = (t.above ++ [t.row])[line]? := by
      rw [lines, List.getElem?_append_right (by simpa using hlt),
        List.getElem?_append_right (not_lt.mp hlt), List.length_map]
    rw [hsame, Screen.char?]
    simp [hnone]

theorem out_pos_line_eq (s : State) : out_pos_line s = ofNat 6 (s.vdata.toNat / 16) := by
  rw [out_pos_line, extractLsb', Nat.shiftRight_eq_div_pow]

theorem out_pos_column_eq (s : State) : out_pos_column s = ofNat 7 (s.hdata.toNat / 8) := by
  rw [out_pos_column, extractLsb', Nat.shiftRight_eq_div_pow]

end

/-- The text buffer against the terminal. For every start, every sequence of received bytes at any
times and every scanned position, the cursor stays within its bounds, and the selected character
code is the terminal's one exactly unless the position is the one behind a line that a newline
ended: `text` is a line above the cursor, and as the column is at most 99 it was not wrapped. -/
theorem char_real_eq_iff (s0 : State) (i0 : Input) (is : List Input) :
    let s := run s0 ({ i0 with rst := true } :: is)
    let t := displayed is
    s.char_pos_column.toNat < 100 ∧ (s.char_pos_line - s.startline).toNat ≤ 31 ∧
      (char_real s =
          (if data_enable s then code (t.char? (s.vdata.toNat / 16) (s.hdata.toNat / 8)) else 0#9) ↔
        ¬ (data_enable s ∧ ∃ text, t.above[s.vdata.toNat / 16]? = some text ∧
          text.length = s.hdata.toNat / 8)) := by
  intro s t
  have h : Shows s t := shows_run s0 i0 is
  have habove : t.above.length < 32 := t.above_lt
  have hrow : t.row.length < 100 := t.row_lt
  have hcolumn : s.char_pos_column.toNat = t.row.length := by
    rw [h.column, slot, BitVec.zero_add, toNat_ofNat, Nat.mod_eq_of_lt (by omega)]
  have hline : (s.char_pos_line - s.startline).toNat = t.above.length := by
    rw [h.line, slot_sub, toNat_ofNat, Nat.mod_eq_of_lt (by omega)]
  refine ⟨by omega, by omega, ?_⟩
  by_cases hde : data_enable s = true
  · obtain ⟨hh, hv⟩ : s.hdata < HSIZE ∧ s.vdata < VSIZE := by simpa [data_enable] using hde
    have hh' : s.hdata.toNat < 800 := hh
    have hv' : s.vdata.toNat < 592 := hv
    rw [h.char_real_eq hde (out_pos_line_eq s) (out_pos_column_eq s) (by omega) (by omega),
      if_pos hde, code_lines_iff (by omega)]
    simp [hde]
  · have hzero : char_real s = 0#9 := if_neg fun hlit => hde hlit.1
    simp [hzero, hde]

/-- The byte `a` and a newline, followed by five idle cycles. -/
def shortLine : List Input :=
  ⟨false, 0x61#8, true⟩ :: ⟨false, 0x0A#8, true⟩ :: List.replicate 5 ⟨false, 0#8, false⟩

/-- Behind the `a` the newline itself is selected where the terminal shows nothing. -/
theorem shortLine_newline :
    let s := run ⟨0, 0, 0, fun _ => 0, fun _ => 0, 0, 0⟩ (⟨true, 0#8, false⟩ :: shortLine)
    data_enable s = true ∧ s.vdata.toNat / 16 = 0 ∧ s.hdata.toNat / 8 = 1 ∧
      char_real s = 0x0A#9 ∧ (displayed shortLine).char? 0 1 = none := by
  decide +kernel

end mips32s.vga
