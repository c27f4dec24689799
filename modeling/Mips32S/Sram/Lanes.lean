import Mips32S.Isa.Access
import Mips32S.Lib.Bytes
import Mips32S.Sram.Controller

namespace mips32s

open Isa BitVec

namespace Isa

/-- The byte array of four megabytes behind an SRAM chip. -/
abbrev Bytes := BitVec 22 → BitVec 8

namespace Access

/-- The value of a load from a byte array. -/
def loadFrom (a : Access) (m : Bytes) (addr : BitVec 22) : Word :=
  let v := bytemem.load m addr a.bytes
  if a.signed then v.signExtend 32 else v.setWidth 32

/-- The byte array after a store of the low bytes of a register. -/
def storeTo (a : Access) (m : Bytes) (addr : BitVec 22) (reg2 : Word) :
    Bytes := bytemem.store m addr a.bytes reg2

end Access

end Isa

namespace sram_top

theorem word_ext {x y : Word} (h : ∀ l < 4, byte x l = byte y l) : x = y := by
  ext k hk
  have hbyte := congrArg (fun z => z.getLsbD (k % 8)) (h (k / 8) (by omega))
  simp only [byte, getLsbD_extractLsb', Nat.mod_lt k (by decide : 0 < 8), decide_true,
    Bool.true_and, show 8 * (k / 8) + k % 8 = k by omega] at hbyte
  rwa [← getLsbD_eq_getElem, ← getLsbD_eq_getElem]

theorem byte_merge (sel : BitVec 4) (x y : Word) {l : ℕ} (hl : l < 4) :
    byte (merge sel x y) l = if sel.getLsbD l then byte x l else byte y l := by
  obtain ⟨h0, h1, h2, h3⟩ := byte_append
    (if sel.getLsbD 3 then x.extractLsb' 24 8 else y.extractLsb' 24 8)
    (if sel.getLsbD 2 then x.extractLsb' 16 8 else y.extractLsb' 16 8)
    (if sel.getLsbD 1 then x.extractLsb' 8 8 else y.extractLsb' 8 8)
    (if sel.getLsbD 0 then x.extractLsb' 0 8 else y.extractLsb' 0 8)
  obtain rfl | rfl | rfl | rfl : l = 0 ∨ l = 1 ∨ l = 2 ∨ l = 3 := by omega
  · exact h0
  · exact h1
  · exact h2
  · exact h3

theorem merge_of_all_select {b : Bus} (h : all_select b = true) (x y : Word) :
    merge b.wb_sel_i x y = x := by
  simp only [all_select, Bool.and_eq_true] at h
  refine word_ext fun l hl => ?_
  rw [byte_merge _ _ _ hl]
  obtain rfl | rfl | rfl | rfl : l = 0 ∨ l = 1 ∨ l = 2 ∨ l = 3 := by omega
  · exact if_pos h.2
  · exact if_pos h.1.2
  · exact if_pos h.1.1.2
  · exact if_pos h.1.1.1

variable {op : AluOp} {a : Access} {addr : Word} {p : BitVec 22} {chip : Chip}

/-- Reading the lanes of a load from the word at its address gives the value of the load
from the byte array. -/
theorem loadValue_merge (hacc : access? op = some a) (haligned : a.Aligned addr)
    (hlane : bytemem.lane p = offset addr) :
    a.loadValue addr (merge (a.lanes addr) (chip (bytemem.index p)) ZeroWord) =
      a.loadFrom (bytemem.view chip) p := by
  have hfit := offset_add_bytes_le hacc haligned
  have hread : (merge (a.lanes addr) (chip (bytemem.index p)) ZeroWord).extractLsb'
      (8 * offset addr) (8 * a.bytes) =
      (chip (bytemem.index p)).extractLsb' (8 * offset addr) (8 * a.bytes) := by
    ext k hk
    have hbyte := byte_merge (a.lanes addr) (chip (bytemem.index p)) ZeroWord
        (show offset addr + k / 8 < 4 by omega)
    rw [getLsbD_lanes (by omega), if_pos (by simp; omega)] at hbyte
    have hbit := congrArg (fun z => z.getLsbD (k % 8)) hbyte
    simp only [byte, getLsbD_extractLsb', Nat.mod_lt k (by decide : 0 < 8), decide_true,
      Bool.true_and, show 8 * (offset addr + k / 8) + k % 8 = 8 * offset addr + k by omega] at hbit
    rwa [getElem_extractLsb', getElem_extractLsb']
  rw [Access.loadValue, Access.loadFrom, bytemem.load_view _ (by omega), hlane, hread]

/-- Merging the lanes of a store into the word at its address stores its bytes in the
byte array. -/
theorem view_merge (hacc : access? op = some a) (hstore : a.store = true)
    (haligned : a.Aligned addr) (hlane : bytemem.lane p = offset addr) (reg2 held : Word) :
    bytemem.view (Function.update chip (bytemem.index p)
        (merge (a.lanes addr) (mem.mem_data_output false op reg2 held) (chip (bytemem.index p)))) =
      a.storeTo (bytemem.view chip) p reg2 := by
  have hfit := offset_add_bytes_le hacc haligned
  refine bytemem.view_update _ (by omega) (fun j hj => ?_) (fun l hl hno => ?_)
  · rw [hlane]
    refine (byte_merge _ _ _ (by omega)).trans ?_
    rw [getLsbD_lanes (by omega), if_pos (by simp; omega)]
    exact mem_data_output_byte hacc hstore haligned reg2 held hj
  · refine (byte_merge _ _ _ hl).trans ?_
    rw [getLsbD_lanes hl, if_neg (by simp; omega)]
    rfl

end sram_top

end mips32s
