import Mips32S.Lib.Ring

open Function List ring

namespace ucore

def CONSBUFSIZE : ℕ := 512

/-- The console input buffer, after `cons_init` has found the serial port. -/
structure Console where
  buf : ℕ → BitVec 8
  rpos : ℕ
  wpos : ℕ

/-- A byte of the serial port: delete is read as backspace. -/
def serial_proc_data (byte : BitVec 8) : BitVec 8 := if byte = 127 then 8 else byte

namespace Console

def next (pos : ℕ) : ℕ := if pos + 1 = CONSBUFSIZE then 0 else pos + 1

def cons_intr.feed (s : Console) (c : BitVec 8) : Console :=
  if c ≠ 0 then { s with buf := update s.buf s.wpos c, wpos := next s.wpos } else s

/-- The characters are those that `proc` returns before -1. -/
def cons_intr (cs : List (BitVec 8)) (s : Console) : Console := cs.foldl cons_intr.feed s

/-- The bytes are those that wait at the serial port. -/
def serial_intr (bytes : List (BitVec 8)) (s : Console) : Console :=
  s.cons_intr (bytes.map serial_proc_data)

def cons_getc (bytes : List (BitVec 8)) (s : Console) : BitVec 8 × Console :=
  let s := s.serial_intr bytes
  if s.rpos ≠ s.wpos then (s.buf s.rpos, { s with rpos := next s.rpos }) else (0, s)

inductive Call where
  | cons_intr (cs : List (BitVec 8))
  | cons_getc (bytes : List (BitVec 8))

/-- The characters that arrive during a call. -/
def Call.arrived : Call → List (BitVec 8)
  | .cons_intr cs => cs.filter (· ≠ 0)
  | .cons_getc bytes => (bytes.map serial_proc_data).filter (· ≠ 0)

/-- What the call returns, if anything. -/
def exec (s : Console) : Call → List (BitVec 8) × Console
  | .cons_intr cs => ([], s.cons_intr cs)
  | .cons_getc bytes => ([(s.cons_getc bytes).1], (s.cons_getc bytes).2)

def run : List Call → Console → List (BitVec 8)
  | [], _ => []
  | e :: es, s => (s.exec e).1 ++ run es (s.exec e).2

/-- What a call returns if the unread characters are kept in a queue, and those that are unread
afterwards. -/
def Call.queue (q : List (BitVec 8)) (e : Call) : List (BitVec 8) × List (BitVec 8) :=
  let q := q ++ e.arrived
  match e with
  | .cons_intr _ => ([], q)
  | .cons_getc _ => ([q.headD 0], q.tail)

def queue : List Call → List (BitVec 8) → List (BitVec 8)
  | [], _ => []
  | e :: es, q => (e.queue q).1 ++ queue es (e.queue q).2

/-- The number of characters between the positions. -/
def unread (s : Console) : ℕ := (s.wpos + CONSBUFSIZE - s.rpos) % CONSBUFSIZE

/-- The characters that arrive never fill the buffer. -/
def Fits : List Call → Console → Prop
  | [], _ => True
  | e :: es, s => s.unread + e.arrived.length < CONSBUFSIZE ∧ Fits es (s.exec e).2

variable {s : Console} {c : BitVec 8} {q cs : List (BitVec 8)}

/-- The buffer holds the unread characters. -/
structure Holds (s : Console) (q : List (BitVec 8)) : Prop where
  rpos : s.rpos < CONSBUFSIZE
  wpos : s.wpos = (s.rpos + q.length) % CONSBUFSIZE
  room : q.length < CONSBUFSIZE
  stored : Stored 9 s.buf s.rpos q

theorem next_eq {pos : ℕ} (h : pos < CONSBUFSIZE) : next pos = (pos + 1) % CONSBUFSIZE := by
  rw [next, CONSBUFSIZE] at *
  split_ifs <;> omega

theorem Holds.unread_eq (h : s.Holds q) : s.unread = q.length := by
  have hrpos := h.rpos
  have hroom := h.room
  rw [unread, h.wpos, CONSBUFSIZE] at *
  omega

theorem Holds.feed (h : s.Holds q) (hroom : (q ++ [c].filter (· ≠ 0)).length < CONSBUFSIZE) :
    (cons_intr.feed s c).Holds (q ++ [c].filter (· ≠ 0)) := by
  by_cases hc : c = 0
  · simpa [cons_intr.feed, hc] using h
  · have hstored := h.stored.append h.room c
    have hwpos := h.wpos
    have hlt := Nat.mod_lt (s.rpos + q.length) (show 0 < CONSBUFSIZE by decide)
    simp only [cons_intr.feed, hc, ne_eq, not_false_eq_true, if_true, decide_true, filter_cons,
      filter_nil] at hroom ⊢
    refine ⟨h.rpos, ?_, hroom, hwpos ▸ hstored⟩
    rw [show _ = next s.wpos from rfl, hwpos, next_eq hlt, Nat.mod_add_mod, length_append,
      length_singleton, Nat.add_assoc]

theorem Holds.cons_intr (h : s.Holds q) (hroom : (q ++ cs.filter (· ≠ 0)).length < CONSBUFSIZE) :
    (s.cons_intr cs).Holds (q ++ cs.filter (· ≠ 0)) := by
  induction cs generalizing s q with
  | nil => simpa [Console.cons_intr] using h
  | cons c cs ih =>
    rw [← singleton_append, filter_append, ← append_assoc] at hroom ⊢
    exact ih (h.feed (by rw [length_append] at hroom; omega)) hroom

theorem Holds.empty (h : s.Holds []) : s.rpos = s.wpos := by
  rw [h.wpos, length_nil, Nat.add_zero, Nat.mod_eq_of_lt h.rpos]

theorem Holds.take (h : s.Holds (c :: q)) :
    s.rpos ≠ s.wpos ∧ s.buf s.rpos = c ∧ { s with rpos := next s.rpos }.Holds q := by
  have hhead : s.buf (s.rpos % CONSBUFSIZE) = c := h.stored.head
  have hrpos := h.rpos
  have hwpos := h.wpos
  have hroom := h.room
  have hnext := next_eq hrpos
  rw [Nat.mod_eq_of_lt hrpos] at hhead
  rw [length_cons] at hwpos hroom
  refine ⟨by rw [CONSBUFSIZE] at *; omega, hhead, ?_⟩
  rw [hnext]
  refine ⟨Nat.mod_lt _ (by decide), ?_, by omega, stored_mod.mpr h.stored.tail⟩
  rw [hwpos, Nat.mod_add_mod, Nat.add_assoc, Nat.add_comm 1]

theorem Holds.exec (h : s.Holds q) {e : Call} (hroom : s.unread + e.arrived.length < CONSBUFSIZE) :
    (s.exec e).1 = (e.queue q).1 ∧ (s.exec e).2.Holds (e.queue q).2 := by
  rw [h.unread_eq, ← length_append] at hroom
  cases e with
  | cons_intr cs => exact ⟨rfl, h.cons_intr hroom⟩
  | cons_getc bytes =>
    have hq : (s.serial_intr bytes).Holds (q ++ (Call.cons_getc bytes).arrived) := h.cons_intr hroom
    cases hunread : q ++ (Call.cons_getc bytes).arrived with
    | nil =>
      rw [hunread] at hq
      simpa [Console.exec, cons_getc, hq.empty, Call.queue, hunread] using hq
    | cons c rest =>
      rw [hunread] at hq
      obtain ⟨hne, hhead, hrest⟩ := hq.take
      simpa [Console.exec, cons_getc, hne, hhead, Call.queue, hunread] using hrest

/-- As long as the buffer is not filled, the calls return what they would with a queue of all the
unread characters. -/
theorem console_fifo (h : s.Holds q) {es : List Call} (hfits : Fits es s) :
    run es s = queue es q := by
  induction es generalizing s q with
  | nil => rfl
  | cons e es ih =>
    obtain ⟨hroom, hrest⟩ := hfits
    obtain ⟨hout, hnext⟩ := h.exec hroom
    rw [run, queue, hout, ih hnext hrest]

def start : Console where
  buf _ := 0
  rpos := 0
  wpos := 0

theorem start_holds : start.Holds [] := ⟨by decide, rfl, by decide, Window.nil⟩

/-- Two characters, and a third one that arrives as the first is read. -/
theorem console_fifo_three :
    run [.cons_intr [1, 0, 2], .cons_getc [3], .cons_getc []] start = [1, 2] := by
  have hfits : Fits [.cons_intr [1, 0, 2], .cons_getc [3], .cons_getc []] start :=
    ⟨by decide, by decide, by decide, trivial⟩
  exact (console_fifo start_holds hfits).trans (by decide)

/-- After 512 characters the buffer seems to be empty. -/
theorem console_overrun :
    run [.cons_intr (replicate 512 1), .cons_getc []] start = [0] := by
  decide +kernel

end Console

end ucore
