import Mips32S.Lib.Stage
import Mathlib.Tactic.Tauto
import Mathlib.Order.Nat
import Mathlib.Data.Set.Insert

namespace pipeline

/-- What a clock edge does to a pipeline with the registers decode, execute, memory
and write-back: everything moves, the decode register waits, everything up to the
memory register waits, or everything is emptied. -/
inductive Ctl where
  | go | holdDecode | holdMem | flush
  deriving DecidableEq, Repr

/-- The memory register hands its content on to write-back. -/
def Ctl.Passes (c : Ctl) : Prop := c = .go ∨ c = .holdDecode

instance (c : Ctl) : Decidable c.Passes := inferInstanceAs (Decidable (_ ∨ _))

theorem Ctl.hold_cases {c : Ctl} (h : c ≠ .go ∧ c ≠ .flush) : c = .holdDecode ∨ c = .holdMem := by
  cases c with
  | go => exact absurd rfl h.1
  | flush => exact absurd rfl h.2
  | holdDecode => exact .inl rfl
  | holdMem => exact .inr rfl

structure Regs (A B C D : Type) where
  id : A
  ex : B
  mem : C
  wb : D

namespace Regs

variable {A B C D A' B' C' D' : Type}

/-- One clock edge: a register is loaded, keeps its content or is emptied. -/
def advance (c : Ctl) (empty loaded held : Regs A B C D) : Regs A B C D :=
  match c with
  | .go => loaded
  | .holdDecode => ⟨held.id, empty.ex, loaded.mem, loaded.wb⟩
  | .holdMem => ⟨held.id, held.ex, held.mem, empty.wb⟩
  | .flush => empty

/-- Two pipelines are related register by register. -/
structure Rel (Rid : A → A' → Prop) (Rex : B → B' → Prop) (Rmem : C → C' → Prop)
    (Rwb : D → D' → Prop) (x : Regs A B C D) (y : Regs A' B' C' D') : Prop where
  id : Rid x.id y.id
  ex : Rex x.ex y.ex
  mem : Rmem x.mem y.mem
  wb : Rwb x.wb y.wb

/-- A relation between two pipelines under the same control survives a clock edge if
it holds of the empty contents and of whatever is loaded. -/
theorem Rel.advance {Rid : A → A' → Prop} {Rex : B → B' → Prop} {Rmem : C → C' → Prop}
    {Rwb : D → D' → Prop} {empty loaded held : Regs A B C D}
    {empty' loaded' held' : Regs A' B' C' D'} {c : Ctl} (hempty : Rel Rid Rex Rmem Rwb empty empty')
    (hheld : Rel Rid Rex Rmem Rwb held held') (hid : c = .go → Rid loaded.id loaded'.id)
    (hex : c = .go → Rex loaded.ex loaded'.ex) (hmem : c.Passes → Rmem loaded.mem loaded'.mem)
    (hwb : c.Passes → Rwb loaded.wb loaded'.wb) :
    Rel Rid Rex Rmem Rwb (Regs.advance c empty loaded held)
      (Regs.advance c empty' loaded' held') := by
  cases c with
  | go => exact ⟨hid rfl, hex rfl, hmem (.inl rfl), hwb (.inl rfl)⟩
  | holdDecode => exact ⟨hheld.id, hempty.ex, hmem (.inr rfl), hwb (.inr rfl)⟩
  | holdMem => exact ⟨hheld.id, hheld.ex, hheld.mem, hempty.wb⟩
  | flush => exact hempty

end Regs

/-- The ghost pipeline: each register holds the cycle in which its instruction was
delivered by fetch, or nothing. -/
abbrev Slots := Regs (Option ℕ) (Option ℕ) (Option ℕ) (Option ℕ)

namespace Slots

def empty : Slots := ⟨none, none, none, none⟩

/-- What each register is loaded with when fetch offers `d`. -/
def shift (d : Option ℕ) (r : Slots) : Slots := ⟨d, r.id, r.ex, r.mem⟩

/-- Instruction `t` is in the pipeline. -/
def Occupies (r : Slots) (t : ℕ) : Prop :=
  r.id = some t ∨ r.ex = some t ∨ r.mem = some t ∨ r.wb = some t

theorem Occupies.of_wb {r : Slots} {t : ℕ} (h : r.wb = some t) : r.Occupies t :=
  .inr (.inr (.inr h))

theorem Occupies.of_mem {r : Slots} {t : ℕ} (h : r.mem = some t) : r.Occupies t :=
  .inr (.inr (.inl h))

theorem Occupies.of_id {r : Slots} {t : ℕ} (h : r.id = some t) : r.Occupies t := .inl h

/-- Instructions occupy the registers in the order of their delivery, and all of
them were delivered before cycle `n`. -/
structure Ordered (n : ℕ) (r : Slots) : Prop where
  wb_mem : ∀ a ∈ r.wb, ∀ b ∈ r.mem, a < b
  wb_ex : ∀ a ∈ r.wb, ∀ b ∈ r.ex, a < b
  wb_id : ∀ a ∈ r.wb, ∀ b ∈ r.id, a < b
  mem_ex : ∀ a ∈ r.mem, ∀ b ∈ r.ex, a < b
  mem_id : ∀ a ∈ r.mem, ∀ b ∈ r.id, a < b
  ex_id : ∀ a ∈ r.ex, ∀ b ∈ r.id, a < b
  lt : ∀ t, r.Occupies t → t < n

/-- One clock edge of the ghost pipeline when fetch offers `d`. -/
def next (c : Ctl) (d : Option ℕ) (r : Slots) : Slots := Regs.advance c Slots.empty (r.shift d) r

@[simp] theorem next_go (d : Option ℕ) (r : Slots) : r.next .go d = ⟨d, r.id, r.ex, r.mem⟩ := rfl

@[simp] theorem next_holdDecode (d : Option ℕ) (r : Slots) :
    r.next .holdDecode d = ⟨r.id, none, r.ex, r.mem⟩ := rfl

@[simp] theorem next_holdMem (d : Option ℕ) (r : Slots) :
    r.next .holdMem d = ⟨r.id, r.ex, r.mem, none⟩ := rfl

@[simp] theorem next_flush (d : Option ℕ) (r : Slots) : r.next .flush d = Slots.empty := rfl

@[simp] theorem not_occupies_empty (t : ℕ) : ¬ Slots.empty.Occupies t := by
  simp [Occupies, empty]

theorem Occupies.of_next {c : Ctl} {d : Option ℕ} {r : Slots} {t : ℕ}
    (h : (r.next c d).Occupies t) :
    (c = .go ∧ d = some t) ∨ r.Occupies t := by
  cases c <;> simp [Occupies, Slots.empty] at h ⊢ <;> tauto

theorem Occupies.next {c : Ctl} (d : Option ℕ) {r : Slots} {t : ℕ} (h : r.Occupies t)
    (hc : c ≠ .flush) (hwb : r.wb ≠ some t) : (r.next c d).Occupies t := by
  cases c <;> simp [Occupies] at h hc ⊢ <;> tauto

theorem Ordered.next {n : ℕ} {r : Slots} (h : r.Ordered n) (c : Ctl) (b : Bool) :
    (r.next c (if b then some n else none)).Ordered (n + 1) := by
  obtain ⟨hwm, hwe, hwi, hme, hmi, hei, hlt⟩ := h
  have hlt' : ∀ t, (r.next c (if b then some n else none)).Occupies t → t < n + 1 := by
    intro t ht
    obtain ⟨-, hd⟩ | ht := ht.of_next
    · cases b <;> simp_all
    · exact Nat.lt_succ_of_lt (hlt t ht)
  have hnew : ∀ a ∈ (if b then some n else none), a = n := by
    intro a ha
    cases b <;> simp_all
  have hold : ∀ a, (r.ex = some a ∨ r.mem = some a ∨ r.id = some a) →
      ∀ b' ∈ (if b then some n else none), a < b' := by
    intro a ha b' hb'
    rw [hnew b' hb']
    exact hlt a (by unfold Occupies; tauto)
  cases c with
  | go =>
    exact ⟨hme, hmi, fun a ha => hold a (by tauto), hei, fun a ha => hold a (by tauto),
      fun a ha => hold a (by tauto), hlt'⟩
  | holdDecode => exact ⟨hme, by simp, hmi, by simp, hei, by simp, hlt'⟩
  | holdMem => exact ⟨by simp, by simp, by simp, hme, hmi, hei, hlt'⟩
  | flush => exact ⟨by simp [empty], by simp [empty], by simp [empty], by simp [empty],
      by simp [empty], by simp [empty], hlt'⟩

end Slots

variable {t n m k u : ℕ} (c : ℕ → Ctl) (fetch : ℕ → Bool)

/-- The ghost pipeline of a run with control `c`; `fetch n` says that cycle `n` has
an instruction to deliver. -/
def slots : ℕ → Slots
  | 0 => Slots.empty
  | n + 1 => (slots n).next (c n) (if fetch n then some n else none)

/-- Instruction `t` is delivered in cycle `t`. -/
def Delivered (t : ℕ) : Prop := c t = .go ∧ fetch t = true

variable {c fetch}

theorem slots_ordered (n : ℕ) : (slots c fetch n).Ordered n := by
  induction n with
  | zero => constructor <;> simp [slots, Slots.empty, Slots.Occupies]
  | succ n ih => exact ih.next (c n) (fetch n)

theorem occupies_lt (h : (slots c fetch n).Occupies t) : t < n := (slots_ordered n).lt t h

theorem occupies_of_succ (h : (slots c fetch (n + 1)).Occupies t) (hne : t ≠ n) :
    (slots c fetch n).Occupies t := by
  obtain ⟨-, hd⟩ | h := Slots.Occupies.of_next h
  · cases hf : fetch n <;> simp_all
  · exact h

theorem delivered_of_occupies (h : (slots c fetch n).Occupies t) : Delivered c fetch t := by
  induction n with
  | zero => simp [slots] at h
  | succ n ih =>
    obtain ⟨hgo, hd⟩ | h := Slots.Occupies.of_next h
    · cases hf : fetch n with
      | false => simp [hf] at hd
      | true =>
        have ht : n = t := by simpa [hf] using hd
        subst ht
        exact ⟨hgo, hf⟩
    · exact ih h

theorem not_occupies_of_le (hlt : t < n) (h : ¬ (slots c fetch n).Occupies t) (hle : n ≤ m) :
    ¬ (slots c fetch m).Occupies t := by
  induction m, hle using Nat.le_induction with
  | base => exact h
  | succ m hle ih => exact fun hm => ih (occupies_of_succ hm (by omega))

theorem not_occupies_succ_of_wb (h : (slots c fetch n).wb = some t) :
    ¬ (slots c fetch (n + 1)).Occupies t := by
  have ho : (slots c fetch n).Ordered n := slots_ordered n
  have hlt : t < n := occupies_lt (.of_wb h)
  have hmem : (slots c fetch n).mem ≠ some t := fun h' => (ho.wb_mem t h t h').false
  have hex : (slots c fetch n).ex ≠ some t := fun h' => (ho.wb_ex t h t h').false
  have hid : (slots c fetch n).id ≠ some t := fun h' => (ho.wb_id t h t h').false
  rw [slots]
  intro hocc
  cases hc : c n <;> rw [hc] at hocc <;> simp [Slots.Occupies, Slots.empty, hmem, hex, hid] at hocc
  omega

theorem unique_of_not_lt {P : ℕ → Prop} (h : ∀ ⦃a b⦄, P a → P b → ¬ a < b) {a b : ℕ} (ha : P a)
    (hb : P b) :
    a = b := by
  have hab := h ha hb
  have hba := h hb ha
  omega

theorem wb_unique (hn : (slots c fetch n).wb = some t) (hm : (slots c fetch m).wb = some t) :
    n = m := by
  refine unique_of_not_lt (P := fun k => (slots c fetch k).wb = some t)
    (fun a b ha hb hlt => ?_) hn hm
  have hta : t < a := occupies_lt (.of_wb ha)
  exact not_occupies_of_le (by omega) (not_occupies_succ_of_wb ha) hlt (.of_wb hb)

theorem mem_lt_wb {j : ℕ} (hmem : (slots c fetch j).mem = some t)
    (hwb : (slots c fetch k).wb = some t) : j < k := by
  obtain hlt | rfl | hgt := Nat.lt_trichotomy j k
  · exact hlt
  · exact absurd ((slots_ordered j).wb_mem t hwb t hmem) (lt_irrefl t)
  · have htk : t < k := occupies_lt (.of_wb hwb)
    exact absurd (.of_mem hmem) (not_occupies_of_le (by omega) (not_occupies_succ_of_wb hwb) hgt)

theorem mem_ne_of_left (h : (slots c fetch n).mem = some t) (hc : c n ≠ .holdMem) (hlt : n < m) :
    (slots c fetch m).mem ≠ some t := by
  have ho : (slots c fetch n).Ordered n := slots_ordered n
  have htn : t < n := occupies_lt (.of_mem h)
  have hex : (slots c fetch n).ex ≠ some t := fun h' => (ho.mem_ex t h t h').false
  have hmem : (slots c fetch (n + 1)).mem ≠ some t := by
    rw [slots]
    cases hn : c n <;> simp_all [Slots.empty]
  have hgone : ¬ (slots c fetch (n + 2)).Occupies t := by
    by_cases hwb : (slots c fetch (n + 1)).wb = some t
    · exact not_occupies_succ_of_wb hwb
    · have hid : (slots c fetch n).id ≠ some t := fun h' => (ho.mem_id t h t h').false
      have hnext : ¬ (slots c fetch (n + 1)).Occupies t := by
        rw [slots] at hwb ⊢
        cases hn : c n <;> simp_all [Slots.empty, Slots.Occupies]
      exact not_occupies_of_le (by omega) hnext (by omega)
  obtain rfl | hm : m = n + 1 ∨ n + 2 ≤ m := by omega
  · exact hmem
  · exact fun h' => not_occupies_of_le (by omega) hgone hm (.of_mem h')

theorem id_ne_of_left (h : (slots c fetch n).id = some t) (hc : c n = .go) (hlt : n < m) :
    (slots c fetch m).id ≠ some t := by
  have htn : t < n := occupies_lt (.of_id h)
  have hnew (k : ℕ) (hk : t < k) : (if fetch k then some k else none) ≠ some t := by
    split_ifs
    · simpa using hk.ne'
    · simp
  induction m, hlt using Nat.le_induction with
  | base => simpa [slots, hc] using hnew n htn
  | succ m hlt ih =>
    cases hm : c m with
    | go => simpa [slots, hm] using hnew m (by omega)
    | holdDecode => simpa [slots, hm] using ih
    | holdMem => simpa [slots, hm] using ih
    | flush => simp [slots, hm, Slots.empty]

/-- Instruction `t` is emptied out of the pipeline in cycle `k`. -/
def SquashedAt (c : ℕ → Ctl) (fetch : ℕ → Bool) (t k : ℕ) : Prop :=
  c k = .flush ∧ (slots c fetch k).Occupies t ∧ (slots c fetch k).wb ≠ some t

/-- The fate of a delivered instruction: at any later cycle it is still in the
pipeline, or it has been in write-back, or it has been squashed. -/
theorem fate (hd : Delivered c fetch t) (hlt : t < n) :
    (slots c fetch n).Occupies t ∨ (∃ k < n, (slots c fetch k).wb = some t) ∨
      ∃ k < n, SquashedAt c fetch t k := by
  induction n, hlt using Nat.le_induction with
  | base =>
    left
    simp [slots, hd.1, hd.2, Slots.Occupies]
  | succ n hle ih =>
    obtain hocc | ⟨k, hk, hwb⟩ | ⟨k, hk, hsq⟩ := ih
    · by_cases hwb : (slots c fetch n).wb = some t
      · exact .inr (.inl ⟨n, by omega, hwb⟩)
      by_cases hc : c n = .flush
      · exact .inr (.inr ⟨n, by omega, hc, hocc, hwb⟩)
      · exact .inl (hocc.next _ hc hwb)
    · exact .inr (.inl ⟨k, by omega, hwb⟩)
    · exact .inr (.inr ⟨k, by omega, hsq⟩)

theorem SquashedAt.wb_ne (h : SquashedAt c fetch t k) (m : ℕ) : (slots c fetch m).wb ≠ some t := by
  obtain ⟨hc, hocc, hwb⟩ := h
  intro hm
  have htk : t < k := occupies_lt hocc
  have hgone : ¬ (slots c fetch (k + 1)).Occupies t := by simp [slots, hc]
  have htm : t < m := occupies_lt (.of_wb hm)
  obtain hlt | rfl | hgt := Nat.lt_trichotomy m k
  · exact not_occupies_of_le (by omega) (not_occupies_succ_of_wb hm) hlt hocc
  · exact hwb hm
  · exact not_occupies_of_le (by omega) hgone hgt (.of_wb hm)

theorem not_front_of_back (h : (slots c fetch n).mem = some t ∨ (slots c fetch n).wb = some t)
    (hle : n ≤ m) : (slots c fetch m).id ≠ some t ∧ (slots c fetch m).ex ≠ some t := by
  have htn : t < n := occupies_lt (h.elim .of_mem .of_wb)
  induction m, hle using Nat.le_induction with
  | base =>
    have ho : (slots c fetch n).Ordered n := slots_ordered n
    obtain h | h := h
    · exact ⟨fun h' => (ho.mem_id t h t h').false, fun h' => (ho.mem_ex t h t h').false⟩
    · exact ⟨fun h' => (ho.wb_id t h t h').false, fun h' => (ho.wb_ex t h t h').false⟩
  | succ m hle ih =>
    obtain ⟨hid, hex⟩ := ih
    rw [slots]
    cases c m <;> simp_all [Slots.empty]
    omega

theorem SquashedAt.mem_ne (h : SquashedAt c fetch t k) (hmem : (slots c fetch k).mem ≠ some t)
    (m : ℕ) : (slots c fetch m).mem ≠ some t := by
  obtain ⟨hc, hocc, hwb⟩ := h
  intro hm
  have hgone : ¬ (slots c fetch (k + 1)).Occupies t := by simp [slots, hc]
  have htk : t < k := occupies_lt hocc
  obtain hle | hgt : m ≤ k ∨ k < m := by omega
  · obtain ⟨hid, hex⟩ := not_front_of_back (.inl hm) hle
    obtain h' | h' | h' | h' := hocc <;> contradiction
  · exact not_occupies_of_le (by omega) hgone hgt (.of_mem hm)

/-- The instructions that have reached write-back. -/
def Retired (c : ℕ → Ctl) (fetch : ℕ → Bool) (n : ℕ) : Set ℕ :=
  {u | ∃ k ≤ n, (slots c fetch k).wb = some u}

/-- The instructions that are past the execute register and not squashed. -/
def Passed (c : ℕ → Ctl) (fetch : ℕ → Bool) (n : ℕ) : Set ℕ :=
  {u | u ∈ Retired c fetch n ∨ (slots c fetch n).mem = some u}

theorem mem_retired_succ :
    u ∈ Retired c fetch (n + 1) ↔ u ∈ Retired c fetch n ∨ (slots c fetch (n + 1)).wb = some u := by
  constructor
  · rintro ⟨k, hk, hwb⟩
    obtain rfl | hlt : k = n + 1 ∨ k ≤ n := by omega
    · exact .inr hwb
    · exact .inl ⟨k, hlt, hwb⟩
  · rintro (⟨k, hk, hwb⟩ | hwb)
    · exact ⟨k, by omega, hwb⟩
    · exact ⟨n + 1, le_rfl, hwb⟩

theorem passed_of_passes (h : (c n).Passes) :
    Retired c fetch (n + 1) = Passed c fetch n ∧
      Passed c fetch (n + 1) = {u | u ∈ Passed c fetch n ∨ (slots c fetch n).ex = some u} := by
  have hslots : (slots c fetch (n + 1)).wb = (slots c fetch n).mem ∧
      (slots c fetch (n + 1)).mem = (slots c fetch n).ex := by
    obtain hc | hc := h <;> simp [slots, hc]
  have hretired : Retired c fetch (n + 1) = Passed c fetch n := by
    ext u
    rw [mem_retired_succ, hslots.1]
    rfl
  refine ⟨hretired, ?_⟩
  ext u
  simp only [Passed, Set.mem_ofPred_eq, hretired, hslots.2]

theorem passed_of_holdMem (h : c n = .holdMem) :
    Retired c fetch (n + 1) = Retired c fetch n ∧ Passed c fetch (n + 1) = Passed c fetch n := by
  have hretired : Retired c fetch (n + 1) = Retired c fetch n := by
    ext u
    rw [mem_retired_succ]
    simp [slots, h]
  refine ⟨hretired, ?_⟩
  ext u
  simp only [Passed, Set.mem_ofPred_eq, hretired]
  simp [slots, h]

theorem passed_of_flush (h : c n = .flush) :
    Retired c fetch (n + 1) = Retired c fetch n ∧ Passed c fetch (n + 1) = Retired c fetch n := by
  have hretired : Retired c fetch (n + 1) = Retired c fetch n := by
    ext u
    rw [mem_retired_succ]
    simp [slots, h, Slots.empty]
  refine ⟨hretired, ?_⟩
  ext u
  simp only [Passed, Set.mem_ofPred_eq, hretired]
  simp [slots, h, Slots.empty]

theorem lt_of_wb (hwb : (slots c fetch k).wb = some u) (hlt : k < n)
    (h : (slots c fetch n).Occupies t) : u < t := by
  have huk : u < k := occupies_lt (.of_wb hwb)
  by_contra hle
  have hk : (slots c fetch (k + 1)).Occupies t := by
    by_contra hnot
    exact not_occupies_of_le (by omega) hnot hlt h
  have hocc : (slots c fetch k).Occupies t := occupies_of_succ hk (by omega)
  have ho : (slots c fetch k).Ordered k := slots_ordered k
  obtain hid | hex | hmem | hback := hocc
  · exact hle (ho.wb_id u hwb t hid)
  · exact hle (ho.wb_ex u hwb t hex)
  · exact hle (ho.wb_mem u hwb t hmem)
  · exact not_occupies_succ_of_wb hback hk

/-- What has passed an instruction in the execute register are the delivered instructions older
than it, except those squashed. -/
theorem passed_eq (h : (slots c fetch n).ex = some t) :
    Passed c fetch n =
      {u | u < t ∧ Delivered c fetch u ∧ ∀ k < n, ¬ SquashedAt c fetch u k} := by
  have ho : (slots c fetch n).Ordered n := slots_ordered n
  have hocc : (slots c fetch n).Occupies t := .inr (.inl h)
  ext u
  constructor
  · rintro (⟨k, hk, hwb⟩ | hmem)
    · refine ⟨?_, delivered_of_occupies (.of_wb hwb), fun j _ hsq => hsq.wb_ne k hwb⟩
      obtain rfl | hlt : k = n ∨ k < n := by omega
      · exact ho.wb_ex u hwb t h
      · exact lt_of_wb hwb hlt hocc
    · refine ⟨ho.mem_ex u hmem t h, delivered_of_occupies (.of_mem hmem), fun j hj hsq => ?_⟩
      have hgone : ¬ (slots c fetch (j + 1)).Occupies u := by simp [slots, hsq.1]
      have huj : u < j := occupies_lt hsq.2.1
      exact not_occupies_of_le (by omega) hgone hj (.of_mem hmem)
  · rintro ⟨hut, hd, halive⟩
    have htn : t < n := occupies_lt hocc
    obtain hocc | ⟨k, hk, hwb⟩ | ⟨k, hk, hsq⟩ := fate hd (show u < n by omega)
    · obtain hid | hex | hmem | hwb := hocc
      · exact absurd (ho.ex_id t h u hid) (by omega)
      · exact absurd (Option.some_inj.mp (hex.symm.trans h)) (by omega)
      · exact .inr hmem
      · exact .inl ⟨n, le_rfl, hwb⟩
    · exact .inl ⟨k, by omega, hwb⟩
    · exact absurd hsq (halive k hk)

end pipeline
