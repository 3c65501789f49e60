/-
# `Lib.Arena` — records laid end to end in a block

A block holds the bytes of records one behind the other; a table says where each one starts,
how long it is and what else is known about it.  Read through the table, the block is a list
of records (`contents`): writing behind the last record appends to the list, moving the
bytes of the later records to the front and their starts with them drops the first ones, and a
write inside one record changes that record only.
-/
import Mathlib.Algebra.GroupWithZero.Nat
import Mathlib.Data.List.Basic

namespace Arena

/-- An entry of the table. -/
structure Slot (τ : Type) where
  start : Nat
  size : Nat
  tag : τ
  deriving DecidableEq, Repr

/-- A record with its bytes. -/
structure Record (β τ : Type) where
  bytes : List β
  tag : τ
  deriving DecidableEq, Repr

variable {β τ : Type}

/-- The slots are one behind the other from `a` to `b`. -/
def Laid : (a : Nat) → List (Slot τ) → (b : Nat) → Prop
  | a, [], b => a = b
  | a, s :: ss, b => s.start = a ∧ Laid (a + s.size) ss b

def Slot.bytes (mem : List β) (s : Slot τ) : List β := (mem.drop s.start).take s.size

def Slot.record (mem : List β) (s : Slot τ) : Record β τ := ⟨s.bytes mem, s.tag⟩

/-- The block, read through the table. -/
def contents (mem : List β) (ss : List (Slot τ)) : List (Record β τ) := ss.map (Slot.record mem)

def used (rs : List (Record β τ)) : Nat := (rs.map fun r => r.bytes.length).sum

def Slot.back (n : Nat) (s : Slot τ) : Slot τ := { s with start := s.start - n }

variable {a b c : Nat} {ss ts : List (Slot τ)} {mem : List β}

theorem Laid.le (h : Laid a ss b) : a ≤ b := by
  induction ss generalizing a with
  | nil => exact Nat.le_of_eq h
  | cons s ss ih => exact Nat.le_trans (Nat.le_add_right a s.size) (ih h.2)

theorem laid_append : Laid a (ss ++ ts) c ↔ ∃ b, Laid a ss b ∧ Laid b ts c := by
  induction ss generalizing a with
  | nil => exact ⟨fun h => ⟨a, rfl, h⟩, fun ⟨_, rfl, h⟩ => h⟩
  | cons s ss ih =>
      show s.start = a ∧ Laid (a + s.size) (ss ++ ts) c ↔ _
      rw [ih]
      constructor
      · rintro ⟨hstart, b, hss, hts⟩
        exact ⟨b, ⟨hstart, hss⟩, hts⟩
      · rintro ⟨b, ⟨hstart, hss⟩, hts⟩
        exact ⟨hstart, b, hss, hts⟩

theorem Laid.bounds (h : Laid a ss b) : ∀ s ∈ ss, a ≤ s.start ∧ s.start + s.size ≤ b := by
  induction ss generalizing a with
  | nil => nofun
  | cons s ss ih =>
      obtain ⟨rfl, hss⟩ := h
      intro s' hs'
      rcases List.mem_cons.mp hs' with rfl | hs'
      · exact ⟨Nat.le_refl _, hss.le⟩
      · obtain ⟨hlo, hhi⟩ := ih hss s' hs'
        exact ⟨by omega, hhi⟩

theorem length_bytes {s : Slot τ} (h : s.start + s.size ≤ mem.length) :
    (s.bytes mem).length = s.size := by
  rw [Slot.bytes, List.length_take, List.length_drop]
  omega

theorem Laid.used (h : Laid a ss b) (hb : b ≤ mem.length) :
    a + Arena.used (contents mem ss) = b := by
  induction ss generalizing a with
  | nil => exact h
  | cons s ss ih =>
      obtain ⟨rfl, hss⟩ := h
      have hlen : (s.bytes mem).length = s.size := length_bytes (Nat.le_trans hss.le hb)
      show s.start + ((s.bytes mem).length + Arena.used (contents mem ss)) = b
      rw [hlen, ← Nat.add_assoc]
      exact ih hss

/-! ## Appending -/

theorem contents_append_bytes (h : Laid a ss b) (hb : b ≤ mem.length) (bytes : List β) :
    contents (mem ++ bytes) ss = contents mem ss := by
  apply List.map_congr_left
  intro s hs
  have hbounds := h.bounds s hs
  have hbytes : s.bytes (mem ++ bytes) = s.bytes mem := by
    rw [Slot.bytes, Slot.bytes, List.drop_append_of_le_length (by omega),
      List.take_append_of_le_length]
    rw [List.length_drop]
    omega
  rw [Slot.record, Slot.record, hbytes]

theorem contents_append (h : Laid a ss mem.length) (bytes : List β) (tag : τ) :
    contents (mem ++ bytes) (ss ++ [⟨mem.length, bytes.length, tag⟩]) =
      contents mem ss ++ [⟨bytes, tag⟩] := by
  have hold : contents (mem ++ bytes) ss = contents mem ss :=
    contents_append_bytes h (Nat.le_refl _) bytes
  have hnew : Slot.record (mem ++ bytes) ⟨mem.length, bytes.length, tag⟩ = ⟨bytes, tag⟩ := by
    simp [Slot.record, Slot.bytes]
  rw [← hold, ← hnew]
  exact List.map_append

theorem Laid.append (h : Laid a ss mem.length) (bytes : List β) (tag : τ) :
    Laid a (ss ++ [⟨mem.length, bytes.length, tag⟩]) (mem ++ bytes).length := by
  refine laid_append.mpr ⟨mem.length, h, rfl, ?_⟩
  show mem.length + bytes.length = (mem ++ bytes).length
  rw [List.length_append]

/-! ## Dropping -/

theorem Laid.back (h : Laid a ss b) {n : Nat} (hn : n ≤ a) :
    Laid (a - n) (ss.map (Slot.back n)) (b - n) := by
  induction ss generalizing a with
  | nil =>
      obtain rfl : a = b := h
      rfl
  | cons s ss ih =>
      obtain ⟨rfl, hss⟩ := h
      have hrest := ih hss (Nat.le_trans hn (Nat.le_add_right _ _))
      rw [Nat.sub_add_comm hn] at hrest
      exact ⟨rfl, hrest⟩

/-- The bytes of the later records are moved to the front. -/
theorem contents_back (h : Laid a ss b) :
    contents (mem.drop a) (ss.map (Slot.back a)) = contents mem ss := by
  rw [contents, contents, List.map_map]
  apply List.map_congr_left
  intro s hs
  have hlo := (h.bounds s hs).1
  show Record.mk (((mem.drop a).drop (s.start - a)).take s.size) s.tag = _
  rw [List.drop_drop, Nat.add_sub_cancel' hlo]
  rfl

/-! ## Writing inside a record -/

theorem bytes_modify_of_before {s : Slot τ} {p : Nat} (h : p < s.start) (f : β → β) :
    s.bytes (mem.modify p f) = s.bytes mem := by
  rw [Slot.bytes, Slot.bytes, List.drop_modify_of_lt _ _ _ _ h]

theorem bytes_modify {s : Slot τ} (k : Nat) (f : β → β) :
    s.bytes (mem.modify (s.start + k) f) = (s.bytes mem).modify k f := by
  rw [Slot.bytes, Slot.bytes, List.drop_modify_of_ge _ _ _ _ (Nat.le_add_right _ _),
    Nat.add_sub_cancel_left, List.take_modify]

theorem bytes_modify_of_behind {s : Slot τ} {p : Nat} (h : s.start + s.size ≤ p) (f : β → β) :
    s.bytes (mem.modify p f) = s.bytes mem := by
  obtain ⟨k, rfl⟩ : ∃ k, p = s.start + k := ⟨p - s.start, by omega⟩
  rw [bytes_modify, List.modify_eq_self]
  rw [Slot.bytes, List.length_take]
  omega

theorem laid_modify_tag (f : τ → τ) (i : Nat) :
    Laid a (ss.modify i fun s => { s with tag := f s.tag }) b ↔ Laid a ss b := by
  induction ss generalizing a i with
  | nil => rw [List.modify_nil]
  | cons s ss ih =>
      cases i with
      | zero => exact Iff.rfl
      | succ i => exact and_congr_right fun _ => ih i

theorem contents_modify_tag (f : τ → τ) (i : Nat) :
    contents mem (ss.modify i fun s => { s with tag := f s.tag }) =
      (contents mem ss).modify i fun r => { r with tag := f r.tag } := by
  induction ss generalizing i with
  | nil => rw [List.modify_nil, contents, List.map_nil, List.modify_nil]
  | cons s ss ih =>
      cases i with
      | zero => rfl
      | succ i => exact congrArg (s.record mem :: ·) (ih i)

/-- A write inside one record changes that record only. -/
theorem contents_modify {s : Slot τ} {i k : Nat} (h : Laid a ss b) (hi : ss[i]? = some s)
    (hk : k < s.size) (f : β → β) :
    contents (mem.modify (s.start + k) f) ss =
      (contents mem ss).modify i fun r => { r with bytes := r.bytes.modify k f } := by
  induction ss generalizing a i with
  | nil => cases hi
  | cons s' ss ih =>
      obtain ⟨rfl, hss⟩ := h
      cases i with
      | zero =>
          obtain rfl : s' = s := Option.some.inj hi
          have hrest : contents (mem.modify (s'.start + k) f) ss = contents mem ss := by
            apply List.map_congr_left
            intro t ht
            have hbounds := hss.bounds t ht
            rw [Slot.record, Slot.record, bytes_modify_of_before (by omega)]
          show ⟨s'.bytes (mem.modify (s'.start + k) f), s'.tag⟩ :: contents _ ss = _
          rw [hrest, bytes_modify]
          rfl
      | succ i =>
          have hs : s ∈ ss := List.mem_of_getElem? hi
          have hbounds := hss.bounds s hs
          show ⟨s'.bytes (mem.modify (s.start + k) f), s'.tag⟩ :: contents _ ss = _
          rw [bytes_modify_of_behind (by omega), ih hss hi]
          rfl

end Arena
