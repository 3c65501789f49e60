/-
# `Lib.Framing` — packets cut from a byte stream

A framer looks at the bytes received so far and answers that they are malformed,
that more are needed, or that a packet stands at the front.  What it has once
answered, other than "more", does not change when further bytes arrive; this is all
that is asked of it.  A packet is cut off only when all its bytes are there.

**Rules proved here.**

    Parses.append_right   packets cut from a prefix are cut from the whole stream
    Parses.trans          cutting may stop and go on
    Parses.prefix_total   two ways to cut one stream agree as far as both go
    Parses.rest_unique    what is left is known by what has been cut off
    Parses.prefix_of      what is cut from the bytes received so far begins what is cut
                          from the whole stream, however it was divided into pieces
    parses_flatMap        a stream of encoded packets is cut into these packets
-/
import Mathlib.Data.List.Basic

namespace Framing

/-- What a framer answers: the bytes are malformed, more are needed, or the packet `a`
takes up the first `used` of them. -/
inductive Scan (ε α : Type) where
  | failed (e : ε)
  | more
  | frame (a : α) (used : Nat)
  deriving DecidableEq, Repr

structure Framer (β ε α : Type) where
  scan : List β → Scan ε α
  used_pos : ∀ {xs a n}, scan xs = .frame a n → 0 < n
  settled : ∀ {xs}, scan xs ≠ .more → ∀ ys, scan (xs ++ ys) = scan xs

variable {β ε α γ : Type} {F : Framer β ε α} {xs ys rest mid : List β} {as bs : List α}

/-- A packet stands at the front with all its bytes. -/
def Framer.Ready (F : Framer β ε α) (xs : List β) : Prop :=
  ∃ a n, F.scan xs = .frame a n ∧ n ≤ xs.length

/-- The packets `as` are cut from the front of `xs`, in order, and `rest` remains. -/
inductive Parses (F : Framer β ε α) : List β → List α → List β → Prop where
  | nil (xs : List β) : Parses F xs [] xs
  | cons {xs : List β} {a : α} {n : Nat} {as : List α} {rest : List β} :
      F.scan xs = .frame a n → n ≤ xs.length → Parses F (xs.drop n) as rest →
        Parses F xs (a :: as) rest

theorem Framer.scan_append_frame {a : α} {n : Nat} (h : F.scan xs = .frame a n) (ys : List β) :
    F.scan (xs ++ ys) = .frame a n := by
  rw [F.settled (by simp [h]) ys, h]

theorem Framer.scan_append_failed {e : ε} (h : F.scan xs = .failed e) (ys : List β) :
    F.scan (xs ++ ys) = .failed e := by
  rw [F.settled (by simp [h]) ys, h]

theorem Parses.append_right (h : Parses F xs as rest) (ys : List β) :
    Parses F (xs ++ ys) as (rest ++ ys) := by
  induction h with
  | nil xs => exact .nil _
  | @cons xs a n as rest hscan hle _ ih =>
      refine .cons (Framer.scan_append_frame hscan ys) ?_ ?_
      · rw [List.length_append]
        omega
      · rw [List.drop_append_of_le_length hle]
        exact ih

theorem Parses.trans (h : Parses F xs as mid) (h' : Parses F mid bs rest) :
    Parses F xs (as ++ bs) rest := by
  induction h with
  | nil => exact h'
  | cons hscan hle _ ih => exact .cons hscan hle (ih h')

theorem Parses.single {a : α} {n : Nat} (h : F.scan xs = .frame a n) (hle : n ≤ xs.length) :
    Parses F xs [a] (xs.drop n) :=
  .cons h hle (.nil _)

/-- One of two parses of the same bytes goes on where the other one stops. -/
theorem Parses.prefix_total (h : Parses F xs as rest) :
    ∀ {bs mid}, Parses F xs bs mid →
      (∃ cs, bs = as ++ cs ∧ Parses F rest cs mid) ∨
      (∃ cs, as = bs ++ cs ∧ Parses F mid cs rest) := by
  induction h with
  | nil xs => exact fun h' => .inl ⟨_, rfl, h'⟩
  | @cons xs a n as rest hscan hle hrest ih =>
      intro bs mid h'
      cases h' with
      | nil => exact .inr ⟨a :: as, rfl, .cons hscan hle hrest⟩
      | @cons _ a' n' bs _ hscan' _ hrest' =>
          obtain ⟨rfl, rfl⟩ := Scan.frame.inj (hscan.symm.trans hscan')
          rcases ih hrest' with ⟨cs, rfl, hcs⟩ | ⟨cs, rfl, hcs⟩
          · exact .inl ⟨cs, rfl, hcs⟩
          · exact .inr ⟨cs, rfl, hcs⟩

theorem Parses.rest_unique (h : Parses F xs as rest) (h' : Parses F xs as mid) : rest = mid := by
  rcases h.prefix_total h' with ⟨cs, heq, hcs⟩ | ⟨cs, heq, hcs⟩
  · obtain rfl : cs = [] := List.append_cancel_left (heq.symm.trans (List.append_nil as).symm)
    cases hcs
    rfl
  · obtain rfl : cs = [] := List.append_cancel_left (heq.symm.trans (List.append_nil as).symm)
    cases hcs
    rfl

theorem Parses.nil_eq (h : Parses F [] as rest) : as = [] ∧ rest = [] := by
  cases h with
  | nil => exact ⟨rfl, rfl⟩
  | cons hscan hle _ =>
      have hpos := F.used_pos hscan
      simp only [List.length_nil] at hle
      omega

theorem Parses.eq_nil_of_not_ready (hstuck : ¬ F.Ready xs) (h : Parses F xs as rest) :
    as = [] ∧ rest = xs := by
  cases h with
  | nil => exact ⟨rfl, rfl⟩
  | cons hscan hle _ => exact absurd ⟨_, _, hscan, hle⟩ hstuck

/-- **Chunking does not matter.** The packets cut from a first part of a stream that divides
evenly begin the packets of the whole. -/
theorem Parses.prefix_of (h : Parses F (xs ++ ys) bs []) (h' : Parses F xs as rest) :
    as <+: bs := by
  rcases (h'.append_right ys).prefix_total h with ⟨cs, rfl, _⟩ | ⟨cs, rfl, hcs⟩
  · exact List.prefix_append as cs
  · obtain ⟨rfl, _⟩ := hcs.nil_eq
    exact ⟨[], by simp only [List.append_nil]⟩

/-- When the whole stream has been received and no packet is left at the front, all of them
have been cut. -/
theorem Parses.eq_of_stuck (h : Parses F xs bs []) (h' : Parses F xs as rest)
    (hstuck : ¬ F.Ready rest) : as = bs ∧ rest = [] := by
  rcases h'.prefix_total h with ⟨cs, rfl, hcs⟩ | ⟨cs, rfl, hcs⟩
  · obtain ⟨rfl, hrest⟩ := hcs.eq_nil_of_not_ready hstuck
    exact ⟨(List.append_nil as).symm, hrest.symm⟩
  · obtain ⟨rfl, hrest⟩ := hcs.nil_eq
    exact ⟨List.append_nil bs, hrest⟩

/-- A stream of packets, each recognised by its own bytes, is cut into these packets. -/
theorem parses_flatMap {encode : γ → List β} {packet : γ → α} (gs : List γ)
    (hscan : ∀ g ∈ gs, F.scan (encode g) = .frame (packet g) (encode g).length) :
    Parses F (gs.flatMap encode) (gs.map packet) [] := by
  induction gs with
  | nil => exact .nil []
  | cons g gs ih =>
      obtain ⟨hg, hgs⟩ := List.forall_mem_cons.mp hscan
      rw [List.flatMap_cons, List.map_cons]
      refine .cons (Framer.scan_append_frame hg _) ?_ ?_
      · rw [List.length_append]
        omega
      · rw [List.drop_left]
        exact ih hgs

end Framing
