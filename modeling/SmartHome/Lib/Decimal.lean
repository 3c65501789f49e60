/-
# `Lib.Decimal` — signed decimal text and back

`render` is the text of an integer in base ten, with a leading minus sign where
it is negative; `parse` reads an integer as the C library does, skipping white
space, taking one optional sign and then digits for as long as there are any.
Reading what was rendered gives the integer back (`parse_render`), and the text
of an integer below `10 ^ k` is non-empty, made of digits and the minus sign
only, and at most `k + 1` long.
-/
import Mathlib.Algebra.Group.Int.Defs
import Mathlib.Algebra.Group.Nat.Defs
import Mathlib.Data.List.TakeWhile

namespace Decimal

/-- The decimal text of an integer. -/
def render (n : Int) : List Char :=
  if n < 0 then '-' :: Nat.toDigits 10 n.natAbs else Nat.toDigits 10 n.natAbs

/-- White space in the C locale. -/
def isSpace (c : Char) : Bool := c = ' ' || (9 ≤ c.toNat && c.toNat ≤ 13)

/-- The digits a number starts with. -/
def magnitude (s : List Char) : Nat := Nat.ofDigitChars 10 (s.takeWhile Char.isDigit) 0

/-- White space, one optional sign, digits; what follows them is not read. -/
def parse (s : List Char) : Int :=
  match s.dropWhile isSpace with
  | '-' :: rest => - (magnitude rest : Int)
  | '+' :: rest => magnitude rest
  | rest => magnitude rest

theorem isDigit_toDigits {n : Nat} : ∀ c ∈ Nat.toDigits 10 n, c.isDigit := fun _ hc =>
  Nat.isDigit_of_mem_toDigits (by decide) (by decide) hc

theorem mem_render {n : Int} {c : Char} (h : c ∈ render n) : c.isDigit ∨ c = '-' := by
  unfold render at h
  split at h
  · rcases List.mem_cons.mp h with h | h
    · exact Or.inr h
    · exact Or.inl (isDigit_toDigits c h)
  · exact Or.inl (isDigit_toDigits c h)

theorem not_mem_render {n : Int} {c : Char} (hd : c.isDigit = false) (hs : c ≠ '-') :
    c ∉ render n := by
  intro h
  rcases mem_render h with h | h
  · exact absurd (hd.symm.trans h) (by decide)
  · exact hs h

theorem render_ne_nil (n : Int) : render n ≠ [] := by
  unfold render
  split
  · exact List.cons_ne_nil _ _
  · exact Nat.toDigits_ne_nil

theorem length_render_le {n : Int} {k : Nat} (hk : 0 < k) (h : n.natAbs < 10 ^ k) :
    (render n).length ≤ k + 1 := by
  have hlen := (Nat.length_toDigits_le_iff (by decide) hk).mpr h
  unfold render
  split
  · simpa using hlen
  · omega

theorem magnitude_toDigits (n : Nat) : magnitude (Nat.toDigits 10 n) = n := by
  rw [magnitude, List.takeWhile_eq_self_iff.mpr isDigit_toDigits, Nat.ofDigitChars_ten_toDigits]

theorem digit_cases {c : Char} (h : c.isDigit) : isSpace c = false ∧ c ≠ '-' ∧ c ≠ '+' := by
  have hle : 48 ≤ c.toNat ∧ c.toNat ≤ 57 := by
    simp only [Char.isDigit, Bool.and_eq_true, decide_eq_true_eq, ge_iff_le,
      UInt32.le_iff_toNat_le] at h
    exact h
  refine ⟨?_, ?_, ?_⟩
  · have hne : c ≠ ' ' := by rintro rfl; exact absurd hle.1 (by decide)
    simp only [isSpace, hne, decide_false, Bool.false_or, Bool.and_eq_false_iff,
      decide_eq_false_iff_not]
    omega
  · rintro rfl; exact absurd hle.1 (by decide)
  · rintro rfl; exact absurd hle.1 (by decide)

theorem parse_toDigits (n : Nat) : parse (Nat.toDigits 10 n) = n := by
  obtain ⟨c, cs, hc⟩ := List.exists_cons_of_ne_nil (Nat.toDigits_ne_nil (n := n) (b := 10))
  obtain ⟨hsp, hminus, hplus⟩ := digit_cases (isDigit_toDigits (n := n) c (hc ▸ List.mem_cons_self))
  have hm := magnitude_toDigits n
  rw [hc] at hm ⊢
  have hdrop : (c :: cs).dropWhile isSpace = c :: cs := by simp [hsp]
  unfold parse
  rw [hdrop]
  split
  · rename_i h; exact absurd (List.cons.inj h).1 hminus
  · rename_i h; exact absurd (List.cons.inj h).1 hplus
  · rw [hm]

/-- Reading back what was rendered. -/
theorem parse_render (n : Int) : parse (render n) = n := by
  unfold render
  split
  · have h : parse ('-' :: Nat.toDigits 10 n.natAbs) = - (n.natAbs : Int) := by
      rw [parse, show ('-' :: Nat.toDigits 10 n.natAbs).dropWhile isSpace
        = '-' :: Nat.toDigits 10 n.natAbs by simp [show isSpace '-' = false by decide]]
      simp only [magnitude_toDigits]
    rw [h]; omega
  · rw [parse_toDigits]; omega

end Decimal
