/-
# `Lib.Varint` — numbers as digits with a continuation mark

A number is written in base `b`, least digit first; every digit but the last is
raised by `b`, so that the reader knows where to stop.  `Encodes b n ds` is the
shortest such encoding.  It exists and is unique, and takes at most `k` digits
exactly for the numbers below `b ^ k`.
-/
import Mathlib.Algebra.Order.Ring.Nat
import Mathlib.Tactic.Common

namespace Varint

/-- `ds` writes `n` in base `b`, with no digit to spare. -/
inductive Encodes (b : Nat) : Nat → List Nat → Prop where
  | last {n : Nat} : n < b → Encodes b n [n]
  | more {n : Nat} {ds : List Nat} :
      b ≤ n → Encodes b (n / b) ds → Encodes b n ((n % b + b) :: ds)

variable {b n : Nat} {ds es : List Nat}

theorem exists_encodes (hb : 1 < b) (n : Nat) : ∃ ds, Encodes b n ds := by
  induction n using Nat.strong_induction_on with
  | _ n ih =>
      by_cases hn : n < b
      · exact ⟨[n], .last hn⟩
      · have hpos : 0 < n := by omega
        obtain ⟨ds, hds⟩ := ih (n / b) (Nat.div_lt_self hpos hb)
        exact ⟨_, .more (Nat.not_lt.mp hn) hds⟩

theorem Encodes.unique (h : Encodes b n ds) (h' : Encodes b n es) : ds = es := by
  induction h generalizing es with
  | last hn =>
      cases h' with
      | last _ => rfl
      | more hge _ => exact absurd hn (Nat.not_lt.mpr hge)
  | more hge _ ih =>
      cases h' with
      | last hn => exact absurd hn (Nat.not_lt.mpr hge)
      | more _ h' => rw [ih h']

theorem Encodes.length_pos (h : Encodes b n ds) : 0 < ds.length := by
  cases h <;> simp

theorem encodes_cons_iff {d : Nat} (hge : b ≤ n) :
    Encodes b n (d :: ds) ↔ d = n % b + b ∧ Encodes b (n / b) ds := by
  constructor
  · intro h
    cases h with
    | last hn => exact absurd hn (Nat.not_lt.mpr hge)
    | more _ h => exact ⟨rfl, h⟩
  · rintro ⟨rfl, h⟩
    exact .more hge h

theorem Encodes.digit_lt (hb : 0 < b) (h : Encodes b n ds) : ∀ d ∈ ds, d < 2 * b := by
  induction h with
  | last hn =>
      intro d hd
      rw [List.mem_singleton.mp hd]
      omega
  | @more n ds _ _ ih =>
      intro d hd
      rcases List.mem_cons.mp hd with rfl | hd
      · have hmod := Nat.mod_lt n hb
        omega
      · exact ih d hd

/-- `k + 1` digits reach as far as the numbers below `b ^ (k + 1)`. -/
theorem Encodes.length_le_iff (hb : 0 < b) (h : Encodes b n ds) :
    ∀ k, ds.length ≤ k + 1 ↔ n < b ^ (k + 1) := by
  induction h with
  | @last n hn =>
      intro k
      have hpow : b ≤ b ^ (k + 1) := Nat.le_self_pow (Nat.succ_ne_zero k) b
      exact iff_of_true (by simp) (by omega)
  | @more n ds hge hds ih =>
      intro k
      cases k with
      | zero =>
          refine iff_of_false ?_ ?_
          · have hpos := hds.length_pos
            simp only [List.length_cons]
            omega
          · simpa using hge
      | succ k =>
          rw [List.length_cons, Nat.add_le_add_iff_right, ih k,
            Nat.div_lt_iff_lt_mul hb, ← Nat.pow_succ]

end Varint
