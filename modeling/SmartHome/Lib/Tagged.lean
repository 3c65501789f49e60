/-
# `Lib.Tagged` — lists whose entries name their sender

A merge of several senders' lists keeps each sender's order and nothing else.  `part p` is what
stands in it from `p`.

**Rules proved here.**

    part_mono         a first part of the merge has a first part of every sender
    exists_decoded    what is known of the parts of encoded entries is known of the entries
    length_part_map   encoding does not change how many there are
-/
import Mathlib.Logic.Function.Basic
import Mathlib.Data.List.Basic

namespace Tagged

variable {N M C : Type} [DecidableEq N]

/-- What stands in the list from `p`, in order. -/
def part (p : N) (xs : List (N × M)) : List M := (xs.filter fun x => x.1 = p).map Prod.snd

theorem part_cons_self (p : N) (m : M) (xs : List (N × M)) :
    part p ((p, m) :: xs) = m :: part p xs := by
  simp [part]

theorem part_cons_of_ne {p q : N} (h : p ≠ q) (m : M) (xs : List (N × M)) :
    part q ((p, m) :: xs) = part q xs := by
  simp [part, h]

theorem part_mono {xs ys : List (N × M)} (h : xs <+: ys) (p : N) : part p xs <+: part p ys :=
  (h.filter _).map _

/-- When each sender's part encodes a first part of what it has, the whole list encodes such a
merge. -/
theorem exists_decoded {f : N → List M} {encode : N → M → C} {seen : List (N × C)}
    (h : ∀ p, part p seen <+: (f p).map (encode p)) :
    ∃ xs : List (N × M), xs.map (fun x => (x.1, encode x.1 x.2)) = seen ∧
      ∀ p, part p xs <+: f p := by
  induction seen generalizing f with
  | nil => exact ⟨[], rfl, fun p => List.nil_prefix⟩
  | cons x seen ih =>
      obtain ⟨p, c⟩ := x
      have hp := h p
      rw [part_cons_self] at hp
      cases hf : f p with
      | nil =>
          rw [hf, List.map_nil] at hp
          exact nomatch List.prefix_nil.mp hp
      | cons m ms =>
          rw [hf, List.map_cons] at hp
          obtain ⟨rfl, hrest⟩ := List.cons_prefix_cons.mp hp
          have hparts : ∀ q, part q seen <+: (Function.update f p ms q).map (encode q) := by
            intro q
            by_cases hq : p = q
            · subst hq
              rw [Function.update_self]
              exact hrest
            · have hother := h q
              rw [part_cons_of_ne hq] at hother
              rw [Function.update_of_ne (Ne.symm hq)]
              exact hother
          obtain ⟨xs, hxs, hfirst⟩ := ih hparts
          refine ⟨(p, m) :: xs, ?_, ?_⟩
          · rw [List.map_cons, hxs]
          · intro q
            have hq' := hfirst q
            by_cases hq : p = q
            · subst hq
              rw [Function.update_self] at hq'
              rw [part_cons_self, hf]
              exact List.cons_prefix_cons.mpr ⟨rfl, hq'⟩
            · rw [Function.update_of_ne (Ne.symm hq)] at hq'
              rw [part_cons_of_ne hq]
              exact hq'

theorem length_part_map (encode : N → M → C) (p : N) (xs : List (N × M)) :
    (part p (xs.map fun x => (x.1, encode x.1 x.2))).length = (part p xs).length := by
  induction xs with
  | nil => rfl
  | cons x xs ih =>
      obtain ⟨q, m⟩ := x
      rw [List.map_cons]
      by_cases hq : q = p
      · subst hq
        rw [part_cons_self, part_cons_self, List.length_cons, List.length_cons, ih]
      · rw [part_cons_of_ne hq, part_cons_of_ne hq, ih]

end Tagged
