/-
# `Lib.Entries` — a list whose entries change in place

A queue is a list to which entries are added at the end, from which they are dropped at the front,
and in which single entries change.  These are the facts about such changes: what is kept of every
entry, of every two of them, and of those that a test picks out.

**Rules proved here.**

    forall_mem_modify, pairwise_modify,
    modify_append_length                  a change of one entry
    filter_modify, filter_dropWhile       changes that a test does not see
    length_filter_le_one                  entries that exclude one another
    pairwise_of_forall₂                   a list that resembles another entry by entry
    forall₂_append_right                  a part of one list and the part of another it resembles
-/
import Mathlib.Data.List.Forall2
import Mathlib.Data.List.Basic

namespace Entries

variable {α β : Type} {xs : List α} {f : α → α} {i : Nat}

theorem forall_mem_modify {P : α → Prop} (h : ∀ x ∈ xs, P x) (hf : ∀ x, P x → P (f x)) :
    ∀ x ∈ xs.modify i f, P x := by
  intro x hx
  obtain ⟨j, hj, rfl⟩ := List.mem_iff_getElem.mp hx
  rw [List.length_modify] at hj
  rw [List.getElem_modify]
  split
  · exact hf _ (h _ (List.getElem_mem hj))
  · exact h _ (List.getElem_mem hj)

theorem pairwise_modify {R : α → α → Prop} (h : xs.Pairwise R)
    (hleft : ∀ a b, R a b → R (f a) b) (hright : ∀ a b, R a b → R a (f b)) :
    (xs.modify i f).Pairwise R := by
  induction xs generalizing i with
  | nil =>
      rw [List.modify_nil]
      exact .nil
  | cons x xs ih =>
      obtain ⟨hx, hxs⟩ := List.pairwise_cons.mp h
      cases i with
      | zero =>
          rw [List.modify_zero_cons]
          exact .cons (fun b hb => hleft x b (hx b hb)) hxs
      | succ i =>
          rw [List.modify_succ_cons]
          exact .cons (forall_mem_modify hx fun b hb => hright x b hb) (ih hxs)

theorem modify_append_length (x : α) (ys : List α) :
    (xs ++ x :: ys).modify xs.length f = xs ++ f x :: ys := by
  induction xs with
  | nil => rfl
  | cons y xs ih =>
      rw [List.cons_append, List.length_cons, List.modify_succ_cons, ih, List.cons_append]

theorem filter_modify {p : α → Bool}
    (h : ∀ x, xs[i]? = some x → p x = false ∧ p (f x) = false) :
    (xs.modify i f).filter p = xs.filter p := by
  induction xs generalizing i with
  | nil => rw [List.modify_nil]
  | cons x xs ih =>
      cases i with
      | zero =>
          obtain ⟨hx, hfx⟩ := h x rfl
          simp [hx, hfx]
      | succ i =>
          rw [List.modify_succ_cons, List.filter_cons, List.filter_cons, ih h]

theorem filter_dropWhile {p d : α → Bool} (h : ∀ x, d x = true → p x = false) (xs : List α) :
    (xs.dropWhile d).filter p = xs.filter p := by
  induction xs with
  | nil => rfl
  | cons x xs ih =>
      rw [List.dropWhile_cons]
      split
      · rename_i hx
        rw [ih, List.filter_cons_of_neg]
        rw [h x hx]
        exact Bool.false_ne_true
      · rfl

/-- Of entries that exclude one another there is at most one. -/
theorem length_filter_le_one {R : α → α → Prop} {p : α → Bool} (h : xs.Pairwise R)
    (hp : ∀ a b, p a = true → p b = true → ¬ R a b) : (xs.filter p).length ≤ 1 := by
  have hfilter := h.filter p
  have hall : ∀ a ∈ xs.filter p, p a = true := fun a ha => (List.mem_filter.mp ha).2
  cases hxs : xs.filter p with
  | nil => exact Nat.zero_le _
  | cons a rest =>
      cases rest with
      | nil => exact Nat.le_refl _
      | cons b rest =>
          rw [hxs] at hfilter hall
          have hR := (List.pairwise_cons.mp hfilter).1 b List.mem_cons_self
          have hb := hall b (List.mem_cons_of_mem _ List.mem_cons_self)
          exact absurd hR (hp a b (hall a List.mem_cons_self) hb)

/-! ## Two lists -/

theorem exists_of_forall₂_mem_right {r : α → β → Prop} {ys : List β} (h : List.Forall₂ r xs ys)
    {y : β} (hy : y ∈ ys) : ∃ x ∈ xs, r x y := by
  induction h with
  | nil => cases hy
  | cons hr _ ih =>
      rcases List.mem_cons.mp hy with rfl | hy
      · exact ⟨_, List.mem_cons_self, hr⟩
      · obtain ⟨x, hx, hxy⟩ := ih hy
        exact ⟨x, List.mem_cons_of_mem _ hx, hxy⟩

theorem forall₂_append_right {r : α → β → Prop} {ys zs : List β}
    (h : List.Forall₂ r xs (ys ++ zs)) :
    ∃ us vs, xs = us ++ vs ∧ List.Forall₂ r us ys ∧ List.Forall₂ r vs zs :=
  ⟨xs.take ys.length, xs.drop ys.length, (List.take_append_drop _ _).symm,
    List.forall₂_take_append xs ys zs h, List.forall₂_drop_append xs ys zs h⟩

/-- What holds between the entries of one list holds between those of a list that resembles
it. -/
theorem pairwise_of_forall₂ {R r : α → α → Prop} {ys : List α} (h : List.Forall₂ r xs ys)
    (hR : ∀ a a' b b', r a a' → r b b' → R a b → R a' b') (hxs : xs.Pairwise R) :
    ys.Pairwise R := by
  induction h with
  | nil => exact .nil
  | @cons a a' xs ys ha hrest ih =>
      obtain ⟨hfirst, hxs⟩ := List.pairwise_cons.mp hxs
      refine .cons ?_ (ih hxs)
      intro b' hb'
      obtain ⟨b, hb, hr⟩ := exists_of_forall₂_mem_right hrest hb'
      exact hR a a' b b' ha hr (hfirst b hb)

end Entries
