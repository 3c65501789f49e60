/-
# `Lib.Orbit` — going round a cycle until something is free

A generator steps through its states with `f`.  When one state has a cycle as long as there
are states, every state has (`minimalPeriod_eq_card`), and a search along the cycle finds a
state outside any shorter list (`exists_iterate_not_mem`).

The period of an additive function on words is found by squaring: it is given by the images
of the words with one bit set, and those of `f ∘ f` follow from those of `f` without running
it (`iterateBits_eq`).
-/
import Mathlib.Dynamics.PeriodicPts.Defs
import Mathlib.Data.Finset.Card
import Mathlib.Data.Nat.Prime.Basic

namespace Orbit

open Function

/-! ## Cycles -/

variable {α : Type} {f : α → α} {x y : α}

theorem exists_iterate_eq [DecidableEq α] {S : Finset α} (hperiod : minimalPeriod f x = S.card)
    (hclosed : ∀ k, f^[k] x ∈ S) (hy : y ∈ S) : ∃ k, f^[k] x = y := by
  have hinj : Set.InjOn (fun k => f^[k] x) (Finset.range S.card) := by
    intro i hi j hj hij
    have hlt : ∀ k ∈ (Finset.range S.card : Set Nat), k ∈ Set.Iio (minimalPeriod f x) := by
      intro k hk
      rw [hperiod]
      exact Set.mem_Iio.mpr (Finset.mem_range.mp hk)
    exact iterate_injOn_Iio_minimalPeriod (hlt i hi) (hlt j hj) hij
  have hcard : ((Finset.range S.card).image fun k => f^[k] x).card = S.card := by
    rw [Finset.card_image_of_injOn hinj, Finset.card_range]
  have himage : (Finset.range S.card).image (fun k => f^[k] x) = S := by
    apply Finset.eq_of_subset_of_card_le
    · intro z hz
      obtain ⟨k, -, rfl⟩ := Finset.mem_image.mp hz
      exact hclosed k
    · exact Nat.le_of_eq hcard.symm
  rw [← himage] at hy
  obtain ⟨k, -, hk⟩ := Finset.mem_image.mp hy
  exact ⟨k, hk⟩

theorem minimalPeriod_eq_card [DecidableEq α] {S : Finset α}
    (hperiod : minimalPeriod f x = S.card) (hclosed : ∀ k, f^[k] x ∈ S) (hy : y ∈ S) :
    minimalPeriod f y = S.card := by
  obtain ⟨k, rfl⟩ := exists_iterate_eq hperiod hclosed hy
  have hpos : 0 < minimalPeriod f x := hperiod ▸ Finset.card_pos.mpr ⟨_, hy⟩
  rw [minimalPeriod_apply_iterate (minimalPeriod_pos_iff_mem_periodicPts.mp hpos), hperiod]

/-- One step beyond a state, as many steps as the list is long and one more meet a state that
is not on the list. -/
theorem exists_iterate_not_mem [DecidableEq α] {used : List α}
    (hlen : used.length < minimalPeriod f x) : ∃ k ≤ used.length, f^[k + 1] x ∉ used := by
  by_contra hall
  have hmem : ∀ k ≤ used.length, f^[k + 1] x ∈ used := fun k hk => by
    by_contra hnot
    exact hall ⟨k, hk, hnot⟩
  have hperiodic : x ∈ periodicPts f := minimalPeriod_pos_iff_mem_periodicPts.mp (by omega)
  have hinj : Set.InjOn (fun k => f^[k + 1] x) (Finset.range (used.length + 1)) := by
    intro i hi j hj hij
    have hlt : ∀ k ∈ (Finset.range (used.length + 1) : Set Nat),
        k ∈ Set.Iio (minimalPeriod f (f x)) := by
      intro k hk
      rw [minimalPeriod_apply hperiodic]
      have hk' : k < used.length + 1 := by simpa using hk
      exact Set.mem_Iio.mpr (by omega)
    exact iterate_injOn_Iio_minimalPeriod (hlt i hi) (hlt j hj) hij
  have hsub : (Finset.range (used.length + 1)).image (fun k => f^[k + 1] x) ⊆ used.toFinset := by
    intro z hz
    obtain ⟨k, hk, rfl⟩ := Finset.mem_image.mp hz
    exact List.mem_toFinset.mpr (hmem k (by simpa [Nat.lt_succ_iff] using hk))
  have hcard := Finset.card_le_card hsub
  rw [Finset.card_image_of_injOn hinj, Finset.card_range] at hcard
  have hle := used.toFinset_card_le
  omega

/-- A period is the minimal one when no quotient by one of its primes is a period. -/
theorem minimalPeriod_eq {n : Nat} (hperiod : f^[n] x = x)
    (hprime : ∀ p, p.Prime → p ∣ n → f^[n / p] x ≠ x) : minimalPeriod f x = n := by
  obtain ⟨m, hm⟩ := IsPeriodicPt.minimalPeriod_dvd (f := f) hperiod
  by_contra hne
  have hm1 : m ≠ 1 := by
    rintro rfl
    exact hne (by rw [hm, Nat.mul_one])
  obtain ⟨p, hp, k, rfl⟩ := Nat.exists_prime_and_dvd hm1
  have hquot : n / p = minimalPeriod f x * k := by
    rw [hm, show minimalPeriod f x * (p * k) = p * (minimalPeriod f x * k) by
      rw [Nat.mul_left_comm], Nat.mul_div_cancel_left _ hp.pos]
  refine hprime p hp ⟨minimalPeriod f x * k, ?_⟩ ?_
  · rw [hm, Nat.mul_left_comm]
  · have hiter : IsPeriodicPt f (n / p) x :=
      isPeriodicPt_iff_minimalPeriod_dvd.mpr (hquot ▸ Nat.dvd_mul_right _ k)
    exact hiter

/-! ## Additive functions on words -/

variable {w : Nat} {g : BitVec w → BitVec w}

def Additive (g : BitVec w → BitVec w) : Prop := ∀ u v, g (u ^^^ v) = g u ^^^ g v

theorem Additive.zero (hg : Additive g) : g 0#w = 0#w := by
  have h := hg 0#w 0#w
  rw [BitVec.xor_self, BitVec.xor_self] at h
  exact h

theorem Additive.comp (hg : Additive g) : Additive (g ∘ g) := by
  intro u v
  show g (g (u ^^^ v)) = _
  rw [hg, hg]
  rfl

/-- The exclusive or of the words at the positions of the bits of `n`, lowest bit first. -/
def combine : List (BitVec w) → Nat → BitVec w
  | [], _ => 0#w
  | c :: cs, n => (if n.testBit 0 then c else 0#w) ^^^ combine cs (n / 2)

theorem combine_map (hg : Additive g) (cs : List (BitVec w)) (n : Nat) :
    combine (cs.map g) n = g (combine cs n) := by
  induction cs generalizing n with
  | nil => exact hg.zero.symm
  | cons c cs ih =>
      rw [List.map_cons, combine, combine, hg, ih]
      congr 1
      split
      · rfl
      · exact hg.zero.symm

/-- The words with one bit set, from bit `i` on. -/
def units (w i k : Nat) : List (BitVec w) := (List.range' i k).map (BitVec.twoPow w)

theorem getLsbD_combine_units (i k n j : Nat) :
    (combine (units w i k) n).getLsbD j =
      (decide (j < w) && decide (i ≤ j) && decide (j < i + k) && n.testBit (j - i)) := by
  induction k generalizing i n with
  | zero =>
      have hempty : ¬ (i ≤ j ∧ j < i) := by omega
      by_cases hij : i ≤ j
      · have hji : ¬ j < i := by omega
        simp [units, combine, hji]
      · simp [units, combine, hij]
  | succ k ih =>
      have ih' : (combine (units w (i + 1) k) (n / 2)).getLsbD j = _ := ih (i + 1) (n / 2)
      show ((if n.testBit 0 then BitVec.twoPow w i else 0#w) ^^^
        combine (units w (i + 1) k) (n / 2)).getLsbD j = _
      rw [BitVec.getLsbD_xor, ih']
      by_cases hij : i = j
      · subst hij
        have hlow : ¬ i + 1 ≤ i := by omega
        have hhigh : i < i + (k + 1) := by omega
        cases hbit : n.testBit 0 <;> simp [hlow, hhigh, hbit]
      · have hfirst : (if n.testBit 0 then BitVec.twoPow w i else 0#w).getLsbD j = false := by
          split
          · simp [BitVec.getLsbD_twoPow, hij]
          · exact BitVec.getLsbD_zero
        rw [hfirst, Bool.false_xor]
        by_cases hle : i + 1 ≤ j
        · have hbit : (n / 2).testBit (j - (i + 1)) = n.testBit (j - i) := by
            rw [show j - i = (j - (i + 1)) + 1 by omega, Nat.testBit_succ]
          have hle' : i ≤ j := by omega
          have hbound : j < i + 1 + k ↔ j < i + (k + 1) := by omega
          simp only [hle, hle', hbit, hbound]
        · have hle' : ¬ i ≤ j := by omega
          simp [hle, hle']

theorem combine_units (v : BitVec w) : combine (units w 0 w) v.toNat = v := by
  apply BitVec.eq_of_getLsbD_eq
  intro j hj
  rw [getLsbD_combine_units, Nat.sub_zero, BitVec.testBit_toNat, Nat.zero_add]
  simp [hj]

theorem combine_map_units (hg : Additive g) (v : BitVec w) :
    combine ((units w 0 w).map g) v.toNat = g v := by
  rw [combine_map hg, combine_units]

/-- The images of the units under the function applied twice. -/
def square (cs : List (BitVec w)) : List (BitVec w) := cs.map fun c => combine cs c.toNat

/-- The `n`-th iterate, by the bits of `n`. -/
def iterateBits : (bits : Nat) → List (BitVec w) → (n : Nat) → BitVec w → BitVec w
  | 0, _, _, v => v
  | bits + 1, cs, n, v =>
      iterateBits bits (square cs) (n / 2) (if n.testBit 0 then combine cs v.toNat else v)

theorem iterateBits_eq {bits n : Nat} (hn : n < 2 ^ bits) {cs : List (BitVec w)} {v : BitVec w}
    (hg : Additive g) (hcs : ∀ v, combine cs v.toNat = g v) :
    iterateBits bits cs n v = g^[n] v := by
  induction bits generalizing n cs v g with
  | zero =>
      obtain rfl : n = 0 := by simpa using hn
      rfl
  | succ bits ih =>
      have hsquare : ∀ v, combine (square cs) v.toNat = (g ∘ g) v := by
        intro v
        have hmap : square cs = cs.map g := List.map_congr_left fun c _ => hcs c
        rw [hmap, combine_map hg, hcs]
        rfl
      have hhalf : n / 2 < 2 ^ bits := by
        rw [Nat.pow_succ] at hn
        omega
      have htwice : (g ∘ g)^[n / 2] = g^[2 * (n / 2)] := by
        rw [iterate_mul]
        rfl
      rw [iterateBits, ih hhalf hg.comp hsquare, htwice, hcs]
      by_cases hbit : n.testBit 0 = true
      · have hodd : (2 * (n / 2)).succ = n := by
          have hmod : n % 2 = 1 := by simpa [Nat.testBit_zero] using hbit
          omega
        rw [if_pos hbit, ← iterate_succ_apply, hodd]
      · have heven : n = 2 * (n / 2) := by
          have hmod : ¬ n % 2 = 1 := by simpa [Nat.testBit_zero] using hbit
          omega
        rw [if_neg hbit, ← heven]

end Orbit
