/-
# `Mqtt.PacketId` — the packet ids

`__mqtt_next_pid` steps a 16-bit feedback register until its state is the id of no message in
the queue.  The register goes through all states but zero before it repeats one, so the search
ends as long as one id is free, and never on zero.
-/
import SmartHome.Lib.Orbit
import Mathlib.Data.BitVec
import Mathlib.Data.FinEnum
import Mathlib.Tactic.NormNum.Prime

namespace SmartHome.Mqtt

open Function Orbit

def lfsrStep (pidLfsr : BitVec 16) : BitVec 16 :=
  let lsb := pidLfsr &&& 1
  let pidLfsr := pidLfsr >>> 1
  if lsb ≠ 0 then pidLfsr ^^^ 0xB400 else pidLfsr

/-- The `do` loop, `fuel` times round at most.  `used` are the ids of the queued messages. -/
def nextPidLoop (used : List (BitVec 16)) : (fuel : Nat) → BitVec 16 → Option (BitVec 16)
  | 0, _ => none
  | fuel + 1, pidLfsr =>
      let pidLfsr := lfsrStep pidLfsr
      if pidLfsr ∈ used then nextPidLoop used fuel pidLfsr else some pidLfsr

/-- `__mqtt_next_pid`: the id, which is the new state of the register as well.  A register that has
gone round all its states goes on for ever, which is `none`. -/
def nextPid (used : List (BitVec 16)) (pidLfsr : BitVec 16) : Option (BitVec 16) :=
  nextPidLoop used 65535 (if pidLfsr = 0 then 163 else pidLfsr)

/-! ## The period of the register -/

theorem lfsrStep_eq (u : BitVec 16) :
    lfsrStep u = (u >>> 1) ^^^ (if u.getLsbD 0 then 0xB400#16 else 0#16) := by
  have hlsb : u &&& 1 = (BitVec.ofBool (u.getLsbD 0)).setWidth 16 :=
    BitVec.and_one_eq_setWidth_ofBool_getLsbD
  simp only [lfsrStep, hlsb]
  cases u.getLsbD 0
  · simp
  · rfl

theorem xor_xor_xor_comm {w : Nat} (a b c d : BitVec w) :
    (a ^^^ b) ^^^ (c ^^^ d) = (a ^^^ c) ^^^ (b ^^^ d) := by
  ac_rfl

theorem additive_lfsrStep : Additive lfsrStep := by
  intro u v
  rw [lfsrStep_eq, lfsrStep_eq, lfsrStep_eq, BitVec.getLsbD_xor, BitVec.ushiftRight_xor_distrib,
    xor_xor_xor_comm (u >>> 1)]
  congr 1
  cases u.getLsbD 0 <;> cases v.getLsbD 0 <;> decide

/-- The images of the words with one bit set. -/
def lfsrColumns : List (BitVec 16) := (units 16 0 16).map lfsrStep

theorem iterate_lfsrStep {n : Nat} (hn : n < 2 ^ 16) (v : BitVec 16) :
    lfsrStep^[n] v = iterateBits 16 lfsrColumns n v :=
  (iterateBits_eq hn additive_lfsrStep (combine_map_units additive_lfsrStep)).symm

theorem prime_dvd_period {p : Nat} (hp : p.Prime) (hdvd : p ∣ 65535) :
    p = 3 ∨ p = 5 ∨ p = 17 ∨ p = 257 := by
  have hfactor : 65535 = 3 * (5 * (17 * 257)) := by decide
  rw [hfactor, hp.dvd_mul, hp.dvd_mul, hp.dvd_mul, Nat.prime_dvd_prime_iff_eq hp (by norm_num),
    Nat.prime_dvd_prime_iff_eq hp (by norm_num), Nat.prime_dvd_prime_iff_eq hp (by norm_num),
    Nat.prime_dvd_prime_iff_eq hp (by norm_num)] at hdvd
  exact hdvd

/-- From 1 the register comes back after 2¹⁶ - 1 steps and not before. -/
theorem minimalPeriod_one : minimalPeriod lfsrStep 1 = 65535 := by
  apply minimalPeriod_eq
  · rw [iterate_lfsrStep (by decide)]
    decide +kernel
  · intro p hp hdvd
    rcases prime_dvd_period hp hdvd with rfl | rfl | rfl | rfl <;>
      · rw [iterate_lfsrStep (by decide)]
        decide +kernel

def nonzero : Finset (BitVec 16) := Finset.univ.erase 0

theorem mem_nonzero {v : BitVec 16} : v ∈ nonzero ↔ v ≠ 0 := by
  simp [nonzero]

theorem card_nonzero : nonzero.card = 65535 := by
  have hcard : Fintype.card (BitVec 16) = 2 ^ 16 := by
    rw [Fintype.card_congr BitVec.equivFin.toEquiv, Fintype.card_fin]
  rw [nonzero, Finset.card_erase_of_mem (Finset.mem_univ _), Finset.card_univ, hcard]
  rfl

theorem iterate_one_mem_nonzero (k : Nat) : lfsrStep^[k] 1 ∈ nonzero := by
  rw [mem_nonzero]
  intro hzero
  have hstay : ∀ j, lfsrStep^[j] 0 = 0 := fun j => iterate_fixed additive_lfsrStep.zero j
  have hback : lfsrStep^[65535 * k] 1 = 1 := by
    have hperiodic := (isPeriodicPt_minimalPeriod lfsrStep 1).mul_const k
    rw [minimalPeriod_one] at hperiodic
    exact hperiodic
  have hreach : lfsrStep^[65535 * k] 1 = 0 := by
    rw [show 65535 * k = 65534 * k + k by omega, iterate_add_apply, hzero, hstay]
  rw [hback] at hreach
  exact absurd hreach (by decide)

theorem period_one_eq_card : minimalPeriod lfsrStep 1 = nonzero.card := by
  rw [minimalPeriod_one, card_nonzero]

theorem minimalPeriod_lfsrStep {v : BitVec 16} (hv : v ≠ 0) : minimalPeriod lfsrStep v = 65535 := by
  rw [minimalPeriod_eq_card period_one_eq_card iterate_one_mem_nonzero (mem_nonzero.mpr hv),
    card_nonzero]

theorem iterate_ne_zero {v : BitVec 16} (hv : v ≠ 0) (k : Nat) : lfsrStep^[k] v ≠ 0 := by
  obtain ⟨i, rfl⟩ :=
    exists_iterate_eq period_one_eq_card iterate_one_mem_nonzero (mem_nonzero.mpr hv)
  rw [← iterate_add_apply]
  exact mem_nonzero.mp (iterate_one_mem_nonzero (k + i))

theorem exists_iterate_lfsrStep {v u : BitVec 16} (hv : v ≠ 0) (hu : u ≠ 0) :
    ∃ k < 65535, lfsrStep^[k + 1] v = u := by
  have hclosed : ∀ k, lfsrStep^[k] v ∈ nonzero := fun k => mem_nonzero.mpr (iterate_ne_zero hv k)
  have hperiod : minimalPeriod lfsrStep v = nonzero.card := by
    rw [minimalPeriod_lfsrStep hv, card_nonzero]
  obtain ⟨k, rfl⟩ := exists_iterate_eq hperiod hclosed (mem_nonzero.mpr hu)
  have hmod := iterate_mod_minimalPeriod_eq (f := lfsrStep) (x := v) (n := k)
  have hround := iterate_minimalPeriod (f := lfsrStep) (x := v)
  rw [minimalPeriod_lfsrStep hv] at hmod hround
  by_cases hzero : k % 65535 = 0
  · refine ⟨65534, by decide, ?_⟩
    rw [hround, ← hmod, hzero]
    rfl
  · refine ⟨k % 65535 - 1, by omega, ?_⟩
    rw [Nat.sub_add_cancel (Nat.pos_of_ne_zero hzero), hmod]

/-! ## The search -/

theorem nextPidLoop_eq_none_iff {used : List (BitVec 16)} {fuel : Nat} {v : BitVec 16} :
    nextPidLoop used fuel v = none ↔ ∀ k < fuel, lfsrStep^[k + 1] v ∈ used := by
  induction fuel generalizing v with
  | zero => simp [nextPidLoop]
  | succ fuel ih =>
      rw [Nat.forall_lt_succ_left]
      simp only [nextPidLoop]
      by_cases hused : lfsrStep v ∈ used
      · rw [if_pos hused, ih]
        exact (and_iff_right hused).symm
      · rw [if_neg hused]
        exact iff_of_false nofun fun h => hused h.1

theorem nextPidLoop_eq_some {used : List (BitVec 16)} {fuel : Nat} {v pid : BitVec 16}
    (h : nextPidLoop used fuel v = some pid) :
    pid ∉ used ∧ ∃ k < fuel, lfsrStep^[k + 1] v = pid := by
  induction fuel generalizing v with
  | zero => cases h
  | succ fuel ih =>
      simp only [nextPidLoop] at h
      split at h
      · obtain ⟨hnot, k, hk, hpid⟩ := ih h
        exact ⟨hnot, k + 1, by omega, hpid⟩
      · rename_i hnot
        cases h
        exact ⟨hnot, 0, by omega, rfl⟩

theorem nextPidLoop_mono {used : List (BitVec 16)} {fuel more : Nat} {v pid : BitVec 16}
    (h : nextPidLoop used fuel v = some pid) (hle : fuel ≤ more) :
    nextPidLoop used more v = some pid := by
  induction fuel generalizing v more with
  | zero => cases h
  | succ fuel ih =>
      obtain ⟨more, rfl⟩ : ∃ m, more = m + 1 := ⟨more - 1, by omega⟩
      simp only [nextPidLoop] at h ⊢
      split at h
      · rename_i hused
        rw [if_pos hused]
        exact ih h (by omega)
      · rename_i hnot
        rw [if_neg hnot]
        exact h

/-- Where the search starts: a register at zero is set first. -/
def startPid (pidLfsr : BitVec 16) : BitVec 16 := if pidLfsr = 0 then 163 else pidLfsr

theorem startPid_ne_zero (pidLfsr : BitVec 16) : startPid pidLfsr ≠ 0 := by
  unfold startPid
  split
  · decide
  · assumption

theorem nextPid_fresh {used : List (BitVec 16)} {pidLfsr pid : BitVec 16}
    (h : nextPid used pidLfsr = some pid) : pid ≠ 0 ∧ pid ∉ used := by
  obtain ⟨hfree, k, _, rfl⟩ := nextPidLoop_eq_some h
  exact ⟨iterate_ne_zero (startPid_ne_zero pidLfsr) (k + 1), hfree⟩

theorem nextPid_eq_none_iff {used : List (BitVec 16)} {pidLfsr : BitVec 16} :
    nextPid used pidLfsr = none ↔ ∀ pid, pid ≠ 0 → pid ∈ used := by
  have hstart := startPid_ne_zero pidLfsr
  show nextPidLoop used 65535 (startPid pidLfsr) = none ↔ _
  rw [nextPidLoop_eq_none_iff]
  constructor
  · intro hall pid hpid
    obtain ⟨k, hk, rfl⟩ := exists_iterate_lfsrStep hstart hpid
    exact hall k hk
  · intro hall k _
    exact hall _ (iterate_ne_zero hstart (k + 1))

/-- One step more than there are messages is enough. -/
theorem exists_nextPidLoop {used : List (BitVec 16)} (hlen : used.length < 65535)
    (pidLfsr : BitVec 16) :
    ∃ pid, nextPidLoop used (used.length + 1) (startPid pidLfsr) = some pid := by
  rw [← minimalPeriod_lfsrStep (startPid_ne_zero pidLfsr)] at hlen
  obtain ⟨k, hk, hfree⟩ := exists_iterate_not_mem hlen
  apply Option.ne_none_iff_exists'.mp
  intro hnone
  exact hfree (nextPidLoop_eq_none_iff.mp hnone k (by omega))

theorem exists_nextPid {used : List (BitVec 16)} (hlen : used.length < 65535)
    (pidLfsr : BitVec 16) :
    ∃ pid, nextPid used pidLfsr = some pid ∧
      nextPidLoop used (used.length + 1) (startPid pidLfsr) = some pid := by
  obtain ⟨pid, hpid⟩ := exists_nextPidLoop hlen pidLfsr
  exact ⟨pid, nextPidLoop_mono hpid (by omega), hpid⟩

/-- **The packet ids.** Whatever the register holds, the id found is not zero and no queued
message has it.  The search does not end exactly when every id but zero is taken, however
often it goes round; with fewer than 65535 messages in the queue it ends after one step more
than there are messages. -/
theorem nextPid_spec (used : List (BitVec 16)) (pidLfsr : BitVec 16) :
    (∀ pid, nextPid used pidLfsr = some pid → pid ≠ 0 ∧ pid ∉ used) ∧
    ((∀ fuel, nextPidLoop used fuel (startPid pidLfsr) = none) ↔ ∀ pid, pid ≠ 0 → pid ∈ used) ∧
    (used.length < 65535 → ∃ pid, nextPid used pidLfsr = some pid ∧
      nextPidLoop used (used.length + 1) (startPid pidLfsr) = some pid) := by
  have hstart := startPid_ne_zero pidLfsr
  refine ⟨fun pid => nextPid_fresh, ?_, fun hlen => exists_nextPid hlen pidLfsr⟩
  refine ⟨fun h => nextPid_eq_none_iff.mp (h 65535), ?_⟩
  intro hall fuel
  rw [nextPidLoop_eq_none_iff]
  intro k _
  exact hall _ (iterate_ne_zero hstart (k + 1))

end SmartHome.Mqtt
