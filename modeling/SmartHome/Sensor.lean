/-
# `Sensor` — the reading `read_pin` makes up

The pins are not read; `read_pin` takes `rand()+arg_pin`, reduces it by C's remainder
and adds 20.  The result is between 20 and 29 while the sum neither overflows nor is
negative without being a multiple of ten.  With the pin the main assigns only the top
of `rand()`'s range fails; the bathroom sensor's pin is whatever the stack held.
-/
import SmartHome.Reach

namespace SmartHome

open Traced

/-- The sum in `read_pin`, were an `int` unbounded. -/
def pinSum (rand argPin : Int32) : Int := rand.toInt + argPin.toInt

/-- The sum is an `int`. -/
def SumFits (rand argPin : Int32) : Prop :=
  -2147483648 ≤ pinSum rand argPin ∧ pinSum rand argPin ≤ 2147483647

/-- `value` in `read_pin`; both remainders truncate towards zero. -/
def pinValue (rand argPin : Int32) : Int32 := (rand + argPin) % 10 + 20

/-- `update_sensors_value`, where `rand()` returns `rand`. -/
def updateFromPin (rand : Int32) (index : Nat) (devices : List Device) : Exec (List Device) :=
  match devices[index]? with
  | some d => updateSensorsValue (pinValue rand d.gpio_pin) index devices
  | none => stop (.badIndex index)

/-- `value` in `automation_control`, from the second token. -/
def recovered (arg : CStr) : Option Int32 := ((strtok 'l' arg).map Prod.fst).map atoi

/-- The sum is an `int`, and the reading is `<n>lr` with `n` from 20 to 29, as it is stored, as
it is published and as `automation_control` reads it. -/
structure ReadsInRange (rand : Int32) (i : Nat) (d : Device) (devices : List Device) : Prop where
  sum : SumFits rand d.gpio_pin
  reading : ∃ n : Int32, 20 ≤ n.toInt ∧ n.toInt ≤ 29 ∧
    (∃ devices' out, completed (updateFromPin rand i devices) = some (devices', out) ∧
      devices'[i]?.map Device.value = some (sprintfD n ++ "lr".toList) ∧
      ∀ m ∈ out, m = ⟨Topic.controler,
        sprintfChanged d.id Property.value.name (sprintfD n ++ "lr".toList)⟩) ∧
    recovered (sprintfD n ++ "lr".toList) = some n

/-- No overflow, and no negative remainder. -/
def Steady (rand argPin : Int32) : Prop :=
  pinSum rand argPin ≤ 2147483647 ∧ (0 ≤ pinSum rand argPin ∨ (10 : Int) ∣ pinSum rand argPin)

instance (rand argPin : Int32) : Decidable (Steady rand argPin) :=
  inferInstanceAs (Decidable (_ ∧ _))

/-- The pin of a sensor of the main. -/
def assignedPin (u : Uninit) (id : CStr) : Int32 :=
  if id = "temp_sensor_bathroom".toList then u.gpio_pin else 15

/-! ## The arithmetic -/

theorem tmod_ten (a : Int) : a.tmod 10 = a % 10 - if 0 ≤ a ∨ (10 : Int) ∣ a then 0 else 10 := by
  rw [Int.tmod_eq_emod]
  split
  · rfl
  · rfl

theorem tmod_ten_range (a : Int) :
    (20 ≤ a.tmod 10 + 20 ∧ a.tmod 10 + 20 ≤ 29) ↔ 0 ≤ a ∨ (10 : Int) ∣ a := by
  rw [tmod_ten]
  split
  · omega
  · omega

theorem toInt_pinValue {rand argPin : Int32} (h : SumFits rand argPin) :
    (pinValue rand argPin).toInt = (pinSum rand argPin).tmod 10 + 20 := by
  obtain ⟨hlo, hhi⟩ := h
  have hsum : (rand + argPin).toInt = pinSum rand argPin := by
    rw [Int32.toInt_add]
    refine Int.bmod_eq_of_le_mul_two ?_ ?_
    · simp only [pinSum] at hlo
      omega
    · simp only [pinSum] at hhi
      omega
  have hten : (10 : Int32).toInt = 10 := rfl
  have htwenty : (20 : Int32).toInt = 20 := rfl
  have hrange : -10 < (pinSum rand argPin).tmod 10 ∧ (pinSum rand argPin).tmod 10 < 10 := by
    rw [tmod_ten]
    split
    · omega
    · omega
  rw [pinValue, Int32.toInt_add, Int32.toInt_mod, hsum, hten, htwenty]
  refine Int.bmod_eq_of_le_mul_two ?_ ?_
  · omega
  · omega

/-- The reading is in range exactly when the sum is steady; `rand()` is never negative. -/
theorem steady_iff {rand argPin : Int32} (hrand : 0 ≤ rand.toInt) : Steady rand argPin ↔
    SumFits rand argPin ∧ 20 ≤ (pinValue rand argPin).toInt ∧
      (pinValue rand argPin).toInt ≤ 29 := by
  have hlo : -2147483648 ≤ pinSum rand argPin := by
    have := argPin.le_toInt
    simp only [pinSum]
    omega
  constructor
  · rintro ⟨hhi, hsign⟩
    have hfits : SumFits rand argPin := ⟨hlo, hhi⟩
    rw [toInt_pinValue hfits]
    exact ⟨hfits, (tmod_ten_range _).mpr hsign⟩
  · rintro ⟨hfits, hrange⟩
    rw [toInt_pinValue hfits] at hrange
    exact ⟨hfits.2, (tmod_ten_range _).mp hrange⟩

/-! ## The text -/

theorem recovered_readingText (n : Int32) : recovered (readingText n) = some n := by
  rw [recovered, strtok_readingText, Option.map_some, Option.map_some, atoi_sprintfD]

theorem updateFromPin_of_get {devices : List Device} {i : Nat} {d : Device}
    (hd : devices[i]? = some d) (rand : Int32) :
    updateFromPin rand i devices = updateSensorsValue (pinValue rand d.gpio_pin) i devices := by
  simp only [updateFromPin, hd]

theorem readsInRange_iff {devices : List Device} {i : Nat} {d : Device}
    (hd : devices[i]? = some d) (rand : Int32) : ReadsInRange rand i d devices ↔
      SumFits rand d.gpio_pin ∧ 20 ≤ (pinValue rand d.gpio_pin).toInt ∧
        (pinValue rand d.gpio_pin).toInt ≤ 29 := by
  have hrun := completed_updateSensorsValue hd (pinValue rand d.gpio_pin)
  rw [← updateFromPin_of_get hd] at hrun
  have hi : i < devices.length := (List.getElem?_eq_some_iff.mp hd).1
  have hstored : (devices.set i (d.meet (senseDemand (pinValue rand d.gpio_pin))))[i]?.map
      Device.value = some (readingText (pinValue rand d.gpio_pin)) := by
    rw [List.getElem?_set_self hi]
    rfl
  constructor
  · rintro ⟨hsum, n, hlo, hhi, ⟨devices', out, hrun', hvalue, -⟩, -⟩
    rw [hrun] at hrun'
    obtain ⟨rfl, rfl⟩ := Prod.mk.inj (Option.some.inj hrun')
    have hn : pinValue rand d.gpio_pin = n :=
      readingText_injective (Option.some.inj (hstored.symm.trans hvalue))
    rw [hn]
    exact ⟨hsum, hlo, hhi⟩
  · rintro ⟨hsum, hlo, hhi⟩
    refine ⟨hsum, pinValue rand d.gpio_pin, hlo, hhi, ⟨_, _, hrun, hstored, ?_⟩,
      recovered_readingText _⟩
    intro m hm
    unfold Device.announce senseDemand at hm
    simp only at hm
    split at hm
    · exact List.mem_singleton.mp hm
    · cases hm

/-! ## The table -/

theorem gpio_pin_main (u : Uninit) : ∀ f ∈ (Senzorski.main u).map Device.frame,
    f.gpio_pin = assignedPin u f.id := by
  intro f hf
  simp only [Senzorski.main, List.map_cons, List.map_nil, List.mem_cons, List.not_mem_nil,
    or_false] at hf
  rcases hf with rfl | rfl | rfl | rfl | rfl | rfl <;> rfl

/-- Messages of any kind. -/
def AnyMessage (_ : List Device) (_ : Msg) : Prop := True

/-- For every table the sensor Pi can have, every sensor in it and every result of `rand()`:
the reading is in range exactly when the sum with the pin its main assigned is steady. -/
theorem reading_inRange_iff {b : Boot} {devices : List Device}
    (hreach : Node.senzorski.Reaches b AnyMessage devices) {i : Nat} {d : Device}
    (hd : devices[i]? = some d) {rand : Int32} (hrand : 0 ≤ rand.toInt) :
    ReadsInRange rand i d devices ↔ Steady rand (assignedPin b.senzorski d.id) := by
  have hmem : d.frame ∈ (Senzorski.main b.senzorski).map Device.frame := by
    have hframes : devices.map Device.frame = (Senzorski.main b.senzorski).map Device.frame :=
      hreach.frames
    rw [← hframes]
    exact List.mem_map_of_mem (List.mem_of_getElem? hd)
  have hpin : d.gpio_pin = assignedPin b.senzorski d.id := gpio_pin_main _ _ hmem
  rw [readsInRange_iff hd, ← hpin, steady_iff hrand]

theorem reading_inRange_largest : ReadsInRange 2147483632 0
    (sensor "fingerprint_sensor" "22lr" "home/hallway/fingerprint" 15 25)
    (Boot.zero.table .senzorski) := by
  have hreach : Node.senzorski.Reaches Boot.zero AnyMessage (Boot.zero.table .senzorski) := .boot
  exact (reading_inRange_iff hreach (i := 0) rfl (by decide)).mpr (by decide)

/-- The largest result of `rand()`, at the first sensor. -/
theorem reading_outOfRange : ¬ ∀ (b : Boot) (devices : List Device) (i : Nat) (d : Device)
    (rand : Int32), Node.senzorski.Reaches b AnyMessage devices → devices[i]? = some d →
    0 ≤ rand.toInt → ReadsInRange rand i d devices := by
  intro h
  have hsum := (h .zero _ 0 _ 2147483647 .boot rfl (by decide)).sum
  exact absurd hsum.2 (by decide)

/-- A pin of `-7` leaves the bathroom sensor at 13. -/
example : pinValue 0 (-7) = 13 ∧ readingText (pinValue 0 (-7)) = "13lr".toList := by decide

end SmartHome
