/-
# `Owner` — what a message demands of the devices of the node that owns them

An event either demands a value of a device or leaves it alone; whether it does
depends on what no event changes, the device's frame.  This module says so once
for all four kinds of change (`Mes.demand`, `senseDemand`) and proves that the
handlers do exactly that: `Pi.handle` maps every device to the one that meets
the demand made of it and publishes the announcements of those that changed, or
that were set (`Pi.handle_carried`, `Pi.sensorsValuePublish_eq`).
-/
import SmartHome.System
import SmartHome.Wire

namespace SmartHome

open Traced

/-! ## Demands -/

/-- A property and the text an event wants it to have; `always` when the owner announces
it even if nothing changed. -/
structure Demand where
  property : Property
  text : Word
  always : Bool

/-- The device after the demand. -/
def Device.meet (d : Device) : Option Demand → Device
  | none => d
  | some r => r.property.put r.text.text d

/-- What the owner publishes about it. -/
def Device.announce (d : Device) : Option Demand → List Msg
  | none => []
  | some r =>
      if r.always ∨ r.property.get d ≠ r.text.text then
        [⟨Topic.controler, sprintfChanged d.id r.property.name r.text.text⟩]
      else []

def onWord : Word := ⟨on, by decide⟩
def offWord : Word := ⟨off, by decide⟩

/-- `checkDeviceCondition` as a word. -/
def checkWord (cond value : Int32) : Word := if value > cond then onWord else offWord

@[simp] theorem checkWord_text (cond value : Int32) :
    (checkWord cond value).text = checkDeviceCondition cond value := by
  unfold checkWord checkDeviceCondition
  split <;> rfl

/-- What a message arriving on `topic` demands of a device. -/
def Mes.demand (topic : CStr) (d : Device) : Mes → Option Demand
  | .set p id v => if d.id = id.text then some ⟨p, v, true⟩ else none
  | .reading n =>
      if d.topic = topic ∧ d.group = actuators then
        some ⟨.value, checkWord d.condition n, false⟩
      else none
  | .get _ _ | .changed _ _ _ => none

/-- What a sensor reading demands of the device it was taken for. -/
def senseDemand (reading : Int32) : Option Demand := some ⟨.value, readingWord reading, false⟩

@[simp] theorem Device.meet_none (d : Device) : d.meet none = d := rfl

@[simp] theorem Device.announce_none (d : Device) : d.announce none = [] := rfl

@[simp] theorem Device.meet_frame (d : Device) (r : Option Demand) :
    (d.meet r).frame = d.frame := by
  cases r with
  | none => rfl
  | some r => exact Property.frame_put _ _ _

theorem Property.put_get (p : Property) (d : Device) : p.put (p.get d) d = d := by
  cases p <;> rfl

/-! ## The loops over the table -/

theorem completed_storeAndPublish (p : Property) (v : CStr) (d : Device) :
    completed (storeAndPublish p v d) =
      some (p.put v d, [⟨Topic.controler, sprintfChanged d.id p.name v⟩]) := by
  simp [storeAndPublish]

theorem completed_setDevBody (p : Property) (id v : Word) (topic : CStr) (d : Device) :
    completed (setDevBody p (some id.text) (some v.text) d) =
      some (d.meet ((Mes.set p id v).demand topic d),
        d.announce ((Mes.set p id v).demand topic d)) := by
  by_cases hid : d.id = id.text
  · simp [setDevBody, Mes.demand, hid, completed_storeAndPublish, Device.meet, Device.announce]
  · simp [setDevBody, Mes.demand, hid]

theorem completed_automationBody (topic : CStr) (n : Int32) (d : Device) :
    completed (automationBody topic n d) =
      some (d.meet ((Mes.reading n).demand topic d),
        d.announce ((Mes.reading n).demand topic d)) := by
  by_cases hsel : d.topic = topic ∧ d.group = actuators
  · by_cases hv : d.value = checkDeviceCondition d.condition n
    · have hput : Property.value.put (checkDeviceCondition d.condition n) d = d := by
        rw [← hv]; exact Property.put_get .value d
      simp [automationBody, Mes.demand, hsel, hv, Device.meet, Device.announce, Property.get, hput]
    · simp [automationBody, Mes.demand, hsel, hv, completed_storeAndPublish, Device.meet,
        Device.announce, Property.get]
  · simp [automationBody, Mes.demand, hsel]

theorem completed_setDev (p : Property) (t id v : Word) (topic : CStr) (devices : List Device) :
    completed (setDev p [t.text, id.text, v.text] devices) =
      some (devices.map fun d => d.meet ((Mes.set p id v).demand topic d),
        devices.flatMap fun d => d.announce ((Mes.set p id v).demand topic d)) := by
  have h₁ : load [t.text, id.text, v.text] 1 = pure (some id.text) := rfl
  have h₂ : load [t.text, id.text, v.text] 2 = pure (some v.text) := rfl
  simp only [setDev, h₁, h₂, pure_bind]
  exact completed_sweep (completed_setDevBody p id v topic) devices

theorem completed_automationControl (t : Word) (n : Int32) (topic : CStr)
    (devices : List Device) :
    completed (automationControl [t.text, readingText n] topic devices) =
      some (devices.map fun d => d.meet ((Mes.reading n).demand topic d),
        devices.flatMap fun d => d.announce ((Mes.reading n).demand topic d)) := by
  have h₁ : load [t.text, readingText n] 1 = pure (some (readingText n)) := rfl
  simp only [automationControl, h₁, pure_bind, use_some, strtok_readingText, Option.map_some,
    atoi_sprintfD]
  exact completed_sweep (completed_automationBody topic n) devices

theorem Pi.distributePubMessage_of_split {packet : Kontroler.CallbackPacket} {t : CStr}
    {ts : List CStr} (h : strSplit packet.mes delimiter = pure (t :: ts))
    (devices : List Device) :
    Pi.distributePubMessage devices packet =
      if t = MesType.sensorMes then automationControl (t :: ts) packet.topic devices
      else if t = MesType.setDevInfo then setDevInfo (t :: ts) devices
      else if t = MesType.setDevValue then setDevValue (t :: ts) devices
      else pure devices := by
  have h₀ : load (t :: ts) 0 = pure (some t) := rfl
  simp only [Pi.distributePubMessage, h, h₀, pure_bind, use_some]

/-- How many tokens of a message with this type the handler reads. -/
def Pi.tokensRead (mesType : CStr) : Nat :=
  if mesType = MesType.sensorMes then 2
  else if mesType = MesType.setDevInfo ∨ mesType = MesType.setDevValue then 3
  else 1

/-- A message handled by an owner: every device meets what is demanded of it, and the
changes are announced in table order. -/
theorem Pi.handle_carried {m : Mes} {payload : CStr} (h : m.Carried payload) (topic : CStr)
    (devices : List Device) :
    completed (Pi.handle devices topic payload) =
      some (devices.map fun d => d.meet (m.demand (stringCpy topic) d),
        devices.flatMap fun d => d.announce (m.demand (stringCpy topic) d)) := by
  have hsplit : strSplit (Pi.publishCallback topic payload).mes delimiter = pure m.tokens := by
    rw [Pi.publishCallback, h.stringCpy, h.strSplit]
  rw [Pi.handle]
  cases m with
  | get p id =>
      rw [Pi.distributePubMessage_of_split hsplit]
      cases p <;>
        rw [if_neg (by decide), if_neg (by decide), if_neg (by decide)] <;> simp [Mes.demand]
  | set p id v =>
      rw [Pi.distributePubMessage_of_split hsplit]
      cases p with
      | value =>
          rw [if_neg (by decide), if_neg (by decide), if_pos (by decide)]
          exact completed_setDev .value _ id v _ devices
      | info =>
          rw [if_neg (by decide), if_pos (by decide)]
          exact completed_setDev .info _ id v _ devices
  | changed p id v =>
      rw [Pi.distributePubMessage_of_split hsplit, if_neg (by decide), if_neg (by decide),
        if_neg (by decide)]
      simp [Mes.demand]
  | reading n =>
      rw [Pi.distributePubMessage_of_split hsplit, if_pos (by decide)]
      exact completed_automationControl readingType n _ devices

theorem set_eq_self {α : Type} {as : List α} {i : Nat} {a : α} (h : as[i]? = some a) :
    as.set i a = as := by
  obtain ⟨hi, rfl⟩ := List.getElem?_eq_some_iff.mp h
  exact List.set_getElem_self hi

theorem completed_updateSensorsValue {devices : List Device} {i : Nat} {d : Device}
    (hd : devices[i]? = some d) (n : Int32) :
    completed (updateSensorsValue n i devices) =
      some (devices.set i (d.meet (senseDemand n)), d.announce (senseDemand n)) := by
  rw [updateSensorsValue, completed_bind (completed_access hd)]
  by_cases hv : readingText n = d.value
  · have hput : Property.value.put d.value d = d := Property.put_get .value d
    have hset : devices.set i d = devices := set_eq_self hd
    simp [readPin, senseDemand, readingWord, Device.meet, Device.announce, Property.get, hv, hput,
      hset]
  · have hv' : d.value ≠ readingText n := Ne.symm hv
    simp [readPin, senseDemand, readingWord, Device.meet, Device.announce, Property.get, hv, hv',
      completed_storeAndPublish]

/-- A pass of the sensor loop at a sensor: the device meets the reading, and the reading
is published on its topic whether or not it changed. -/
theorem Pi.completed_sensorsValuePublish {devices : List Device} {i : Nat} {d : Device}
    (hd : devices[i]? = some d) (hs : d.group = sensors) (n : Int32) :
    completed (Pi.sensorsValuePublish n i devices) =
      some (devices.set i (d.meet (senseDemand n)),
        d.announce (senseDemand n) ++ [⟨d.topic, (Mes.reading n).text⟩]) := by
  have hi : i < devices.length := (List.getElem?_eq_some_iff.mp hd).1
  have hd' : (devices.set i (d.meet (senseDemand n)))[i]? = some (d.meet (senseDemand n)) := by
    rw [List.getElem?_set_self hi]
  rw [Pi.sensorsValuePublish, completed_bind (completed_access hd), if_pos hs,
    completed_bind (completed_updateSensorsValue hd n), completed_bind (completed_access hd')]
  simp [senseDemand, Device.meet, Property.put, Mes.text_reading, readingWord]

theorem Pi.completed_sensorsValuePublish_none {devices : List Device} {i : Nat}
    (hd : devices[i]? = none) (n : Int32) :
    completed (Pi.sensorsValuePublish n i devices) = none := by
  rw [Pi.sensorsValuePublish, access_of_none hd]
  rfl

theorem Pi.completed_sensorsValuePublish_of_ne {devices : List Device} {i : Nat} {d : Device}
    (hd : devices[i]? = some d) (hs : d.group ≠ sensors) (n : Int32) :
    completed (Pi.sensorsValuePublish n i devices) = some (devices, []) := by
  rw [Pi.sensorsValuePublish, completed_bind (completed_access hd), if_neg hs]
  rfl

end SmartHome
