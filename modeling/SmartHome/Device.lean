/-
# `Device` — `device.c`: the device record and the four functions that change it

`setDevValue`, `setDevInfo`, `automationControl` and `updateSensorsValue` are
the only code that writes a device on the node that owns it, and all four end
the same way: store the text in the field, format a `PropertyChanged` message
from the record just written, publish it on `controler`.  That ending is
`storeAndPublish`.  They differ in what selects a device (its id, its topic and
group, its index) and in whether an unchanged value is announced again.
-/
import SmartHome.Parse

namespace SmartHome

open Traced

/-! ## The strings of the protocol -/

def delimiter : Char := '.'

namespace MesType

def getDevValue : CStr := "Get_Dev_Value".toList
def setDevValue : CStr := "Set_Dev_Value".toList
def getDevInfo : CStr := "Get_Dev_Info".toList
def setDevInfo : CStr := "Set_Dev_Info".toList
def propertyChanged : CStr := "PropertyChanged".toList
def sensorMes : CStr := "Sensor_Mes".toList

end MesType

namespace Topic

def controler : CStr := "controler".toList
def devicesInfo : CStr := "devices/info".toList
def devicesFunc : CStr := "devices/func".toList
def senzorskiPi : CStr := "senzorski_pi".toList
def aktuatorskiPi : CStr := "aktuatorski_pi".toList
def ui : CStr := "ui_topic".toList

end Topic

def sensors : CStr := "sensors".toList
def actuators : CStr := "actuators".toList
def on : CStr := "ON".toList
def off : CStr := "OFF".toList

/-! ## The record -/

/-- `Device_descriptor`. -/
structure Device where
  id : CStr
  group : CStr
  value : CStr
  gpio_pin : Int32
  topic : CStr
  info : CStr
  condition : Int32
  deriving DecidableEq, Repr

/-- The two fields a message can change. -/
inductive Property where
  | value | info
  deriving DecidableEq, Repr

namespace Property

def name : Property → CStr
  | .value => "Value".toList
  | .info => "Info".toList

def buffer : Property → Buffer
  | .value => .value
  | .info => .info

def get : Property → Device → CStr
  | .value, d => d.value
  | .info, d => d.info

def put : Property → CStr → Device → Device
  | .value, v, d => { d with value := v }
  | .info, v, d => { d with info := v }

end Property

/-- What no handler changes. -/
structure Frame where
  id : CStr
  group : CStr
  gpio_pin : Int32
  topic : CStr
  condition : Int32
  deriving DecidableEq, Repr

def Device.frame (d : Device) : Frame := ⟨d.id, d.group, d.gpio_pin, d.topic, d.condition⟩

/-! ## Changing a device -/

/-- `sprintf(message, "%s.%s.<property>.%s", PROPERTY_CHANGED, id, value)`. -/
def sprintfChanged (id property value : CStr) : CStr :=
  MesType.propertyChanged ++ '.' :: id ++ '.' :: property ++ '.' :: value

/-- `strcpy` into the field, `sprintf` from the record, `mqtt_publish`. -/
def storeAndPublish (p : Property) (new : CStr) (d : Device) : Exec Device := do
  let d := p.put new d
  write p.buffer new
  let message := sprintfChanged d.id p.name (p.get d)
  write .deviceMessage message
  publish Topic.controler message
  pure d

/-- The loop body shared by `set_dev_value` and `set_dev_info`; the two token pointers are
only read through for a device they select. -/
def setDevBody (p : Property) (id new : Option CStr) (d : Device) : Exec Device := do
  let id ← use id
  if d.id = id then
    let new ← use new
    storeAndPublish p new d
  else pure d

def setDev (p : Property) (tokens : List CStr) (devices : List Device) : Exec (List Device) := do
  let id ← load tokens 1
  let new ← load tokens 2
  sweep (setDevBody p id new) devices

/-- `set_dev_value` -/
def setDevValue : List CStr → List Device → Exec (List Device) := setDev .value

/-- `set_dev_info` -/
def setDevInfo : List CStr → List Device → Exec (List Device) := setDev .info

/-- `check_device_condition` -/
def checkDeviceCondition (cond value : Int32) : CStr := if value > cond then on else off

/-- The loop body of `automation_control`: an actuator on the topic is switched, and
announced only if that changes its value. -/
def automationBody (topic : CStr) (value : Int32) (d : Device) : Exec Device := do
  if d.topic = topic ∧ d.group = actuators then
    let newDevValue := checkDeviceCondition d.condition value
    write .newDevValue newDevValue
    if d.value ≠ newDevValue then storeAndPublish .value newDevValue d else pure d
  else pure d

/-- `automation_control`.  A missing token hands `strtok` a null pointer, which makes it
resume the exhausted scan and return null as well. -/
def automationControl (tokens : List CStr) (topic : CStr) (devices : List Device) :
    Exec (List Device) := do
  let arg ← load tokens 1
  let arg ← use arg
  let valueToken ← use ((strtok 'l' arg).map Prod.fst)
  let value := atoi valueToken
  sweep (automationBody topic value) devices

/-- `temp` in `read_pin`, from the value computed there. -/
def readingText (value : Int32) : CStr := sprintfD value ++ "lr".toList

/-- `read_pin`, with the sensor's reading as its argument. -/
def readPin (value : Int32) : Exec CStr := do
  write .pinText (readingText value)
  pure (readingText value)

/-- `update_sensors_value` -/
def updateSensorsValue (reading : Int32) (index : Nat) (devices : List Device) :
    Exec (List Device) := do
  let d ← access devices index
  let newValue ← readPin reading
  if newValue ≠ d.value then
    let d ← storeAndPublish .value newValue d
    pure (devices.set index d)
  else pure devices

/-! ## What they do -/

def Device.announcement (d : Device) (p : Property) : CStr := sprintfChanged d.id p.name (p.get d)

@[simp] theorem Property.get_put (p : Property) (v : CStr) (d : Device) :
    p.get (p.put v d) = v := by cases p <;> rfl

@[simp] theorem Property.frame_put (p : Property) (v : CStr) (d : Device) :
    (p.put v d).frame = d.frame := by cases p <;> rfl

theorem Property.get_put_of_ne {p q : Property} (h : q ≠ p) (v : CStr) (d : Device) :
    q.get (p.put v d) = q.get d := by
  cases p <;> cases q <;> first | rfl | exact absurd rfl h

@[simp] theorem Property.id_put (p : Property) (v : CStr) (d : Device) :
    (p.put v d).id = d.id := by cases p <;> rfl

end SmartHome
