/-
# `Pi` — `senzorski_pi.c` and `aktuatorski_pi.c`: the nodes that own the devices

The two programs differ in the table their main builds, in their subscriptions
and in the delay of the sensor loop.  Their callback, their handler and the body
of the sensor loop are the same text, here parametrised by nothing but the table.
-/
import SmartHome.Kontroler

namespace SmartHome

open Traced

namespace Pi

open Kontroler (CallbackPacket)

/-- `publish_callback`: store the message; the thread it starts is always
`distribute_pub_message`. -/
def publishCallback (topicName applicationMessage : List Char) : CallbackPacket :=
  ⟨stringCpy topicName, stringCpy applicationMessage⟩

/-- `distribute_pub_message` -/
def distributePubMessage (devices : List Device) (packet : CallbackPacket) :
    Exec (List Device) := do
  let tokens ← strSplit packet.mes delimiter
  let mesType ← load tokens 0
  let mesType ← use mesType
  if mesType = MesType.sensorMes then automationControl tokens packet.topic devices
  else if mesType = MesType.setDevInfo then setDevInfo tokens devices
  else if mesType = MesType.setDevValue then setDevValue tokens devices
  else pure devices

/-- One message from arrival to the end of its handler, with nothing in between. -/
def handle (devices : List Device) (topicName applicationMessage : List Char) :
    Exec (List Device) :=
  distributePubMessage devices (publishCallback topicName applicationMessage)

/-- The body of the loop in `sensors_value_publish`, at index `i`. -/
def sensorsValuePublish (reading : Int32) (i : Nat) (devices : List Device) :
    Exec (List Device) := do
  let d ← access devices i
  if d.group = sensors then
    let devices ← updateSensorsValue reading i devices
    let d ← access devices i
    let message := MesType.sensorMes ++ '.' :: d.value
    write .sensorMessage message
    publish d.topic message
    pure devices
  else pure devices

/-- The topics of a node's own actuators, subscribed to in a loop over its table. -/
def actuatorTopics (devices : List Device) : List CStr :=
  (devices.filter fun d => d.group = actuators).map Device.topic

end Pi

namespace Senzorski

/-- `main` of `senzorski_pi.c`; `bathroom_temp_sensor` is left half assigned as in the
controller. -/
def main (u : Uninit) : List Device :=
  [sensor "fingerprint_sensor" "22lr" "home/hallway/fingerprint" 15 25,
   sensor "temp_sensor_bedroom_1" "23lr" "home/bedroom11/temperature" 15 25,
   sensor "temp_sensor_bedroom_2" "22lr" "home/bedroom22/temperature" 15 25,
   sensor "temp_sensor_livingroom" "24lr" "home/livingroom/temperature" 15 25,
   sensor "temp_sensor_bathroom" "11lr" "home/bathroom/temperature" u.gpio_pin u.condition,
   sensor "temp_sensor_oven" "22lr" "home/kitchen/oven" 15 25]

/-- The subscriptions of `main`; the one to `devices/func` is commented out. -/
def subscriptions (devices : List Device) : List CStr :=
  Pi.actuatorTopics devices ++ [Topic.senzorskiPi, Topic.devicesInfo]

end Senzorski

namespace Aktuatorski

/-- `main` of `aktuatorski_pi.c`. -/
def main : List Device :=
  [actuator "temp_aktuator_bedroom_1" "home/bedroom11/temperature",
   actuator "temp_aktuator_bedroom_2" "home/bedroom22/temperature",
   actuator "temp_aktuator_livingroom" "home/livingroom/temperature",
   actuator "temp_aktuator_bathroom" "home/bathroom/temperature",
   actuator "door_opener" "home/hallway/fingerprint",
   actuator "light_bulb" "home/hallway/fingerprint"]

/-- The subscriptions of `main`. -/
def subscriptions (devices : List Device) : List CStr :=
  Topic.aktuatorskiPi :: Pi.actuatorTopics devices ++ [Topic.devicesInfo, Topic.devicesFunc]

end Aktuatorski

end SmartHome
