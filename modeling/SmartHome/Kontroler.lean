/-
# `Kontroler` — `kontroler.c`: the mirror of all devices, and the answers to the user

A message is handled in two parts.  `publishCallback` runs on the network
thread: it stores the message in the node's one `callback_packet`, splits a copy
and decides from the target device which thread to start.  The thread is either
`distributePubMessage`, which splits a copy again and acts on it, or
`publishNoDevice`, which answers that there is no such device.
-/
import SmartHome.Device

namespace SmartHome

open Traced

def allDevices : CStr := "*".toList
def deviceNotFound : CStr := "Device non existent".toList

/-! ## The tables the mains build

A sensor's description says `Controllable`, an actuator's `Controlable`. -/

/-- The fields of a `Device` that a main leaves unassigned. -/
structure Uninit where
  gpio_pin : Int32
  condition : Int32
  deriving DecidableEq, Repr

def sensorInfo (id : CStr) : CStr :=
  "id: ".toList ++ id ++ "; Group: ".toList ++ sensors ++ " Controllable: ".toList ++ "No".toList

def actuatorInfo (id : CStr) : CStr :=
  "id: ".toList ++ id ++ "; Group: ".toList ++ actuators ++ " Controlable: ".toList ++ "Yes".toList

/-- A sensor as the mains fill it in. -/
def sensor (id value topic : String) (gpio_pin condition : Int32) : Device where
  id := id.toList
  group := sensors
  value := value.toList
  gpio_pin := gpio_pin
  topic := topic.toList
  info := sensorInfo id.toList
  condition := condition

/-- An actuator as the mains fill it in. -/
def actuator (id topic : String) : Device where
  id := id.toList
  group := actuators
  value := off
  gpio_pin := 15
  topic := topic.toList
  info := actuatorInfo id.toList
  condition := 25

namespace Kontroler

/-- `main`.  The pin and the condition of `bathroom_temp_sensor` are never assigned: the
statements meant for them assign `livingroom_temp_sensor` once more. -/
def main (u : Uninit) : List Device :=
  [sensor "temp_sensor_bedroom_1" "23lr" "home/bedroom11/temperature" 15 25,
   sensor "temp_sensor_bedroom_2" "22lr" "home/bedroom22/temperature" 15 25,
   actuator "temp_aktuator_bedroom_1" "home/bedroom1/temperature",
   actuator "temp_aktuator_bedroom_2" "home/bedroom2/temperature",
   sensor "temp_sensor_livingroom" "24lr" "home/living_room/temperature" 15 25,
   actuator "temp_aktuator_livingroom" "home/living_room/temperature",
   sensor "temp_sensor_bathroom" "11lr" "home/bathroom/temperature" u.gpio_pin u.condition,
   actuator "temp_aktuator_bathroom" "home/bathroom/temperature",
   sensor "temp_sensor_oven" "22lr" "home/kitchen/oven" 15 25,
   sensor "fingerprint_sensor" "22lr" "home/hallway/fingerprint" 15 25,
   actuator "door_opener" "home/hallway/fingerprint",
   actuator "light_bulb" "home/hallway/fingerprint"]

/-- The loop of `findDevice`, at index `i`. -/
def findLoop (deviceName : CStr) : List Device → Int → Int
  | [], _ => -1
  | d :: ds, i => if deviceName = d.id then i else findLoop deviceName ds (i + 1)

/-- `findDevice`: the first device with the name, or `-1`. -/
def findDevice (deviceName : CStr) (devices : List Device) : Int := findLoop deviceName devices 0

/-! ## The callback -/

/-- `callback_packet` -/
structure CallbackPacket where
  topic : CStr
  mes : CStr
  deriving DecidableEq, Repr

/-- The thread the callback starts. -/
inductive Handler where
  | distributePubMessage
  | publishNoDevice
  deriving DecidableEq, Repr

/-- `publish_callback` -/
def publishCallback (devices : List Device) (topicName applicationMessage : List Char) :
    Exec (CallbackPacket × Handler) := do
  let packet : CallbackPacket := ⟨stringCpy topicName, stringCpy applicationMessage⟩
  let messageCpy := packet.mes
  write .messageCpy messageCpy
  let tokens ← strSplit messageCpy delimiter
  let targetDevice ← load tokens 1
  let targetDevice ← use targetDevice
  let deviceIndex := if targetDevice ≠ allDevices then findDevice targetDevice devices else 0
  if deviceIndex ≠ -1 then pure (packet, .distributePubMessage)
  else pure (packet, .publishNoDevice)

/-! ## The handlers -/

/-- `strcat(message, s)`: the buffer holds both texts afterwards. -/
def strcat (message s : CStr) : Exec CStr := do
  write .listing (message ++ s)
  pure (message ++ s)

def listInfo : List Device → CStr → Exec CStr
  | [], message => pure message
  | d :: ds, message => do
      let message ← strcat message d.info
      let message ← strcat message "\n".toList
      listInfo ds message

def listValue : List Device → CStr → Exec CStr
  | [], message => pure message
  | d :: ds, message => do
      let message ← strcat message d.id
      let message ← strcat message " : ".toList
      let message ← strcat message d.value
      let message ← strcat message "\n".toList
      listValue ds message

/-- The answer to a `Get`, for one device or for all.  `stale` is what the uninitialised
`message[1400]` happens to hold when the listing starts. -/
def answerGet (p : Property) (list : List Device → CStr → Exec CStr) (stale : CStr)
    (targetDevice : CStr) (devices : List Device) : Exec Unit := do
  if targetDevice ≠ allDevices then
    let d ← access devices (findDevice targetDevice devices)
    let message := p.get d
    write .reply message
    publish Topic.ui message
  else
    let message ← strcat stale "\n".toList
    let message ← list devices message
    publish Topic.ui message

/-- The answer to a `Set`: acknowledge, then pass the message on as it came. -/
def forwardSet (acknowledgement topic mes : CStr) : Exec Unit := do
  write .reply acknowledgement
  publish Topic.ui acknowledgement
  write .reply mes
  publish topic mes

def valueSet : CStr := "Requested value has been set.\n".toList
def infoSet : CStr := "Requested info has been set.\n".toList

/-- `strcpy(Devices[searched_device].<property>, val)`. -/
def storeChanged (p : Property) (searchedDevice : Int) (val : Option CStr)
    (devices : List Device) : Exec (List Device) := do
  let val ← use val
  let d ← access devices searchedDevice
  write p.buffer val
  pure (devices.set searchedDevice.toNat (p.put val d))

/-- What `distribute_pub_message` does with the tokens of its message. -/
def dispatch (stale : CStr) (devices : List Device) (mes : CStr) (tokens : List CStr) :
    Exec (List Device) := do
  let mesType ← load tokens 0
  let targetDevice ← load tokens 1
  let mesType ← use mesType
  if mesType = MesType.getDevInfo then
    let targetDevice ← use targetDevice
    answerGet .info listInfo stale targetDevice devices
    pure devices
  else if mesType = MesType.getDevValue then
    let targetDevice ← use targetDevice
    answerGet .value listValue stale targetDevice devices
    pure devices
  else if mesType = MesType.setDevValue then
    forwardSet valueSet Topic.devicesFunc mes
    pure devices
  else if mesType = MesType.setDevInfo then
    forwardSet infoSet Topic.devicesInfo mes
    pure devices
  else if mesType = MesType.propertyChanged then
    let property ← load tokens 2
    let val ← load tokens 3
    let targetDevice ← use targetDevice
    let searchedDevice := findDevice targetDevice devices
    let property ← use property
    if property = Property.value.name then storeChanged .value searchedDevice val devices
    else if property = Property.info.name then storeChanged .info searchedDevice val devices
    else pure devices
  else pure devices

/-- `distribute_pub_message` -/
def distributePubMessage (stale : CStr) (devices : List Device) (packet : CallbackPacket) :
    Exec (List Device) := do
  let messageCpy := packet.mes
  write .messageCpy messageCpy
  let tokens ← strSplit messageCpy delimiter
  dispatch stale devices packet.mes tokens

/-- `publish_no_device` -/
def publishNoDevice : Exec Unit := publish Topic.ui deviceNotFound

/-- The thread the callback chose, reading the packet it was started with. -/
def runHandler (stale : CStr) (devices : List Device) :
    CallbackPacket × Handler → Exec (List Device)
  | (packet, .distributePubMessage) => distributePubMessage stale devices packet
  | (_, .publishNoDevice) => do
      publishNoDevice
      pure devices

/-- One message from arrival to the end of its handler, with nothing in between. -/
def handle (stale : CStr) (devices : List Device) (topicName applicationMessage : List Char) :
    Exec (List Device) := do
  let started ← publishCallback devices topicName applicationMessage
  runHandler stale devices started

end Kontroler

end SmartHome
