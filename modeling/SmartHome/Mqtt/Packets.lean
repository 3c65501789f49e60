/-
# `Mqtt.Packets` — the packets the client writes and the ones it reads

The packing and unpacking functions of `mqtt.c`.  A packing function gets the size of the
buffer and answers what `mqtt_pack_fixed_header` answered or the bytes of the packet; a null
argument is `none`.  An unpacking function gets the bytes behind the fixed header, as many as
the header announces.
-/
import SmartHome.Mqtt.Header

namespace SmartHome.Mqtt

open Framing

/-! ## Integers and strings -/

/-- `__mqtt_pack_uint16`: high byte first. -/
def packUint16 (integer : BitVec 16) : List Byte :=
  [(integer >>> 8).setWidth 8, integer.setWidth 8]

/-- `__mqtt_unpack_uint16`, where the two bytes are there. -/
def unpackUint16 : List Byte → Option (BitVec 16)
  | high :: low :: _ => some ((high.setWidth 16 <<< 8) ||| low.setWidth 16)
  | _ => none

/-- `__mqtt_packed_cstrlen`. -/
def packedCstrlen (str : List Byte) : Nat := 2 + str.length

/-- `__mqtt_pack_str`: the length is a `uint16_t`. -/
def packStr (str : List Byte) : List Byte :=
  let length := BitVec.ofNat 16 str.length
  packUint16 length ++ str.take length.toNat

/-! ## Packing -/

/-- The header, and behind it the rest of the packet. -/
def packPacket (bufsz : Nat) (fixedHeader : FixedHeader) (rest : List Byte) : Packed :=
  match packFixedHeader bufsz fixedHeader with
  | .failed e => .failed e
  | .full written => .full written
  | .wrote header =>
      if bufsz - header.length < fixedHeader.remainingLength then
        .full header
      else
        .wrote (header ++ rest)

def publishDup : Byte := 8

def publishQosMask : Byte := 6

def publishRetain : Byte := 1

def inspectedQos (publishFlags : Byte) : Byte := (publishFlags &&& publishQosMask) >>> 1

/-- The remaining length of a publish, from `uint16_t` lengths. -/
def publishRemainingLength (topicName : List Byte) (applicationMessageSize : Nat)
    (publishFlags : Byte) : Nat :=
  packedCstrlen topicName % 2 ^ 16 + (if 0 < inspectedQos publishFlags then 2 else 0) +
    applicationMessageSize % 2 ^ 16

def packPublishRequest (bufsz : Nat) (topicName : List Byte) (packetId : BitVec 16)
    (applicationMessage : List Byte) (publishFlags : Byte) : Packed :=
  let remainingLength :=
    publishRemainingLength topicName applicationMessage.length publishFlags
  let qos := inspectedQos publishFlags
  -- `dup` is forced to zero at quality of service 0
  let publishFlags := if qos = 0 then publishFlags &&& ~~~publishDup else publishFlags
  if qos = 3 then
    .failed .publishForbiddenQos
  else
    packPacket bufsz
      { controlType := ControlType.publish.code
        controlFlags := publishFlags.setWidth 4
        remainingLength }
      (packStr topicName ++ (if 0 < qos then packUint16 packetId else []) ++ applicationMessage)

/-- The four acknowledgements. -/
def packPubxxxRequest (bufsz : Nat) (controlType : ControlType) (packetId : BitVec 16) : Packed :=
  packPacket bufsz
    { controlType := controlType.code
      controlFlags := if controlType = .pubrel then 2 else 0
      remainingLength := 2 }
    (packUint16 packetId)

def packPingRequest (bufsz : Nat) : Packed :=
  packFixedHeader bufsz
    { controlType := ControlType.pingreq.code, controlFlags := 0, remainingLength := 0 }

def packDisconnect (bufsz : Nat) : Packed :=
  packFixedHeader bufsz
    { controlType := ControlType.disconnect.code, controlFlags := 0, remainingLength := 0 }

/-- `MQTT_SUBSCRIBE_REQUEST_MAX_NUM_TOPICS`, the same for unsubscribing. -/
def requestMaxNumTopics : Nat := 8

/-- `subscriptions` are the variadic arguments up to the null. -/
def packSubscribeRequest (bufsz : Nat) (packetId : BitVec 16)
    (subscriptions : List (List Byte × Byte)) : Packed :=
  if requestMaxNumTopics ≤ subscriptions.length then
    .failed .subscribeTooManyTopics
  else
    packPacket bufsz
      { controlType := ControlType.subscribe.code
        controlFlags := 2
        remainingLength :=
          (2 + (subscriptions.map fun s => packedCstrlen s.1 + 1).sum) % 2 ^ 32 }
      (packUint16 packetId ++ subscriptions.flatMap fun s => packStr s.1 ++ [s.2])

def packUnsubscribeRequest (bufsz : Nat) (packetId : BitVec 16)
    (topics : List (List Byte)) : Packed :=
  if requestMaxNumTopics ≤ topics.length then
    .failed .unsubscribeTooManyTopics
  else
    packPacket bufsz
      { controlType := ControlType.unsubscribe.code
        controlFlags := 2
        remainingLength := (2 + (topics.map packedCstrlen).sum) % 2 ^ 32 }
      (packUint16 packetId ++ topics.flatMap packStr)

/-- The arguments of `mqtt_connect`. -/
structure ConnectArgs where
  clientId : Option (List Byte)
  willTopic : Option (List Byte)
  willMessage : Option (List Byte)
  userName : Option (List Byte)
  password : Option (List Byte)
  connectFlags : Byte
  keepAlive : BitVec 16

/-- `enum MQTTConnectFlags`. -/
def connectReserved : Byte := 1
def connectCleanSession : Byte := 2
def connectWillFlag : Byte := 4
def connectWillQos : Byte := 0x18
def connectWillRetain : Byte := 32
def connectPassword : Byte := 64
def connectUserName : Byte := 128

/-- The flags for what is there and what is not. -/
def ConnectArgs.flags (args : ConnectArgs) : Byte :=
  let connectFlags := args.connectFlags &&& ~~~connectReserved
  let connectFlags :=
    if args.willTopic.isSome then
      connectFlags ||| connectWillFlag
    else
      connectFlags &&& ~~~connectWillFlag &&& ~~~connectWillQos &&& ~~~connectWillRetain
  let connectFlags :=
    if args.userName.isSome then
      connectFlags ||| connectUserName
    else
      connectFlags &&& ~~~connectUserName
  if args.password.isSome then
    connectFlags ||| connectPassword
  else
    connectFlags &&& ~~~connectPassword

def packedLength (str : Option (List Byte)) : Nat := (str.map packedCstrlen).getD 0

def packOptional (str : Option (List Byte)) : List Byte := (str.map packStr).getD []

/-- The variable header and the payload. -/
def ConnectArgs.remainingLength (args : ConnectArgs) : Nat :=
  10 + packedCstrlen (args.clientId.getD []) +
    (if args.willTopic.isSome then
      packedLength args.willTopic + (2 + (args.willMessage.getD []).length) else 0) +
    packedLength args.userName + packedLength args.password

def ConnectArgs.pack (args : ConnectArgs) : List Byte :=
  let willMessage := args.willMessage.getD []
  -- protocol name and level, flags, keep-alive
  [0x00, 0x04, 0x4D, 0x51, 0x54, 0x54, 0x04, args.flags] ++ packUint16 args.keepAlive ++
    packStr (args.clientId.getD []) ++
    (if args.willTopic.isSome then
      packOptional args.willTopic ++ packUint16 (BitVec.ofNat 16 willMessage.length) ++
        willMessage else []) ++
    packOptional args.userName ++ packOptional args.password

def packConnectionRequest (bufsz : Nat) (args : ConnectArgs) : Packed :=
  let clientId := args.clientId.getD []
  if clientId = [] ∧ args.connectFlags &&& connectCleanSession = 0 then
    .failed .cleanSessionIsRequired
  else if args.willTopic.isSome ∧ args.willMessage = none then
    .failed .connectNullWillMessage
  else if args.willTopic.isSome ∧ args.connectFlags &&& connectWillQos = connectWillQos then
    .failed .connectForbiddenWillQos
  else
    packPacket bufsz
      { controlType := ControlType.connect.code
        controlFlags := 0
        remainingLength := args.remainingLength % 2 ^ 32 }
      args.pack

/-- A packet that the client asks for, by the packing function and its arguments. -/
inductive Request where
  | connect (args : ConnectArgs)
  | publish (topicName : List Byte) (packetId : BitVec 16) (applicationMessage : List Byte)
      (publishFlags : Byte)
  | pubxxx (controlType : ControlType) (packetId : BitVec 16)
  | subscribe (packetId : BitVec 16) (subscriptions : List (List Byte × Byte))
  | unsubscribe (packetId : BitVec 16) (topics : List (List Byte))
  | pingreq
  | disconnect

def Request.pack (bufsz : Nat) : Request → Packed
  | .connect args => packConnectionRequest bufsz args
  | .publish topicName packetId applicationMessage publishFlags =>
      packPublishRequest bufsz topicName packetId applicationMessage publishFlags
  | .pubxxx controlType packetId => packPubxxxRequest bufsz controlType packetId
  | .subscribe packetId subscriptions => packSubscribeRequest bufsz packetId subscriptions
  | .unsubscribe packetId topics => packUnsubscribeRequest bufsz packetId topics
  | .pingreq => packPingRequest bufsz
  | .disconnect => packDisconnect bufsz

def Request.controlType : Request → ControlType
  | .connect _ => .connect
  | .publish .. => .publish
  | .pubxxx controlType _ => controlType
  | .subscribe .. => .subscribe
  | .unsubscribe .. => .unsubscribe
  | .pingreq => .pingreq
  | .disconnect => .disconnect

/-! ## Unpacking -/

/-- `struct mqtt_response_publish`.  The pointers are the bytes they point at, as far as the
packet goes; the sizes are the ones computed, which may reach further. -/
structure ResponsePublish where
  dupFlag : Byte
  qosLevel : Byte
  retainFlag : Byte
  topicNameSize : Nat
  topicName : List Byte
  packetId : Option (BitVec 16)
  applicationMessageSize : Nat
  applicationMessage : List Byte
  deriving DecidableEq, Repr

/-- `struct mqtt_response`: the union, by the type of the packet. -/
inductive Response where
  | connack (sessionPresentFlag returnCode : Byte)
  | publish (publish : ResponsePublish)
  | puback (packetId : BitVec 16)
  | pubrec (packetId : BitVec 16)
  | pubrel (packetId : BitVec 16)
  | pubcomp (packetId : BitVec 16)
  | suback (packetId : BitVec 16) (returnCodes : List Byte)
  | unsuback (packetId : BitVec 16)
  | pingresp
  deriving DecidableEq, Repr

/-- A response and the number of bytes behind the header that it took. -/
abbrev Unpacked := Except Error (Response × Nat)

def unpackConnackResponse (fixedHeader : FixedHeader) (buf : List Byte) : Unpacked :=
  if fixedHeader.remainingLength ≠ 2 then
    .error .malformedResponse
  else if buf.getD 0 0 &&& 0xFE ≠ 0 then
    .error .connackForbiddenFlags
  else if 5 < buf.getD 1 0 then
    .error .connackForbiddenCode
  else
    .ok (.connack (buf.getD 0 0) (buf.getD 1 0), 2)

def unpackPublishResponse (fixedHeader : FixedHeader) (buf : List Byte) : Unpacked :=
  let controlFlags : Byte := fixedHeader.controlFlags.setWidth 8
  let qosLevel := inspectedQos controlFlags
  if fixedHeader.remainingLength < 4 then
    .error .malformedResponse
  else
    let topicNameSize := ((unpackUint16 buf).getD 0).toNat
    let variableHeader := 2 + topicNameSize + (if 0 < qosLevel then 2 else 0)
    -- the subtraction is one of `uint32_t`
    let applicationMessageSize :=
      (fixedHeader.remainingLength + 2 ^ 32 - variableHeader) % 2 ^ 32
    .ok (.publish
      { dupFlag := (controlFlags &&& publishDup) >>> 3
        qosLevel
        retainFlag := controlFlags &&& publishRetain
        topicNameSize
        topicName := (buf.drop 2).take topicNameSize
        packetId := if 0 < qosLevel then unpackUint16 (buf.drop (2 + topicNameSize)) else none
        applicationMessageSize
        applicationMessage := (buf.drop variableHeader).take applicationMessageSize },
      variableHeader + applicationMessageSize)

/-- The member of the union for a packet that carries a packet id. -/
def unpackPacketId (response : BitVec 16 → Response) (fixedHeader : FixedHeader)
    (buf : List Byte) : Unpacked :=
  if fixedHeader.remainingLength ≠ 2 then
    .error .malformedResponse
  else
    .ok (response ((unpackUint16 buf).getD 0), 2)

def unpackPubxxxResponse (controlType : ControlType) : FixedHeader → List Byte → Unpacked :=
  unpackPacketId fun packetId =>
    if controlType = .puback then
      .puback packetId
    else if controlType = .pubrec then
      .pubrec packetId
    else if controlType = .pubrel then
      .pubrel packetId
    else
      .pubcomp packetId

def unpackSubackResponse (fixedHeader : FixedHeader) (buf : List Byte) : Unpacked :=
  if fixedHeader.remainingLength < 3 then
    .error .malformedResponse
  else
    .ok (.suback ((unpackUint16 buf).getD 0) (buf.drop 2), fixedHeader.remainingLength)

def unpackUnsubackResponse : FixedHeader → List Byte → Unpacked := unpackPacketId .unsuback

/-- The `switch` of `mqtt_unpack_response`. -/
def unpackByType (fixedHeader : FixedHeader) (buf : List Byte) : Unpacked :=
  match ControlType.ofCode fixedHeader.controlType with
  | some .connack => unpackConnackResponse fixedHeader buf
  | some .publish => unpackPublishResponse fixedHeader buf
  | some .puback => unpackPubxxxResponse .puback fixedHeader buf
  | some .pubrec => unpackPubxxxResponse .pubrec fixedHeader buf
  | some .pubrel => unpackPubxxxResponse .pubrel fixedHeader buf
  | some .pubcomp => unpackPubxxxResponse .pubcomp fixedHeader buf
  | some .suback => unpackSubackResponse fixedHeader buf
  | some .unsuback => unpackUnsubackResponse fixedHeader buf
  -- only the header counts as consumed
  | some .pingresp => .ok (.pingresp, 0)
  | _ => .error .responseInvalidControlType

/-- The header took `used` bytes. -/
def behindHeader (used : Nat) : Unpacked → Scan Error Response
  | .error e => .failed e
  | .ok (response, n) => .frame response (used + n)

def unpackResponse (buf : List Byte) : Scan Error Response :=
  match unpackFixedHeader buf with
  | .failed e => .failed e
  | .more => .more
  | .frame fixedHeader used =>
      behindHeader used
        (unpackByType fixedHeader ((buf.drop used).take fixedHeader.remainingLength))

end SmartHome.Mqtt
