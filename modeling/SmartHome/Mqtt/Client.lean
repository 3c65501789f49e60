/-
# `Mqtt.Client` — the client

`struct mqtt_client` and the functions of `mqtt.c` that work on it.  Each of them holds the
client's mutex from beginning to end, so a run of a program, whose threads publish while another
one calls `mqtt_sync`, is a sequence of these calls.  The exception is `mqtt_unsubscribe`, which
only a test calls: it takes its packet id just before the mutex, and is one step here all the
same.  The socket is that of `mqtt_pal.c` for unix: what `send` and `recv` return is given as a
script, and the clock as a function that gives one reading after another.
-/
import SmartHome.Mqtt.PacketId
import SmartHome.Mqtt.Queue
import SmartHome.Mqtt.Packets

namespace SmartHome.Mqtt

open Framing

/-! ## The socket -/

/-- `mqtt_pal_sendall`, when the calls of `send` return these values: the bytes that went out and
whether it were all, and what is left of the script.  A value below one is an error, and so is
the end of the script. -/
def sendall : (rets : List Nat) → List Byte → List Byte × Bool × List Nat
  | rets, [] => ([], true, rets)
  | [], _ :: _ => ([], false, [])
  | tmp :: rets, byte :: buf =>
      if tmp < 1 then
        ([], false, rets)
      else
        let (sent, ok, rets) := sendall rets ((byte :: buf).drop tmp)
        ((byte :: buf).take tmp ++ sent, ok, rets)

/-- What a call of `recv` meets: bytes, none at the moment or none any more, or an error. -/
inductive Recv where
  | data (bytes : List Byte)
  | nothing
  | failed
  deriving DecidableEq, Repr

/-- `mqtt_pal_recvall`: the bytes read, whether there was no error, and what is left of the
script.  What does not fit into the buffer stays in the socket. -/
def recvall : (rets : List Recv) → (bufsz : Nat) → List Byte × Bool × List Recv
  | [], _ => ([], true, [])
  | .nothing :: rets, _ => ([], true, rets)
  | .failed :: rets, _ => ([], false, rets)
  | .data [] :: rets, _ => ([], true, rets)
  | .data (byte :: bytes) :: rets, bufsz =>
      if bufsz < (byte :: bytes).length then
        ((byte :: bytes).take bufsz, true, .data ((byte :: bytes).drop bufsz) :: rets)
      else
        let (got, ok, rets) := recvall rets (bufsz - (byte :: bytes).length)
        (byte :: bytes ++ got, ok, rets)

/-! ## The client -/

/-- `struct mqtt_client`; no error is `MQTT_OK`. -/
structure Client where
  error : Option Error
  pidLfsr : BitVec 16
  keepAlive : Nat
  sendOffset : Nat
  timeOfLastSend : Nat
  responseTimeout : Nat
  numberOfTimeouts : Nat
  mq : Queue
  /-- `recv_buffer`: its size, and the bytes from `mem_start` to `curr` -/
  recvSize : Nat
  recvBuffer : List Byte

/-- `mqtt_init`.  `keep_alive` and `time_of_last_send` are not set. -/
def Client.init (entrySize sendbufsz recvbufsz keepAlive timeOfLastSend : Nat) : Client where
  error := some .connectNotCalled
  pidLfsr := 0
  keepAlive
  sendOffset := 0
  timeOfLastSend
  responseTimeout := 30
  numberOfTimeouts := 0
  mq := .init sendbufsz entrySize
  recvSize := recvbufsz
  recvBuffer := []

namespace Client

/-- `mqtt_reinit`, for another connection. -/
def reinit (client : Client) (entrySize sendbufsz recvbufsz : Nat) : Client :=
  { client with
    error := some .connectNotCalled
    mq := .init sendbufsz entrySize
    recvSize := recvbufsz
    recvBuffer := [] }

/-- What a function leaves behind and returns; no error is `MQTT_OK`. -/
abbrev Returns := Client × Option Error

/-- The rest of `MQTT_CLIENT_TRY_PACK`, and what its user sets in the header.  What a packet that
does not fit has left of its header stands in the free space. -/
def finishPack (client : Client) (request : Request) (packetId : BitVec 16) : Packed → Returns
  | .failed e => ({ client with error := some e }, some e)
  | .full _ => ({ client with error := some .sendBufferIsFull }, some .sendBufferIsFull)
  | .wrote bytes =>
      let status : Status :=
        { state := .unsent, timeSent := 0, controlType := request.controlType, packetId }
      ({ client with mq := client.mq.register bytes status }, none)

/-- `MQTT_CLIENT_TRY_PACK`: a queue without room is cleaned once. -/
def tryPack (client : Client) (request : Request) (packetId : BitVec 16) : Returns :=
  match client.error with
  | some e => (client, some e)
  | none =>
      match request.pack client.mq.currSz with
      | .full _ =>
          let client := { client with mq := client.mq.clean }
          client.finishPack request packetId (request.pack client.mq.currSz)
      | packed => client.finishPack request packetId packed

/-- `MQTT_CLIENT_TRY_PACK` copies beyond the free space of the send buffer.  The room is checked for
the length in the header, which counts a string or message of 64 KiB or more modulo 2¹⁶. -/
def Overruns (client : Client) (request : Request) : Prop :=
  client.error = none ∧
    ((request.pack client.mq.currSz).Overruns client.mq.currSz ∨
      (request.pack client.mq.currSz).IsFull ∧
        (request.pack client.mq.clean.currSz).Overruns client.mq.clean.currSz)

instance (client : Client) (request : Request) : Decidable (client.Overruns request) :=
  inferInstanceAs (Decidable (_ ∧ _))

/-- `MQTT_CLIENT_TRY_PACK` with arguments of the program; none where it copies beyond the space of
the send buffer. -/
def packArgs (client : Client) (request : Request) (packetId : BitVec 16) : Option Returns :=
  if client.Overruns request then none else some (client.tryPack request packetId)

/-- The ids that `__mqtt_next_pid` passes over. -/
def packetIds (client : Client) : List (BitVec 16) :=
  client.mq.messages.map fun m => m.tag.packetId

/-- A call that takes a new packet id.  Without one it does not return. -/
def withPacketId (client : Client) (call : Client → BitVec 16 → Option Returns) :
    Option Returns :=
  (nextPid client.packetIds client.pidLfsr).bind fun packetId =>
    call { client with pidLfsr := packetId } packetId

/-- `mqtt_connect`.  `junk` is what the memory of the header held for a packet id. -/
def connect (client : Client) (args : ConnectArgs) (junk : BitVec 16) : Option Returns :=
  let client := { client with keepAlive := args.keepAlive.toNat }
  let client :=
    if client.error = some .connectNotCalled then { client with error := none } else client
  client.packArgs (.connect args) junk

/-- `mqtt_publish`. -/
def publish (client : Client) (topicName applicationMessage : List Byte) (publishFlags : Byte) :
    Option Returns :=
  client.withPacketId fun client packetId =>
    client.packArgs (.publish topicName packetId applicationMessage publishFlags) packetId

/-- `mqtt_subscribe`. -/
def subscribe (client : Client) (topicName : List Byte) (maxQosLevel : Byte) : Option Returns :=
  client.withPacketId fun client packetId =>
    client.packArgs (.subscribe packetId [(topicName, maxQosLevel)]) packetId

/-- `mqtt_unsubscribe`. -/
def unsubscribe (client : Client) (topicName : List Byte) : Option Returns :=
  client.withPacketId fun client packetId =>
    client.packArgs (.unsubscribe packetId [topicName]) packetId

/-- `__mqtt_puback`, `__mqtt_pubrec`, `__mqtt_pubrel` and `__mqtt_pubcomp`. -/
def acknowledge (client : Client) (controlType : ControlType) (packetId : BitVec 16) : Returns :=
  client.tryPack (.pubxxx controlType packetId) packetId

/-- `__mqtt_ping`. -/
def ping (client : Client) (junk : BitVec 16) : Returns := client.tryPack .pingreq junk

/-- `mqtt_disconnect`. -/
def disconnect (client : Client) (junk : BitVec 16) : Returns := client.tryPack .disconnect junk

end Client

/-! ## Sending -/

/-- A packet and its type. -/
structure Packet where
  controlType : ControlType
  bytes : List Byte
  deriving DecidableEq, Repr

/-- One call of `mqtt_pal_sendall`: the packet as it stands in the queue, whether it had not been
sent before, and what went out of it. -/
structure Transmission where
  packet : Packet
  first : Bool
  sent : List Byte
  ok : Bool
  deriving DecidableEq, Repr

/-- The locals and the fields of the client that the loop of `__mqtt_send` changes, apart from
the queue, and the readings of the clock so far. -/
structure Sending where
  inflightQos2 : Bool
  sendOffset : Nat
  numberOfTimeouts : Nat
  timeOfLastSend : Nat
  readings : Nat
  rets : List Nat

/-- How the loop goes on. -/
inductive Next where
  | continue
  /-- part of the packet is sent -/
  | break
  | return (e : Error)
  deriving DecidableEq, Repr

/-- The state after sending, by the control type; none is an error. -/
def sentState (m : Message) : Option (List Byte × MessageState) :=
  match m.tag.controlType with
  | .puback | .pubcomp | .disconnect => some (m.bytes, .complete)
  | .publish =>
      let inspected := inspectedQos (m.bytes.getD 0 0)
      if inspected = 0 then
        some (m.bytes, .complete)
      else if inspected = 1 then
        -- the DUP flag is for the next time
        some (m.bytes.modify 0 (· ||| publishDup), .awaitingAck)
      else
        some (m.bytes, .awaitingAck)
  | .connect | .pubrec | .pubrel | .subscribe | .unsubscribe | .pingreq =>
      some (m.bytes, .awaitingAck)
  | .connack | .suback | .unsuback | .pingresp => none

/-- A publish at quality of service 2. -/
def Message.IsQos2 (m : Message) : Prop :=
  m.tag.controlType = .publish ∧ inspectedQos (m.bytes.getD 0 0) = 2

instance (m : Message) : Decidable (Message.IsQos2 m) := inferInstanceAs (Decidable (_ ∧ _))

/-- The message is due: not sent yet, or sent and not answered for too long. -/
def Message.TimedOut (m : Message) (responseTimeout now : Nat) : Prop :=
  m.tag.state = .awaitingAck ∧ m.tag.timeSent + responseTimeout < now

instance (m : Message) (responseTimeout now : Nat) :
    Decidable (Message.TimedOut m responseTimeout now) :=
  inferInstanceAs (Decidable (_ ∧ _))

/-- The part of the loop's body behind the decision to send. -/
def transmit (clock : Nat → Nat) (s : Sending) (m : Message) :
    Sending × Message × List Transmission × Next :=
  let (sent, ok, rets) := sendall s.rets (m.bytes.drop s.sendOffset)
  let transmission : Transmission :=
    { packet := ⟨m.tag.controlType, m.bytes⟩, first := m.tag.state = .unsent, sent, ok }
  let s := { s with rets }
  if ok = false then
    (s, m, [transmission], .return .socketError)
  else
    let s := { s with sendOffset := s.sendOffset + sent.length }
    if s.sendOffset < m.bytes.length then
      (s, m, [transmission], .break)
    else
      let now := clock s.readings
      let s := { s with sendOffset := 0, timeOfLastSend := now, readings := s.readings + 1 }
      let status := { m.tag with timeSent := now }
      match sentState m with
      | none => (s, ⟨m.bytes, status⟩, [transmission], .return .malformedRequest)
      | some (bytes, state) => (s, ⟨bytes, { status with state }⟩, [transmission], .continue)

/-- A publish at quality of service 2 that is not complete. -/
def Message.Inflight (m : Message) : Prop := Message.IsQos2 m ∧ m.tag.state ≠ .complete

instance (m : Message) : Decidable (Message.Inflight m) := inferInstanceAs (Decidable (_ ∧ _))

/-- The part of the loop's body before the decision to send.  The clock is read for a message that
awaits an answer. -/
def Sending.watch (s : Sending) (m : Message) (timedOut : Bool) : Sending :=
  { s with
    readings := if m.tag.state = .awaitingAck then s.readings + 1 else s.readings
    numberOfTimeouts := if timedOut then s.numberOfTimeouts + 1 else s.numberOfTimeouts
    sendOffset := if timedOut then 0 else s.sendOffset
    inflightQos2 := s.inflightQos2 || decide (Message.Inflight m) }

/-- The body of the loop in `__mqtt_send`. -/
def sendMessage (clock : Nat → Nat) (responseTimeout : Nat) (s : Sending) (m : Message) :
    Sending × Message × List Transmission × Next :=
  let timedOut := decide (Message.TimedOut m responseTimeout (clock s.readings))
  -- one publish at quality of service 2 at a time
  let held := Message.Inflight m ∧ s.inflightQos2 = true
  if (m.tag.state = .unsent ∨ timedOut) ∧ ¬ held then
    transmit clock (s.watch m timedOut) m
  else
    (s.watch m timedOut, m, [], .continue)

/-- The loop in `__mqtt_send`. -/
def sendMessages (clock : Nat → Nat) (responseTimeout : Nat) (s : Sending) :
    List Message → Sending × List Message × List Transmission × Next
  | [] => (s, [], [], .continue)
  | m :: ms =>
      match sendMessage clock responseTimeout s m with
      | (s, m, out, .continue) =>
          let (s, ms, outs, next) := sendMessages clock responseTimeout s ms
          (s, m :: ms, out ++ outs, next)
      | (s, m, out, next) => (s, m :: ms, out, next)

namespace Client

def sending (client : Client) (rets : List Nat) : Sending where
  inflightQos2 := false
  sendOffset := client.sendOffset
  numberOfTimeouts := client.numberOfTimeouts
  timeOfLastSend := client.timeOfLastSend
  readings := 0
  rets

def sent (client : Client) (s : Sending) (messages : List Message) : Client :=
  { client with
    sendOffset := s.sendOffset
    numberOfTimeouts := s.numberOfTimeouts
    timeOfLastSend := s.timeOfLastSend
    mq := { client.mq with messages } }

/-- A client with this error sends nothing. -/
def Stopped (client : Client) : Prop :=
  client.error ≠ none ∧ client.error ≠ some .sendBufferIsFull

instance (client : Client) : Decidable client.Stopped := inferInstanceAs (Decidable (_ ∧ _))

/-- `__mqtt_send`. -/
def send (client : Client) (clock : Nat → Nat) (rets : List Nat) (junk : BitVec 16) :
    Client × List Transmission × Option Error :=
  if client.Stopped then
    (client, [], client.error)
  else
    let (s, messages, out, next) :=
      sendMessages clock client.responseTimeout (client.sending rets) client.mq.messages
    let client := client.sent s messages
    match next with
    | .return e => ({ client with error := some e }, out, some e)
    | _ =>
        -- three quarters of the keep-alive time without a packet: a ping
        if client.timeOfLastSend + client.keepAlive * 3 / 4 < clock s.readings then
          match client.ping junk with
          | (client, some e) => ({ client with error := some e }, out, some e)
          | (client, none) => (client, out, none)
        else
          (client, out, none)

end Client

/-! ## Receiving -/

namespace Client

/-- Where an acknowledgement finds the message it is for. -/
def release (client : Client) (controlType : ControlType) (packetId : Option (BitVec 16)) :
    Returns :=
  match client.mq.find controlType packetId with
  | none => ({ client with error := some .ackOfUnknown }, some .ackOfUnknown)
  | some i =>
      ({ client with mq := client.mq.update i fun status => { status with state := .complete } },
        none)

/-- The next call of a case, after one without an error. -/
def andThen (r : Returns) (next : Client → Returns) : Returns :=
  match r with
  | (client, some e) => (client, some e)
  | (client, none) => next client

/-- A call whose error becomes the client's. -/
def keepError (r : Returns) : Returns :=
  match r with
  | (client, some e) => ({ client with error := some e }, some e)
  | (client, none) => (client, none)

def fail (client : Client) (e : Error) : Returns := ({ client with error := some e }, some e)

/-- The callback gets the publish, unless acknowledging it has failed. -/
def deliver (publish : ResponsePublish) (r : Returns) : Returns × List ResponsePublish :=
  (r, if r.2 = none then [publish] else [])

/-- The `switch` of `__mqtt_recv`: the client, the publishes given to the callback, and
`mqtt_recv_ret`. -/
def handle (client : Client) : Response → Returns × List ResponsePublish
  | .connack _ returnCode =>
      (andThen (client.release .connect none) fun client =>
        if returnCode = 0 then
          (client, none)
        else if returnCode = 2 then
          client.fail .connectClientIdRefused
        else
          client.fail .connectionRefused, [])
  | .publish publish =>
      let packetId := publish.packetId.getD 0
      if publish.qosLevel = 1 then
        deliver publish (keepError (client.acknowledge .puback packetId))
      else if publish.qosLevel = 2 then
        -- a duplicate is not given to the callback
        if client.mq.find .pubrec (some packetId) ≠ none then
          ((client, none), [])
        else
          deliver publish (keepError (client.acknowledge .pubrec packetId))
      else
        deliver publish (client, none)
  | .puback packetId => (client.release .publish (some packetId), [])
  | .pubrec packetId =>
      if client.mq.find .pubrel (some packetId) ≠ none then
        ((client, none), [])
      else
        (andThen (client.release .publish (some packetId)) fun client =>
          keepError (client.acknowledge .pubrel packetId), [])
  | .pubrel packetId =>
      (andThen (client.release .pubrec (some packetId)) fun client =>
        keepError (client.acknowledge .pubcomp packetId), [])
  | .pubcomp packetId => (client.release .pubrel (some packetId), [])
  | .suback packetId returnCodes =>
      (andThen (client.release .subscribe (some packetId)) fun client =>
        if returnCodes.getD 0 0 = 128 then client.fail .subscribeFailed else (client, none), [])
  | .unsuback packetId => (client.release .unsubscribe (some packetId), [])
  | .pingresp => (client.release .pingreq none, [])

end Client

/-- How `__mqtt_recv` ends: it returns, or it comes upon a publish with sizes that reach beyond its
packet.  The code gives it to the callback with these sizes, and then cuts off more bytes than there
are; the model stops before. -/
inductive Ending where
  | returned (e : Option Error)
  | overrun
  deriving DecidableEq, Repr

/-- What `__mqtt_recv` leaves: the client, the responses handled with the publishes given to the
callback, the bytes put into the buffer, the ones that were read before `recv` failed and are lost,
and the rest of the script. -/
structure Received where
  client : Client
  handled : List Response
  delivered : List ResponsePublish
  taken : List Byte
  dropped : List Byte
  rets : List Recv
  ending : Ending

namespace Client

/-- The bytes that a script still holds. -/
def pending (rets : List Recv) : List Byte :=
  rets.flatMap fun r => match r with
    | .data bytes => bytes
    | .nothing | .failed => []

/-- The loop of `__mqtt_recv`, at most `fuel` times round. -/
def recvLoop : (fuel : Nat) → Client → List Recv → Option Received
  | 0, _, _ => none
  | fuel + 1, client, rets =>
      match recvall rets (client.recvSize - client.recvBuffer.length) with
      | (dropped, false, rets) =>
          -- `curr` stays where it is
          some ⟨{ client with error := some .socketError }, [], [], [], dropped, rets,
            .returned (some .socketError)⟩
      | (taken, true, rets) =>
          let client := { client with recvBuffer := client.recvBuffer ++ taken }
          match unpackResponse client.recvBuffer with
          | .failed e =>
              some ⟨{ client with error := some e }, [], [], taken, [], rets, .returned (some e)⟩
          | .more =>
              if client.recvSize - client.recvBuffer.length = 0 then
                -- the packet will never fit
                some ⟨{ client with error := some .recvBufferTooSmall }, [], [], taken, [], rets,
                  .returned (some .recvBufferTooSmall)⟩
              else
                some ⟨client, [], [], taken, [], rets, .returned none⟩
          | .frame response consumed =>
              if client.recvBuffer.length < consumed then
                -- the sizes reach beyond the packet
                some ⟨client, [], [], taken, [], rets, .overrun⟩
              else
                let ((client, ret), delivered) := client.handle response
                let client := { client with recvBuffer := client.recvBuffer.drop consumed }
                match ret with
                | some e =>
                    some ⟨client, [response], delivered, taken, [], rets, .returned (some e)⟩
                | none =>
                    (recvLoop fuel client rets).map fun r =>
                      { r with
                        handled := response :: r.handled
                        delivered := delivered ++ r.delivered
                        taken := taken ++ r.taken }

/-- `__mqtt_recv`.  Every time round but the last takes a packet off the buffer. -/
def recv (client : Client) (rets : List Recv) : Option Received :=
  client.recvLoop (client.recvBuffer.length + (pending rets).length + 1) rets

end Client

end SmartHome.Mqtt
