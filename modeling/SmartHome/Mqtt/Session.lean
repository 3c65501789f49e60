/-
# `Mqtt.Session` — runs of a client

A session is a client on one connection and the record of what went through it: the publishes it
accepted, what it gave to the socket, the bytes it kept of what came from there, and the responses
it handled.  The calls of all threads follow one another in some order, as the mutex of the client
has it.  `mqtt_sync` takes the mutex once to receive and once more to send, and other calls may come
between; a run is any list of these sections, each with what its environment does.
-/
import SmartHome.Mqtt.Client
import SmartHome.Mqtt.RoundTrip
import Mathlib.Logic.Relation

namespace SmartHome.Mqtt

/-- The arguments of `mqtt_publish`, with the packet id it took. -/
structure Publish where
  topicName : List Byte
  applicationMessage : List Byte
  publishFlags : Byte
  packetId : BitVec 16
  deriving DecidableEq, Repr

/-- What a thread does while it has the mutex: one call of a function of the client, or one of the
two halves of `mqtt_sync`.  `mqtt_reinit` is not among them, it begins another session. -/
inductive Call where
  | connect (args : ConnectArgs) (junk : BitVec 16)
  | publish (topicName applicationMessage : List Byte) (publishFlags : Byte)
  | subscribe (topicName : List Byte) (maxQosLevel : Byte)
  | unsubscribe (topicName : List Byte)
  | ping (junk : BitVec 16)
  | disconnect (junk : BitVec 16)
  | recv (recvs : List Recv)
  | send (clock : Nat → Nat) (sends : List Nat) (junk : BitVec 16)

structure Session where
  client : Client
  published : List Publish
  transmissions : List Transmission
  handled : List Response
  delivered : List ResponsePublish
  /-- the bytes that were put into `recv_buffer` -/
  received : List Byte
  /-- the bytes that were read before `recv` failed, and lost -/
  dropped : List Byte

def Session.init (client : Client) : Session := ⟨client, [], [], [], [], [], []⟩

namespace Session

def returns (s : Session) (r : Client.Returns) : Session := { s with client := r.1 }

def receives (s : Session) (r : Received) : Session :=
  { s with
    client := r.client
    handled := s.handled ++ r.handled
    delivered := s.delivered ++ r.delivered
    received := s.received ++ r.taken
    dropped := s.dropped ++ r.dropped }

def sends (s : Session) (r : Client × List Transmission × Option Error) : Session :=
  { s with client := r.1, transmissions := s.transmissions ++ r.2.1 }

/-- One call; none where it does not return, or copies or reads beyond the space it has. -/
def step (s : Session) : Call → Option Session
  | .connect args junk => (s.client.connect args junk).map s.returns
  | .publish topicName applicationMessage publishFlags =>
      (nextPid s.client.packetIds s.client.pidLfsr).bind fun packetId =>
        (s.client.publish topicName applicationMessage publishFlags).map fun r =>
          if r.2 = none then
            { s.returns r with
              published :=
                s.published ++ [⟨topicName, applicationMessage, publishFlags, packetId⟩] }
          else
            s.returns r
  | .subscribe topicName maxQosLevel =>
      (s.client.subscribe topicName maxQosLevel).map s.returns
  | .unsubscribe topicName => (s.client.unsubscribe topicName).map s.returns
  | .ping junk => some (s.returns (s.client.ping junk))
  | .disconnect junk => some (s.returns (s.client.disconnect junk))
  | .recv recvs =>
      match s.client.recv recvs with
      | none => none
      | some r =>
          match r.ending with
          | .overrun => none
          | .returned _ => some (s.receives r)
  | .send clock sends junk => some (s.sends (s.client.send clock sends junk))

/-- `mqtt_sync`, when no other call comes between its halves: without an error from receiving it
goes on to send.  There are no callbacks for reconnecting and inspecting. -/
def sync (s : Session) (recvs : List Recv) (clock : Nat → Nat) (sends : List Nat)
    (junk : BitVec 16) : Option Session :=
  match s.client.recv recvs with
  | none => none
  | some r =>
      match r.ending with
      | .overrun => none
      | .returned (some _) => some (s.receives r)
      | .returned none => (s.receives r).step (.send clock sends junk)

def run (s : Session) : List Call → Option Session
  | [] => some s
  | call :: calls => (s.step call).bind fun s => s.run calls

theorem run_induct {I : Session → Prop} {ok : Call → Prop}
    (hstep : ∀ s call s', ok call → I s → s.step call = some s' → I s') :
    ∀ {calls : List Call} {s s' : Session}, (∀ call ∈ calls, ok call) → I s →
      s.run calls = some s' → I s'
  | [], s, s', _, hs, hr => Option.some.inj hr ▸ hs
  | call :: calls, s, s', hok, hs, hr => by
      obtain ⟨hcall, hcalls⟩ := List.forall_mem_cons.mp hok
      obtain ⟨t, ht, hr⟩ := Option.bind_eq_some_iff.mp hr
      exact run_induct hstep hcalls (hstep s call t hcall hs ht) hr

end Session

/-! ## What one call does -/

/-- Neither the lack of room, with which the client goes on sending, nor the error that
`mqtt_connect` takes away. -/
def Error.Final (e : Error) : Prop := e ≠ .sendBufferIsFull ∧ e ≠ .connectNotCalled

instance (e : Error) : Decidable e.Final := inferInstanceAs (Decidable (_ ∧ _))

/-- There was no room for the packet, or the arguments are not good for one. -/
def Request.Refused (request : Request) (e : Error) : Prop :=
  e = .sendBufferIsFull ∨ ∃ bufsz, request.pack bufsz = .failed e

namespace Client

/-- The two states in which `MQTT_CLIENT_TRY_PACK` packs. -/
def Cleaned (mq mq' : Queue) : Prop := mq' = mq ∨ mq' = mq.clean

def registered (client : Client) (mq : Queue) (bytes : List Byte) (controlType : ControlType)
    (packetId : BitVec 16) : Client :=
  { client with
    mq := mq.register bytes { state := .unsent, timeSent := 0, controlType, packetId } }

theorem tryPack_of_error {client : Client} {e : Error} (h : client.error = some e)
    (request : Request) (packetId : BitVec 16) :
    client.tryPack request packetId = (client, some e) := by
  simp only [tryPack, h]

theorem tryPack_of_isFull {client : Client} {request : Request} (h : client.error = none)
    (hfull : (request.pack client.mq.currSz).IsFull) (packetId : BitVec 16) :
    client.tryPack request packetId =
      { client with mq := client.mq.clean }.finishPack request packetId
        (request.pack client.mq.clean.currSz) := by
  cases hpack : request.pack client.mq.currSz with
  | full written => simp only [tryPack, h, hpack]
  | _ =>
      rw [hpack] at hfull
      exact hfull.elim

theorem tryPack_of_not_isFull {client : Client} {request : Request} (h : client.error = none)
    (hroom : ¬ (request.pack client.mq.currSz).IsFull) (packetId : BitVec 16) :
    client.tryPack request packetId =
      client.finishPack request packetId (request.pack client.mq.currSz) := by
  cases hpack : request.pack client.mq.currSz with
  | full written =>
      rw [hpack] at hroom
      exact absurd trivial hroom
  | _ => simp only [tryPack, h, hpack]

/-- Everything `MQTT_CLIENT_TRY_PACK` can do: register the packet, or set an error. -/
theorem tryPack_cases (client : Client) (request : Request) (packetId : BitVec 16) :
    ∃ mq, Cleaned client.mq mq ∧
      ((∃ bytes, client.error = none ∧ request.pack mq.currSz = .wrote bytes ∧
          client.tryPack request packetId =
            (client.registered mq bytes request.controlType packetId, none)) ∨
        ∃ e, (client.error = none ∧ request.Refused e ∨ client.error = some e) ∧
          client.tryPack request packetId = ({ client with mq, error := some e }, some e)) := by
  rcases herror : client.error with _ | e
  · by_cases hfull : (request.pack client.mq.currSz).IsFull
    · rw [tryPack_of_isFull herror hfull]
      refine ⟨client.mq.clean, .inr rfl, ?_⟩
      cases hpack : request.pack client.mq.clean.currSz with
      | failed e => exact .inr ⟨e, .inl ⟨rfl, .inr ⟨_, hpack⟩⟩, rfl⟩
      | full written => exact .inr ⟨.sendBufferIsFull, .inl ⟨rfl, .inl rfl⟩, rfl⟩
      | wrote bytes => exact .inl ⟨bytes, rfl, rfl, rfl⟩
    · rw [tryPack_of_not_isFull herror hfull]
      refine ⟨client.mq, .inl rfl, ?_⟩
      cases hpack : request.pack client.mq.currSz with
      | failed e => exact .inr ⟨e, .inl ⟨rfl, .inr ⟨_, hpack⟩⟩, rfl⟩
      | full written =>
          rw [hpack] at hfull
          exact absurd trivial hfull
      | wrote bytes => exact .inl ⟨bytes, rfl, rfl, rfl⟩
  · rw [tryPack_of_error herror]
    refine ⟨client.mq, .inl rfl, .inr ⟨e, .inr rfl, ?_⟩⟩
    rw [← herror]

theorem packArgs_eq_some {client : Client} {request : Request} {packetId : BitVec 16} {r : Returns}
    (h : client.packArgs request packetId = some r) : r = client.tryPack request packetId := by
  rw [packArgs] at h
  split at h
  · cases h
  · exact (Option.some.inj h).symm

theorem withPacketId_eq_some {client : Client} {request : BitVec 16 → Request} {r : Returns}
    (h : client.withPacketId (fun client packetId => client.packArgs (request packetId) packetId) =
      some r) :
    ∃ packetId, nextPid client.packetIds client.pidLfsr = some packetId ∧
      r = { client with pidLfsr := packetId }.tryPack (request packetId) packetId := by
  obtain ⟨packetId, hpid, hr⟩ := Option.bind_eq_some_iff.mp h
  exact ⟨packetId, hpid, packArgs_eq_some hr⟩

/-- One change of the client and its queue outside `__mqtt_send`.  `ok` are the requests that may be
registered, `rel` what may be looked for and released. -/
inductive Move (ok : Request → Prop) (rel : ControlType → Option (BitVec 16) → Prop) :
    Client → Client → Prop where
  | fail {client : Client} {mq : Queue} {e : Error} :
      Cleaned client.mq mq →
      client.error = none ∨ client.error = some e ∨ e.Final →
        Move ok rel client { client with mq, error := some e }
  | register {client : Client} {mq : Queue} {request : Request} {bytes : List Byte}
      {packetId : BitVec 16} :
      ok request → client.error = none → Cleaned client.mq mq →
      request.pack mq.currSz = .wrote bytes →
        Move ok rel client (client.registered mq bytes request.controlType packetId)
  | release {client : Client} {controlType : ControlType} {packetId : Option (BitVec 16)}
      {i : Nat} :
      rel controlType packetId → client.mq.find controlType packetId = some i →
        Move ok rel client
          { client with mq := client.mq.update i fun status => { status with state := .complete } }

abbrev Moves (ok : Request → Prop) (rel : ControlType → Option (BitVec 16) → Prop) :
    Client → Client → Prop :=
  Relation.ReflTransGen (Move ok rel)

variable {ok : Request → Prop} {rel : ControlType → Option (BitVec 16) → Prop}
  {client client' : Client}

/-- What is not error and queue stays as it is. -/
structure SameBut (client client' : Client) : Prop where
  recvSize : client'.recvSize = client.recvSize
  recvBuffer : client'.recvBuffer = client.recvBuffer
  sendOffset : client'.sendOffset = client.sendOffset
  pidLfsr : client'.pidLfsr = client.pidLfsr
  responseTimeout : client'.responseTimeout = client.responseTimeout

theorem Move.sameBut (h : Move ok rel client client') : SameBut client client' := by
  cases h <;> exact ⟨rfl, rfl, rfl, rfl, rfl⟩

theorem Moves.sameBut (h : Moves ok rel client client') : SameBut client client' := by
  induction h with
  | refl => exact ⟨rfl, rfl, rfl, rfl, rfl⟩
  | tail _ hmove ih =>
      have hsame := hmove.sameBut
      exact ⟨hsame.recvSize.trans ih.recvSize, hsame.recvBuffer.trans ih.recvBuffer,
        hsame.sendOffset.trans ih.sendOffset, hsame.pidLfsr.trans ih.pidLfsr,
        hsame.responseTimeout.trans ih.responseTimeout⟩

theorem tryPack_move {request : Request} (hok : ok request) (packetId : BitVec 16) :
    Move ok rel client (client.tryPack request packetId).1 := by
  obtain ⟨mq, hmq, ⟨bytes, herror, hpack, heq⟩ | ⟨e, he, heq⟩⟩ :=
    tryPack_cases client request packetId
  · rw [heq]
    exact .register hok herror hmq hpack
  · rw [heq]
    exact .fail hmq (he.imp And.left .inl)

theorem fail_move {e : Error} (he : client.error = some e ∨ e.Final) :
    Move ok rel client { client with error := some e } :=
  .fail (.inl rfl) (.inr he)

theorem release_move {controlType : ControlType} {packetId : Option (BitVec 16)}
    (hrel : rel controlType packetId) :
    Move ok rel client (client.release controlType packetId).1 := by
  unfold release
  cases hfind : client.mq.find controlType packetId with
  | none => exact fail_move (.inr (by decide))
  | some i => exact .release hrel hfind

theorem tryPack_error {request : Request} {packetId : BitVec 16} {e : Error}
    (h : client.tryPack request packetId = (client', some e)) : client'.error = some e := by
  obtain ⟨mq, _, ⟨bytes, _, _, heq⟩ | ⟨e', _, heq⟩⟩ := tryPack_cases client request packetId
  · rw [heq] at h
    cases h
  · rw [heq] at h
    cases h
    rfl

theorem keepError_mq (r : Returns) : (keepError r).1.mq = r.1.mq := by
  obtain ⟨c, ret⟩ := r
  cases ret <;> rfl

theorem keepError_moves {r : Returns} (hmoves : Moves ok rel client r.1)
    (herror : ∀ e, r.2 = some e → r.1.error = some e) : Moves ok rel client (keepError r).1 := by
  obtain ⟨c, ret⟩ := r
  cases ret with
  | none => exact hmoves
  | some e => exact hmoves.tail (fail_move (.inl (herror e rfl)))

theorem andThen_moves {r : Returns} {next : Client → Returns} (hmoves : Moves ok rel client r.1)
    (hnext : ∀ c, Moves ok rel client c → Moves ok rel client (next c).1) :
    Moves ok rel client (andThen r next).1 := by
  obtain ⟨c, ret⟩ := r
  cases ret with
  | none => exact hnext c hmoves
  | some e => exact hmoves

end Client

/-- The message that a response answers, by its type and packet id. -/
def Response.answers : Response → Option (ControlType × Option (BitVec 16))
  | .connack .. => some (.connect, none)
  | .publish _ => none
  | .puback packetId | .pubrec packetId => some (.publish, some packetId)
  | .pubrel packetId => some (.pubrec, some packetId)
  | .pubcomp packetId => some (.pubrel, some packetId)
  | .suback packetId _ => some (.subscribe, some packetId)
  | .unsuback packetId => some (.unsubscribe, some packetId)
  | .pingresp => some (.pingreq, none)

/-- The types of the messages that are answered by their packet id. -/
def ControlType.HasId (t : ControlType) : Prop :=
  t = .publish ∨ t = .pubrec ∨ t = .pubrel ∨ t = .subscribe ∨ t = .unsubscribe

instance (t : ControlType) : Decidable t.HasId := inferInstanceAs (Decidable (_ ∨ _))

theorem Response.hasId {response : Response} {t : ControlType} {packetId : BitVec 16}
    (h : response.answers = some (t, some packetId)) : t.HasId := by
  cases response <;> cases h <;> decide

theorem Response.answers_of_hasId {response : Response} {t : ControlType}
    {packetId : Option (BitVec 16)} (h : response.answers = some (t, packetId)) (ht : t.HasId) :
    ∃ id, packetId = some id := by
  cases response with
  | connack sessionPresentFlag returnCode =>
      cases h
      exact absurd ht (by decide : ¬ ControlType.connect.HasId)
  | publish message => cases h
  | pingresp =>
      cases h
      exact absurd ht (by decide : ¬ ControlType.pingreq.HasId)
  | _ =>
      cases h
      exact ⟨_, rfl⟩

/-- The acknowledgement that a response asks for. -/
def Response.stages : Response → Option Request
  | .publish message =>
      let packetId := message.packetId.getD 0
      if message.qosLevel = 1 then
        some (.pubxxx .puback packetId)
      else if message.qosLevel = 2 then
        some (.pubxxx .pubrec packetId)
      else
        none
  | .pubrec packetId => some (.pubxxx .pubrel packetId)
  | .pubrel packetId => some (.pubxxx .pubcomp packetId)
  | _ => none

namespace Client

/-- What handling a response may do to the client. -/
abbrev HandleMoves (response : Response) : Client → Client → Prop :=
  Moves (fun request => response.stages = some request)
    (fun t packetId => response.answers = some (t, packetId))

variable {response : Response} {client c : Client}

theorem acknowledge_moves {controlType : ControlType} {packetId : BitVec 16}
    (hack : response.stages = some (.pubxxx controlType packetId))
    (hmoves : HandleMoves response client c) :
    HandleMoves response client (keepError (c.acknowledge controlType packetId)).1 := by
  refine keepError_moves (hmoves.tail (tryPack_move hack packetId)) ?_
  intro e he
  exact tryPack_error (Prod.ext rfl he)

/-- **What a response does**: it releases the message it answers, and registers the
acknowledgement it asks for. -/
theorem handle_moves (client : Client) (response : Response) :
    HandleMoves response client (client.handle response).1.1 := by
  have hrelease : ∀ t packetId, response.answers = some (t, packetId) →
      HandleMoves response client (client.release t packetId).1 :=
    fun t packetId ht => .single (release_move ht)
  cases response with
  | connack sessionPresentFlag returnCode =>
      refine andThen_moves (hrelease .connect none rfl) ?_
      intro c hc
      split
      · exact hc
      split
      · exact hc.tail (fail_move (.inr (by decide)))
      · exact hc.tail (fail_move (.inr (by decide)))
  | publish message =>
      simp only [handle]
      by_cases hone : message.qosLevel = 1
      · rw [if_pos hone]
        exact acknowledge_moves (if_pos hone) .refl
      rw [if_neg hone]
      by_cases htwo : message.qosLevel = 2
      · rw [if_pos htwo]
        split
        · exact .refl
        · exact acknowledge_moves ((if_neg hone).trans (if_pos htwo)) .refl
      · rw [if_neg htwo]
        exact .refl
  | puback packetId => exact hrelease .publish _ rfl
  | pubrec packetId =>
      simp only [handle]
      split
      · exact .refl
      · exact andThen_moves (hrelease .publish _ rfl) fun c hc => acknowledge_moves rfl hc
  | pubrel packetId =>
      exact andThen_moves (hrelease .pubrec _ rfl) fun c hc => acknowledge_moves rfl hc
  | pubcomp packetId => exact hrelease .pubrel _ rfl
  | suback packetId returnCodes =>
      refine andThen_moves (hrelease .subscribe _ rfl) ?_
      intro c hc
      split
      · exact hc.tail (fail_move (.inr (by decide)))
      · exact hc
  | unsuback packetId => exact hrelease .unsubscribe _ rfl
  | pingresp => exact hrelease .pingreq none rfl

theorem handle_sameBut {c' : Client} {ret : Option Error} {delivered : List ResponsePublish}
    (h : c.handle response = ((c', ret), delivered)) : SameBut c c' := by
  have hmoves := handle_moves c response
  rw [h] at hmoves
  exact hmoves.sameBut

end Client

end SmartHome.Mqtt
