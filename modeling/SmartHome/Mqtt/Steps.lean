/-
# `Mqtt.Steps` — a session in small steps

One call of a session can do much: `__mqtt_recv` handles any number of responses, `__mqtt_send`
sends any number of messages.  `Micro` cuts it into steps of five kinds, each with what is known
where it is taken; an invariant of these is an invariant of every run.

**Rules proved here.**

    step_micros   a call is a list of small steps
    run_inv       what every small step keeps, a run keeps
-/
import SmartHome.Mqtt.Receive
import SmartHome.Mqtt.Send

namespace SmartHome.Mqtt

open Relation (ReflTransGen)
open Entries

/-! ## The steps -/

/-- The packet id that a call has taken for the request. -/
def Request.taken : Request → Option (BitVec 16)
  | .publish _ packetId _ _ | .subscribe packetId _ | .unsubscribe packetId _ => some packetId
  | _ => none

/-- A request that a call makes, and no response. -/
def Request.IsOwn : Request → Prop
  | .pubxxx .. => False
  | _ => True

/-- The publish that a request is. -/
def Request.published : Request → List Publish
  | .publish topicName packetId applicationMessage publishFlags =>
      [⟨topicName, applicationMessage, publishFlags, packetId⟩]
  | _ => []

/-- What a call changes before it packs: the keep-alive time, the register of the packet ids,
and `mqtt_connect` takes the error away that was there for it. -/
structure Prepared (client c : Client) : Prop where
  mq : c.mq = client.mq
  recvSize : c.recvSize = client.recvSize
  recvBuffer : c.recvBuffer = client.recvBuffer
  sendOffset : c.sendOffset = client.sendOffset
  error : c.error = client.error ∨ (client.error = some .connectNotCalled ∧ c.error = none)

theorem Prepared.refl (client : Client) : Prepared client client := ⟨rfl, rfl, rfl, rfl, .inl rfl⟩

def Fresh (client : Client) (request : Request) (packetId : BitVec 16) : Prop :=
  ∀ id, request.taken = some id → packetId = id ∧ id ≠ 0 ∧ id ∉ client.packetIds

namespace Session

def packs (s : Session) (request : Request) (r : Client.Returns) : Session :=
  { s with
    client := r.1
    published := s.published ++ if r.2 = none then request.published else [] }

def fills (s : Session) (got : List Byte) : Session :=
  { s with client := s.client.filled got, received := s.received ++ got }

def handles (s : Session) (response : Response) (n : Nat) : Session :=
  { s with
    client := (s.client.handle response).1.1.consumed n
    handled := s.handled ++ [response]
    delivered := s.delivered ++ (s.client.handle response).2 }

/-- An error has been set, and with one of the socket the bytes are lost that were just read. -/
def fails (s : Session) (e : Error) (got : List Byte) : Session :=
  { s with
    client := { s.client with error := some e }
    dropped := s.dropped ++ got }

def sendsOut (s : Session) (t : Sending) (messages : List Message) (out : List Transmission)
    (e : Option Error) : Session :=
  { s with
    client := { s.client.sent t messages with error := e.or s.client.error }
    transmissions := s.transmissions ++ out }

end Session

inductive Micro : Session → Session → Prop where
  | pack {s : Session} {c : Client} {request : Request} {packetId : BitVec 16} :
      Prepared s.client c → request.IsOwn → request.Short → Fresh s.client request packetId →
        Micro s (s.packs request (c.tryPack request packetId))
  | fill {s : Session} {got : List Byte} : got.length ≤ s.client.room → Micro s (s.fills got)
  | handle {s : Session} {response : Response} {n : Nat} :
      unpackResponse s.client.recvBuffer = .frame response n → n ≤ s.client.recvBuffer.length →
        Micro s (s.handles response n)
  | fail {s : Session} {e : Error} {got : List Byte} :
      e.Final → (got ≠ [] → e = .socketError) → Micro s (s.fails e got)
  | send {s : Session} {t : Sending} {messages : List Message} {out : List Transmission}
      {e : Option Error} :
      ¬ s.client.Stopped → t.sendOffset = 0 →
      Outcomes false s.client.mq.messages messages out e →
        Micro s (s.sendsOut t messages out e)

abbrev Micros : Session → Session → Prop := ReflTransGen Micro

/-! ## Receiving -/

theorem Micro.set {s : Session} {e : Error} (he : e.Final) :
    Micro s { s with client := { s.client with error := some e } } := by
  have hfail : Micro s (s.fails e []) := .fail he fun hne => absurd rfl hne
  simp only [Session.fails, List.append_nil] at hfail
  exact hfail

theorem micros_response {s : Session} {c' : Client} {rets rets' : List Recv} {got : List Byte}
    {response : Response} {n : Nat} {ret : Option Error} {delivered : List ResponsePublish}
    (hrecv : recvall rets s.client.room = (got, true, rets'))
    (hscan : unpackResponse (s.client.recvBuffer ++ got) = .frame response n)
    (hlen : n ≤ (s.client.recvBuffer ++ got).length)
    (hhandle : (s.client.filled got).handle response = ((c', ret), delivered)) :
    Micros s
      { s with
        client := c'.consumed n
        handled := s.handled ++ [response]
        delivered := s.delivered ++ delivered
        received := s.received ++ got } := by
  have hfill : Micro s (s.fills got) := .fill (recvall_spec hrecv).1
  have htaken : Micro (s.fills got) ((s.fills got).handles response n) := .handle hscan hlen
  have hclient : (s.fills got).client.handle response = ((c', ret), delivered) := hhandle
  simp only [Session.handles, hclient] at htaken
  exact (ReflTransGen.single hfill).tail htaken

theorem Receives.micros {s : Session} {rets : List Recv} {r : Received}
    (h : Receives s.client rets r) : Micros s (s.receives r) := by
  generalize hclient : s.client = c at h
  induction h generalizing s with
  | socketError _ =>
      subst hclient
      simp only [Session.receives, List.append_nil]
      exact .single (.fail (by decide) fun _ => rfl)
  | malformed hrecv hscan =>
      subst hclient
      simp only [Session.receives, List.append_nil]
      exact (ReflTransGen.single (.fill (recvall_spec hrecv).1)).tail
        (.set (unpackResponse_failed hscan))
  | tooSmall hrecv _ _ =>
      subst hclient
      simp only [Session.receives, List.append_nil]
      exact (ReflTransGen.single (.fill (recvall_spec hrecv).1)).tail (.set (by decide))
  | wait hrecv _ _ =>
      subst hclient
      simp only [Session.receives, List.append_nil]
      exact .single (.fill (recvall_spec hrecv).1)
  | overrun hrecv _ _ =>
      subst hclient
      simp only [Session.receives, List.append_nil]
      exact .single (.fill (recvall_spec hrecv).1)
  | stop hrecv hscan hlen hhandle =>
      subst hclient
      have hone := micros_response hrecv hscan hlen hhandle
      simp only [Session.receives, List.append_nil]
      exact hone
  | next hrecv hscan hlen hhandle _ ih =>
      subst hclient
      have hrest := (micros_response hrecv hscan hlen hhandle).trans (ih rfl)
      simp only [Session.receives, List.append_assoc, List.singleton_append] at hrest ⊢
      exact hrest

/-! ## What holds of every message -/

/-- The message for a packet that has just been packed. -/
def newMessage (request : Request) (packetId : BitVec 16) (bytes : List Byte) : Message :=
  ⟨bytes, { state := .unsent, timeSent := 0, controlType := request.controlType, packetId }⟩

/-- The message when its answer has come. -/
def Message.completed (m : Message) : Message := { m with tag := { m.tag with state := .complete } }

/-- A property of single messages that registering, releasing and sending keep. -/
structure Kept (P : Message → Prop) : Prop where
  new : ∀ {request : Request} {packetId : BitVec 16} {bytes : List Byte} {bufsz : Nat},
    request.Short → request.pack bufsz = .wrote bytes → P (newMessage request packetId bytes)
  completed : ∀ {m : Message}, P m → P (Message.completed m)
  sent : ∀ {inflight : Bool} {m m' : Message} {out : List Transmission} {e : Option Error},
    Outcome inflight m m' out e → P m → P m'

theorem Client.Cleaned.sublist {mq mq' : Queue} (h : Client.Cleaned mq mq') :
    mq'.messages.Sublist mq.messages := by
  rcases h with rfl | rfl
  · exact List.Sublist.refl _
  · exact List.dropWhile_sublist _

variable {ok : Request → Prop} {rel : ControlType → Option (BitVec 16) → Prop}

theorem Client.Move.forall_messages {P : Message → Prop} {c c' : Client}
    (h : Client.Move ok rel c c')
    (hnew : ∀ {request packetId bytes bufsz}, ok request → request.pack bufsz = .wrote bytes →
      P (newMessage request packetId bytes))
    (hcompleted : ∀ {m}, P m → P (Message.completed m)) (hc : ∀ m ∈ c.mq.messages, P m) :
    ∀ m ∈ c'.mq.messages, P m := by
  cases h with
  | fail hmq _ => exact fun m hm => hc m (hmq.sublist.subset hm)
  | register hrequest _ hmq hpack =>
      intro m hm
      rcases List.mem_append.mp hm with hm | hm
      · exact hc m (hmq.sublist.subset hm)
      · rw [List.mem_singleton.mp hm]
        exact hnew hrequest hpack
  | release _ _ => exact forall_mem_modify hc fun _ hm => hcompleted hm

theorem Client.Moves.forall_messages {P : Message → Prop} {c c' : Client}
    (h : Client.Moves ok rel c c')
    (hnew : ∀ {request packetId bytes bufsz}, ok request → request.pack bufsz = .wrote bytes →
      P (newMessage request packetId bytes))
    (hcompleted : ∀ {m}, P m → P (Message.completed m)) (hc : ∀ m ∈ c.mq.messages, P m) :
    ∀ m ∈ c'.mq.messages, P m := by
  induction h with
  | refl => exact hc
  | tail _ hmove ih => exact hmove.forall_messages hnew hcompleted ih

theorem Outcomes.forall_messages {P : Message → Prop}
    (hsent : ∀ {inflight m m' out e}, Outcome inflight m m' out e → P m → P m')
    {inflight : Bool} {ms ms' : List Message} {out : List Transmission} {e : Option Error}
    (h : Outcomes inflight ms ms' out e) (hms : ∀ m ∈ ms, P m) : ∀ m ∈ ms', P m := by
  induction h with
  | nil => exact hms
  | cons hone _ ih =>
      obtain ⟨hm, hms⟩ := List.forall_mem_cons.mp hms
      exact List.forall_mem_cons.mpr ⟨hsent hone hm, ih hms⟩
  | stop hone =>
      obtain ⟨hm, hms⟩ := List.forall_mem_cons.mp hms
      exact List.forall_mem_cons.mpr ⟨hsent hone hm, hms⟩

theorem Response.stages_eq {response : Response} {request : Request}
    (h : response.stages = some request) :
    ∃ controlType packetId, request = .pubxxx controlType packetId ∧ controlType.IsPubxxx := by
  cases response with
  | publish message =>
      simp only [Response.stages] at h
      split at h
      · cases h
        exact ⟨_, _, rfl, .inl rfl⟩
      split at h
      · cases h
        exact ⟨_, _, rfl, .inr (.inl rfl)⟩
      · cases h
  | pubrec packetId =>
      cases h
      exact ⟨_, _, rfl, .inr (.inr (.inl rfl))⟩
  | pubrel packetId =>
      cases h
      exact ⟨_, _, rfl, .inr (.inr (.inr rfl))⟩
  | _ => cases h

theorem Response.stages_short {response : Response} {request : Request}
    (h : response.stages = some request) : request.Short := by
  obtain ⟨_, _, rfl, hack⟩ := Response.stages_eq h
  exact hack

theorem Micro.forall_messages {P : Message → Prop} (hkept : Kept P) {s s' : Session}
    (h : Micro s s') (hs : ∀ m ∈ s.client.mq.messages, P m) :
    ∀ m ∈ s'.client.mq.messages, P m := by
  cases h with
  | @pack c request packetId hprepared _ hshort _ =>
      have hmove : Client.Move Request.Short (fun _ _ => False) c
          (c.tryPack request packetId).1 :=
        Client.tryPack_move hshort packetId
      refine hmove.forall_messages hkept.new hkept.completed ?_
      rw [hprepared.mq]
      exact hs
  | fill _ => exact hs
  | @handle response n _ _ =>
      exact (Client.handle_moves s.client response).forall_messages
        (fun hstages => hkept.new (Response.stages_short hstages)) hkept.completed hs
  | fail _ _ => exact hs
  | send _ _ houtcomes => exact houtcomes.forall_messages hkept.sent hs

/-! ## A client can send what it has in its queue -/

theorem ControlType.IsPubxxx.isSent {t : ControlType} (h : t.IsPubxxx) : t.IsSent := by
  rcases h with rfl | rfl | rfl | rfl <;> decide

theorem Request.isSent {request : Request} (hshort : request.Short) :
    request.controlType.IsSent := by
  cases request with
  | connect args => exact (by decide : ControlType.connect.IsSent)
  | publish topicName packetId applicationMessage publishFlags =>
      exact (by decide : ControlType.publish.IsSent)
  | pubxxx controlType packetId => exact hshort.isSent
  | subscribe packetId subscriptions => exact (by decide : ControlType.subscribe.IsSent)
  | unsubscribe packetId topics => exact (by decide : ControlType.unsubscribe.IsSent)
  | pingreq => exact (by decide : ControlType.pingreq.IsSent)
  | disconnect => exact (by decide : ControlType.disconnect.IsSent)

theorem Outcome.status_eq {inflight : Bool} {m m' : Message} {out : List Transmission}
    {e : Option Error} (h : Outcome inflight m m' out e) :
    m'.tag.controlType = m.tag.controlType ∧ m'.tag.packetId = m.tag.packetId := by
  cases h <;> exact ⟨rfl, rfl⟩

theorem kept_isSent : Kept fun m => m.tag.controlType.IsSent where
  new := fun hshort _ => Request.isSent hshort
  completed := fun hm => hm
  sent := by
    intro inflight m m' out e h hm
    rw [h.status_eq.1]
    exact hm

/-- What holds all along for `__mqtt_send`: no packet is sent in part, and the client can send
every message in its queue. -/
structure Session.Sendable (s : Session) : Prop where
  sendOffset : s.client.sendOffset = 0
  isSent : ∀ m ∈ s.client.mq.messages, m.tag.controlType.IsSent

theorem Micro.sendable {s s' : Session} (h : Micro s s') (hs : s.Sendable) : s'.Sendable := by
  refine ⟨?_, h.forall_messages kept_isSent hs.isSent⟩
  cases h with
  | @pack c request packetId hprepared _ hshort _ =>
      have hmove : Client.Move Request.Short (fun _ _ => False) c
          (c.tryPack request packetId).1 :=
        Client.tryPack_move hshort packetId
      exact hmove.sameBut.sendOffset.trans (hprepared.sendOffset.trans hs.sendOffset)
  | fill _ => exact hs.sendOffset
  | @handle response n _ _ =>
      exact (Client.handle_moves s.client response).sameBut.sendOffset.trans hs.sendOffset
  | fail _ _ => exact hs.sendOffset
  | send _ hoffset _ => exact hoffset

theorem Micros.inv {I : Session → Prop} (hmicro : ∀ s s', Micro s s' → I s → I s')
    {s s' : Session} (h : Micros s s') (hs : I s) : I s' := by
  induction h with
  | refl => exact hs
  | tail _ hlast ih => exact hmicro _ _ hlast ih

theorem Micros.sendable {s s' : Session} (h : Micros s s') (hs : s.Sendable) : s'.Sendable :=
  h.inv (fun _ _ hmicro => hmicro.sendable) hs

/-! ## Calls -/

theorem Sent.micros {s : Session} {c : Client} {out : List Transmission} {ret : Option Error}
    (h : Sent s.client c out ret) :
    Micros s { s with client := c, transmissions := s.transmissions ++ out } := by
  cases h with
  | stopped hstopped => rw [List.append_nil]
  | failed hrunning hoffset houtcomes =>
      exact .single (.send hrunning hoffset houtcomes)
  | done hrunning hoffset houtcomes =>
      exact .single (.send hrunning hoffset houtcomes)
  | @ping t messages out c ret junk hrunning hoffset houtcomes hping =>
      have hsent : Micro s (s.sendsOut t messages out none) := .send hrunning hoffset houtcomes
      have hpack : Micro (s.sendsOut t messages out none)
          ((s.sendsOut t messages out none).packs .pingreq
            ((s.client.sent t messages).tryPack .pingreq junk)) :=
        .pack (.refl _) trivial trivial nofun
      have hret : (s.client.sent t messages).tryPack .pingreq junk = (c, ret) := hping
      rw [hret] at hpack
      simp only [Session.packs, Request.published, ite_self, List.append_nil] at hpack
      exact (ReflTransGen.single hsent).tail hpack

/-- The strings that a call is given are short. -/
def Call.Short : Call → Prop
  | .connect args _ => (Request.connect args).Short
  | .publish topicName applicationMessage _ =>
      packedCstrlen topicName < 2 ^ 16 ∧ Mqtt.Short applicationMessage
  | .subscribe topicName _ | .unsubscribe topicName => Mqtt.Short topicName
  | .ping _ | .disconnect _ | .recv _ | .send .. => True

instance : DecidablePred Call.Short
  | .connect args _ => inferInstanceAs (Decidable (Request.connect args).Short)
  | .publish .. => inferInstanceAs (Decidable (_ ∧ _))
  | .subscribe topicName _ | .unsubscribe topicName =>
      inferInstanceAs (Decidable (Mqtt.Short topicName))
  | .ping _ | .disconnect _ | .recv _ | .send .. => isTrue trivial

theorem Micro.returns {s : Session} {request : Request} {r : Client.Returns}
    (h : Micro s (s.packs request r)) (hother : request.published = []) :
    Micro s (s.returns r) := by
  simp only [Session.packs, hother, ite_self, List.append_nil] at h
  exact h

theorem micro_withPacketId {s : Session} {packetId : BitVec 16} (request : Request)
    (hpid : nextPid s.client.packetIds s.client.pidLfsr = some packetId)
    (htaken : request.taken = some packetId) (hown : request.IsOwn) (hshort : request.Short) :
    Micro s (s.packs request ({ s.client with pidLfsr := packetId }.tryPack request packetId)) := by
  refine .pack ⟨rfl, rfl, rfl, rfl, .inl rfl⟩ hown hshort ?_
  intro id hid
  obtain rfl := Option.some.inj (htaken.symm.trans hid)
  exact ⟨rfl, nextPid_fresh hpid⟩

/-- What `mqtt_connect` packs with. -/
def Client.connecting (client : Client) (args : ConnectArgs) : Client :=
  { client with
    keepAlive := args.keepAlive.toNat
    error := if client.error = some .connectNotCalled then none else client.error }

theorem Client.connect_eq (client : Client) (args : ConnectArgs) (junk : BitVec 16) :
    client.connect args junk = (client.connecting args).packArgs (.connect args) junk := by
  by_cases herror : client.error = some .connectNotCalled
  · simp only [Client.connect, Client.connecting, if_pos herror]
  · simp only [Client.connect, Client.connecting, if_neg herror]

theorem Client.connecting_prepared (client : Client) (args : ConnectArgs) :
    Prepared client (client.connecting args) := by
  refine ⟨rfl, rfl, rfl, rfl, ?_⟩
  by_cases herror : client.error = some .connectNotCalled
  · exact .inr ⟨herror, if_pos herror⟩
  · exact .inl (if_neg herror)

/-- **A call is a list of small steps.** -/
theorem step_micros {s s' : Session} {call : Call} (hshort : call.Short) (hs : s.Sendable)
    (h : s.step call = some s') : Micros s s' := by
  cases call with
  | connect args junk =>
      have hpack : Micro s (s.packs (.connect args)
          ((s.client.connecting args).tryPack (.connect args) junk)) :=
        .pack (s.client.connecting_prepared args) trivial hshort nofun
      obtain ⟨r, hr, rfl⟩ := Option.map_eq_some_iff.mp h
      rw [Client.connect_eq] at hr
      rw [Client.packArgs_eq_some hr]
      exact .single (hpack.returns rfl)
  | publish topicName applicationMessage publishFlags =>
      obtain ⟨packetId, hpid, h⟩ := Option.bind_eq_some_iff.mp h
      obtain ⟨r, hr, rfl⟩ := Option.map_eq_some_iff.mp h
      obtain ⟨packetId', hpid', rfl⟩ := Client.withPacketId_eq_some hr
      obtain rfl := Option.some.inj (hpid.symm.trans hpid')
      have hpack := micro_withPacketId
        (.publish topicName packetId applicationMessage publishFlags) hpid rfl trivial hshort
      refine .single ?_
      simp only [Session.packs, Request.published] at hpack
      split
      · rename_i hret
        rwa [if_pos hret] at hpack
      · rename_i hret
        rwa [if_neg hret, List.append_nil] at hpack
  | subscribe topicName maxQosLevel =>
      obtain ⟨r, hr, rfl⟩ := Option.map_eq_some_iff.mp h
      obtain ⟨packetId, hpid, rfl⟩ := Client.withPacketId_eq_some hr
      have hpack := micro_withPacketId (.subscribe packetId [(topicName, maxQosLevel)]) hpid rfl
        trivial (List.forall_mem_singleton.mpr hshort)
      exact .single (hpack.returns rfl)
  | unsubscribe topicName =>
      obtain ⟨r, hr, rfl⟩ := Option.map_eq_some_iff.mp h
      obtain ⟨packetId, hpid, rfl⟩ := Client.withPacketId_eq_some hr
      have hpack := micro_withPacketId (.unsubscribe packetId [topicName]) hpid rfl
        trivial (List.forall_mem_singleton.mpr hshort)
      exact .single (hpack.returns rfl)
  | ping junk =>
      have hpack : Micro s (s.packs .pingreq (s.client.ping junk)) :=
        .pack (.refl _) trivial trivial nofun
      cases h
      exact .single (hpack.returns rfl)
  | disconnect junk =>
      have hpack : Micro s (s.packs .disconnect (s.client.disconnect junk)) :=
        .pack (.refl _) trivial trivial nofun
      cases h
      exact .single (hpack.returns rfl)
  | recv recvs =>
      simp only [Session.step] at h
      split at h
      · cases h
      rename_i r hr
      split at h
      · cases h
      · cases h
        exact (Client.recv_receives hr).micros
  | send clock sends junk =>
      cases h
      exact (send_sent hs.isSent hs.sendOffset clock sends junk).micros

/-! ## Runs -/

/-- What every small step keeps, a run keeps. -/
theorem run_inv {I : Session → Prop} (hmicro : ∀ s s', Micro s s' → I s → I s')
    {calls : List Call} {s s' : Session} (hshort : ∀ call ∈ calls, call.Short) (hs : s.Sendable)
    (hI : I s) (hrun : s.run calls = some s') : I s' := by
  have hboth : s'.Sendable ∧ I s' := by
    refine Session.run_induct (I := fun s => s.Sendable ∧ I s) ?_ hshort ⟨hs, hI⟩ hrun
    rintro t call t' hcall ⟨hsend, ht⟩ hstep
    have hmicros := step_micros hcall hsend hstep
    exact ⟨hmicros.sendable hsend, hmicros.inv hmicro ht⟩
  exact hboth.2

/-- A session as it comes about: `mqtt_init`, or `mqtt_reinit` after another session of the client,
then `mqtt_connect`, as the mutex is not free before, and then any calls in any order, all with
strings and messages that are short enough for their length fields. -/
inductive Session.Reached (entrySize : Nat) : (sendbufsz recvbufsz : Nat) → Session → Prop where
  | first {sendbufsz recvbufsz keepAlive timeOfLastSend : Nat} {args : ConnectArgs}
      {junk : BitVec 16} {calls : List Call} {s : Session} :
      (∀ call ∈ Call.connect args junk :: calls, call.Short) →
      (Session.init (.init entrySize sendbufsz recvbufsz keepAlive timeOfLastSend)).run
        (.connect args junk :: calls) = some s →
        Reached entrySize sendbufsz recvbufsz s
  | again {sendbufsz recvbufsz sendbufsz' recvbufsz' : Nat} {before : Session}
      {args : ConnectArgs} {junk : BitVec 16} {calls : List Call} {s : Session} :
      Reached entrySize sendbufsz' recvbufsz' before →
      (∀ call ∈ Call.connect args junk :: calls, call.Short) →
      (Session.init (before.client.reinit entrySize sendbufsz recvbufsz)).run
        (.connect args junk :: calls) = some s →
        Reached entrySize sendbufsz recvbufsz s

/-- The client at the beginning of a session. -/
structure Client.Starts (entrySize sendbufsz recvbufsz : Nat) (client : Client) : Prop where
  error : client.error = some .connectNotCalled
  mq : client.mq = .init sendbufsz entrySize
  recvSize : client.recvSize = recvbufsz
  recvBuffer : client.recvBuffer = []
  sendOffset : client.sendOffset = 0

variable {entrySize sendbufsz recvbufsz : Nat} {s : Session} {client : Client}

theorem Client.Starts.messages (h : client.Starts entrySize sendbufsz recvbufsz) :
    client.mq.messages = [] := by
  rw [h.mq]
  rfl

theorem Client.Starts.forall_messages (h : client.Starts entrySize sendbufsz recvbufsz)
    {P : Message → Prop} : ∀ m ∈ client.mq.messages, P m := by
  rw [h.messages]
  exact List.forall_mem_nil _

theorem Client.Starts.sendable (h : client.Starts entrySize sendbufsz recvbufsz) :
    (Session.init client).Sendable :=
  ⟨h.sendOffset, h.forall_messages⟩

theorem Session.Reached.sendable (h : s.Reached entrySize sendbufsz recvbufsz) : s.Sendable := by
  induction h with
  | first hshort hrun =>
      exact run_inv (fun _ _ hmicro => hmicro.sendable) hshort ⟨rfl, List.forall_mem_nil _⟩
        ⟨rfl, List.forall_mem_nil _⟩ hrun
  | @again sendbufsz recvbufsz _ _ before _ _ _ _ _ hshort hrun ih =>
      have hstart : (Session.init (before.client.reinit entrySize sendbufsz recvbufsz)).Sendable :=
        ⟨ih.sendOffset, List.forall_mem_nil _⟩
      exact run_inv (fun _ _ hmicro => hmicro.sendable) hshort hstart hstart hrun

theorem Session.Reached.starts (h : s.Reached entrySize sendbufsz recvbufsz) :
    ∃ client calls, client.Starts entrySize sendbufsz recvbufsz ∧
      (∀ call ∈ calls, call.Short) ∧ (Session.init client).run calls = some s := by
  cases h with
  | first hshort hrun => exact ⟨_, _, ⟨rfl, rfl, rfl, rfl, rfl⟩, hshort, hrun⟩
  | @again _ _ _ _ before _ _ _ _ hbefore hshort hrun =>
      refine ⟨before.client.reinit entrySize sendbufsz recvbufsz, _, ?_, hshort, hrun⟩
      exact ⟨rfl, rfl, rfl, rfl, hbefore.sendable.sendOffset⟩

theorem Session.Reached.inv {I : Session → Prop}
    (h : s.Reached entrySize sendbufsz recvbufsz) (hmicro : ∀ s s', Micro s s' → I s → I s')
    (hinit : ∀ client, client.Starts entrySize sendbufsz recvbufsz → I (init client)) : I s := by
  obtain ⟨client, calls, hstarts, hshort, hrun⟩ := h.starts
  exact run_inv hmicro hshort hstarts.sendable (hinit client hstarts) hrun

theorem run_append {s : Session} (calls more : List Call) :
    s.run (calls ++ more) = (s.run calls).bind fun s => s.run more := by
  induction calls generalizing s with
  | nil => rfl
  | cons call calls ih =>
      simp only [List.cons_append, Session.run]
      cases s.step call with
      | none => rfl
      | some t => exact ih

theorem Session.Reached.run (h : s.Reached entrySize sendbufsz recvbufsz) {calls : List Call}
    {s' : Session} (hshort : ∀ call ∈ calls, call.Short) (hrun : s.run calls = some s') :
    s'.Reached entrySize sendbufsz recvbufsz := by
  have hmore : ∀ {t : Session} {first : List Call}, t.run first = some s →
      t.run (first ++ calls) = some s' := by
    intro t first hfirst
    rw [run_append, hfirst]
    exact hrun
  cases h with
  | first hbefore hfirst =>
      exact .first (List.forall_mem_append.mpr ⟨hbefore, hshort⟩) (hmore hfirst)
  | again hclient hbefore hfirst =>
      exact .again hclient (List.forall_mem_append.mpr ⟨hbefore, hshort⟩) (hmore hfirst)

theorem Session.Reached.step (h : s.Reached entrySize sendbufsz recvbufsz) {call : Call}
    {s' : Session} (hshort : call.Short) (hstep : s.step call = some s') :
    s'.Reached entrySize sendbufsz recvbufsz := by
  refine h.run (List.forall_mem_singleton.mpr hshort) ?_
  rw [Session.run, hstep]
  rfl

theorem Session.Reached.sync (h : s.Reached entrySize sendbufsz recvbufsz) {s' : Session}
    {recvs : List Recv} {clock : Nat → Nat} {sends : List Nat} {junk : BitVec 16}
    (hsync : s.sync recvs clock sends junk = some s') :
    s'.Reached entrySize sendbufsz recvbufsz := by
  simp only [Session.sync] at hsync
  split at hsync
  · cases hsync
  rename_i r hr
  have hreceived : ∀ e, r.ending = .returned e → (s.receives r).Reached entrySize sendbufsz
      recvbufsz := by
    intro e hending
    have hstep : s.step (.recv recvs) = some (s.receives r) := by
      simp only [Session.step, hr, hending]
    exact h.step (show Call.Short (.recv recvs) from trivial) hstep
  split at hsync
  · cases hsync
  · rename_i hending
    cases hsync
    exact hreceived _ hending
  · rename_i hending
    exact (hreceived _ hending).step (show Call.Short (.send clock sends junk) from trivial) hsync

/-! ## The programs -/

/-- The call of `mqtt_connect` in the four mains. -/
def mainConnect : Call :=
  .connect
    { clientId := none, willTopic := none, willMessage := none, userName := none, password := none
      connectFlags := connectCleanSession, keepAlive := 400 } 0

/-- A session with the buffers of the four mains, after `mqtt_connect` and these calls.  The header
of a queued message takes 40 bytes. -/
def mainRun (calls : List Call) : Option Session :=
  (Session.init (.init 40 2048 1024 0 0)).run (mainConnect :: calls)

theorem reached_mainRun {calls : List Call} (hshort : ∀ call ∈ calls, call.Short) {s : Session}
    (h : mainRun calls = some s) : s.Reached 40 2048 1024 :=
  .first (List.forall_mem_cons.mpr ⟨(by decide : mainConnect.Short), hshort⟩) h

/-- What is known of a run when it has been computed. -/
theorem exists_mainRun (calls : List Call) (P : Session → Prop) [DecidablePred P]
    (hshort : ∀ call ∈ calls, call.Short) (h : (mainRun calls).any (fun s => P s) = true) :
    ∃ s, mainRun calls = some s ∧ s.Reached 40 2048 1024 ∧ P s := by
  obtain ⟨s, hs, hP⟩ := (Option.any_eq_true ..).mp h
  exact ⟨s, hs, reached_mainRun hshort hs, of_decide_eq_true hP⟩

end SmartHome.Mqtt
