/-
# `Mqtt.SendBuffer` — the block that the calls work on

A call changes the queue by operations on the block in `sendbuf`: a packet and its header are
registered, the complete messages at the head are cleaned away, a header is assigned to, the DUP
flag is set in a packet.  The functions here say, in the order of the code, which operations each of
them performs.  Performed on the block one after another, they leave there what the list of
messages of the session says (`send_buffer_holds`).
-/
import SmartHome.Mqtt.Outgoing

namespace SmartHome.Mqtt

open Entries Arena

/-! ## Which operations a call performs -/

def registerOps (request : Request) (packetId : BitVec 16) : Packed → List QueueOp
  | .failed _ | .full _ => []
  | .wrote bytes =>
      [.register bytes
        { state := .unsent, timeSent := 0, controlType := request.controlType, packetId }]

namespace Client

def tryPackOps (client : Client) (request : Request) (packetId : BitVec 16) : List QueueOp :=
  match client.error with
  | some _ => []
  | none =>
      match request.pack client.mq.currSz with
      | .full _ => .clean :: registerOps request packetId (request.pack client.mq.clean.currSz)
      | packed => registerOps request packetId packed

def connectOps (client : Client) (args : ConnectArgs) (junk : BitVec 16) : List QueueOp :=
  (client.connecting args).tryPackOps (.connect args) junk

def withPacketIdOps (client : Client) (request : BitVec 16 → Request) : List QueueOp :=
  match nextPid client.packetIds client.pidLfsr with
  | none => []
  | some packetId => client.tryPackOps (request packetId) packetId

/-- An acknowledgement finds its message, and `msg->state` is set. -/
def releaseOps (client : Client) (controlType : ControlType) (packetId : Option (BitVec 16)) :
    List QueueOp :=
  match client.mq.find controlType packetId with
  | none => []
  | some i => [.update i fun status => { status with state := .complete }]

def acknowledgeOps (client : Client) (controlType : ControlType) (packetId : BitVec 16) :
    List QueueOp :=
  client.tryPackOps (.pubxxx controlType packetId) packetId

/-- Behind a call that has returned. -/
def andThenOps (r : Returns) (next : Client → List QueueOp) : List QueueOp :=
  match r with
  | (_, some _) => []
  | (client, none) => next client

/-- The `switch` of `__mqtt_recv`. -/
def handleOps (client : Client) : Response → List QueueOp
  | .connack .. => client.releaseOps .connect none
  | .publish publish =>
      let packetId := publish.packetId.getD 0
      if publish.qosLevel = 1 then
        client.acknowledgeOps .puback packetId
      else if publish.qosLevel = 2 then
        if client.mq.find .pubrec (some packetId) ≠ none then
          []
        else
          client.acknowledgeOps .pubrec packetId
      else
        []
  | .puback packetId => client.releaseOps .publish (some packetId)
  | .pubrec packetId =>
      if client.mq.find .pubrel (some packetId) ≠ none then
        []
      else
        client.releaseOps .publish (some packetId) ++
          andThenOps (client.release .publish (some packetId)) fun client =>
            client.acknowledgeOps .pubrel packetId
  | .pubrel packetId =>
      client.releaseOps .pubrec (some packetId) ++
        andThenOps (client.release .pubrec (some packetId)) fun client =>
          client.acknowledgeOps .pubcomp packetId
  | .pubcomp packetId => client.releaseOps .pubrel (some packetId)
  | .suback packetId _ => client.releaseOps .subscribe (some packetId)
  | .unsuback packetId => client.releaseOps .unsubscribe (some packetId)
  | .pingresp => client.releaseOps .pingreq none

/-- The loop of `__mqtt_recv`. -/
def recvLoopOps : (fuel : Nat) → Client → List Recv → List QueueOp
  | 0, _, _ => []
  | fuel + 1, client, rets =>
      match recvall rets (client.recvSize - client.recvBuffer.length) with
      | (_, false, _) => []
      | (taken, true, rets) =>
          let client := { client with recvBuffer := client.recvBuffer ++ taken }
          match unpackResponse client.recvBuffer with
          | .failed _ | .more => []
          | .frame response consumed =>
              if client.recvBuffer.length < consumed then
                []
              else
                client.handleOps response ++ andThenOps (client.handle response).1 fun client =>
                  recvLoopOps fuel
                    { client with recvBuffer := client.recvBuffer.drop consumed } rets

def recvOps (client : Client) (rets : List Recv) : List QueueOp :=
  client.recvLoopOps (client.recvBuffer.length + (pending rets).length + 1) rets

end Client

/-- What is written for a message that has been sent: `msg->time_sent`, `msg->state` and the DUP
flag. -/
def sentOps (now i : Nat) (m : Message) : List QueueOp :=
  .update i (fun status => { status with timeSent := now }) ::
    match sentState m with
    | none => []
    | some (_, state) =>
        .update i (fun status => { status with state }) ::
          if m.tag.controlType = .publish ∧ inspectedQos (m.bytes.getD 0 0) = 1 then
            [.orFirst i publishDup]
          else
            []

def transmitOps (clock : Nat → Nat) (s : Sending) (i : Nat) (m : Message) : List QueueOp :=
  let (sent, ok, _) := sendall s.rets (m.bytes.drop s.sendOffset)
  if ok = false then
    []
  else if s.sendOffset + sent.length < m.bytes.length then
    []
  else
    sentOps (clock s.readings) i m

/-- The body of the loop in `__mqtt_send`, for message `i`. -/
def sendMessageOps (clock : Nat → Nat) (responseTimeout : Nat) (s : Sending) (i : Nat)
    (m : Message) : List QueueOp :=
  let timedOut := decide (Message.TimedOut m responseTimeout (clock s.readings))
  let held := Message.Inflight m ∧ s.inflightQos2 = true
  if (m.tag.state = .unsent ∨ timedOut) ∧ ¬ held then
    transmitOps clock (s.watch m timedOut) i m
  else
    []

/-- The loop in `__mqtt_send`, from message `i` on. -/
def sendMessagesOps (clock : Nat → Nat) (responseTimeout : Nat) (s : Sending) (i : Nat) :
    List Message → List QueueOp
  | [] => []
  | m :: ms =>
      sendMessageOps clock responseTimeout s i m ++
        match sendMessage clock responseTimeout s m with
        | (s, _, _, .continue) => sendMessagesOps clock responseTimeout s (i + 1) ms
        | _ => []

def Client.sendOps (client : Client) (clock : Nat → Nat) (rets : List Nat) (junk : BitVec 16) :
    List QueueOp :=
  if client.Stopped then
    []
  else
    sendMessagesOps clock client.responseTimeout (client.sending rets) 0 client.mq.messages ++
      match sendMessages clock client.responseTimeout (client.sending rets)
          client.mq.messages with
      | (_, _, _, .return _) => []
      | (s, messages, _, _) =>
          let client := client.sent s messages
          if client.timeOfLastSend + client.keepAlive * 3 / 4 < clock s.readings then
            client.tryPackOps .pingreq junk
          else
            []

namespace Session

def stepOps (s : Session) : Call → List QueueOp
  | .connect args junk => s.client.connectOps args junk
  | .publish topicName applicationMessage publishFlags =>
      s.client.withPacketIdOps fun packetId =>
        .publish topicName packetId applicationMessage publishFlags
  | .subscribe topicName maxQosLevel =>
      s.client.withPacketIdOps fun packetId => .subscribe packetId [(topicName, maxQosLevel)]
  | .unsubscribe topicName =>
      s.client.withPacketIdOps fun packetId => .unsubscribe packetId [topicName]
  | .ping junk => s.client.tryPackOps .pingreq junk
  | .disconnect junk => s.client.tryPackOps .disconnect junk
  | .recv recvs => s.client.recvOps recvs
  | .send clock sends junk => s.client.sendOps clock sends junk

def runOps (s : Session) : List Call → List QueueOp
  | [] => []
  | call :: calls =>
      s.stepOps call ++
        match s.step call with
        | none => []
        | some s => s.runOps calls

end Session

/-! ## The operations lead from queue to queue -/

namespace Queue

variable {mq mq' mq'' : Queue} {ops ops' : List QueueOp}

theorem run_append (h : mq.run ops = some mq') (h' : mq'.run ops' = some mq'') :
    mq.run (ops ++ ops') = some mq'' := by
  induction ops generalizing mq with
  | nil =>
      cases h
      exact h'
  | cons op ops ih =>
      obtain ⟨mq₁, hop, hops⟩ := Option.bind_eq_some_iff.mp h
      rw [List.cons_append, Queue.run, hop]
      exact ih hops

end Queue

theorem run_registerOps {client : Client} {request : Request} (hshort : request.Short)
    (packetId : BitVec 16) :
    client.mq.run (registerOps request packetId (request.pack client.mq.currSz)) =
      some (client.finishPack request packetId (request.pack client.mq.currSz)).1.mq := by
  cases hpack : request.pack client.mq.currSz with
  | failed e => rfl
  | full written => rfl
  | wrote bytes =>
      obtain ⟨hroom, hformed⟩ := Request.isPacket hshort hpack
      rw [registerOps, Queue.run, Queue.apply, if_pos ⟨hformed.length_pos, hroom⟩]
      rfl

namespace Client

variable {client : Client}

theorem run_tryPackOps {request : Request} (hshort : request.Short) (packetId : BitVec 16) :
    client.mq.run (client.tryPackOps request packetId) =
      some (client.tryPack request packetId).1.mq := by
  cases herror : client.error with
  | some e =>
      rw [tryPack_of_error herror]
      simp only [tryPackOps, herror]
      rfl
  | none =>
      by_cases hfull : (request.pack client.mq.currSz).IsFull
      · rw [tryPack_of_isFull herror hfull]
        cases hpack : request.pack client.mq.currSz with
        | full written =>
            simp only [tryPackOps, herror, hpack]
            exact @run_registerOps { client with mq := client.mq.clean, error := none } _ hshort
              packetId
        | _ =>
            rw [hpack] at hfull
            exact hfull.elim
      · rw [tryPack_of_not_isFull herror hfull, ← run_registerOps hshort packetId]
        cases hpack : request.pack client.mq.currSz with
        | full written =>
            rw [hpack] at hfull
            exact absurd trivial hfull
        | _ => simp only [tryPackOps, herror, hpack]

theorem run_releaseOps (controlType : ControlType) (packetId : Option (BitVec 16)) :
    client.mq.run (client.releaseOps controlType packetId) =
      some (client.release controlType packetId).1.mq := by
  unfold releaseOps release
  cases client.mq.find controlType packetId with
  | none => rfl
  | some i => rfl

theorem run_acknowledgeOps {controlType : ControlType} (hack : controlType.IsPubxxx)
    (packetId : BitVec 16) :
    client.mq.run (client.acknowledgeOps controlType packetId) =
      some (keepError (client.acknowledge controlType packetId)).1.mq := by
  have hshort : (Request.pubxxx controlType packetId).Short := hack
  rw [keepError_mq]
  exact run_tryPackOps hshort packetId

theorem run_andThenOps {mq : Queue} {r : Returns} {ops : List QueueOp}
    {more : Client → List QueueOp} {next : Client → Returns} (hr : mq.run ops = some r.1.mq)
    (hnext : ∀ c, c.mq.run (more c) = some (next c).1.mq) :
    mq.run (ops ++ andThenOps r more) = some (andThen r next).1.mq := by
  obtain ⟨c, ret⟩ := r
  refine Queue.run_append hr ?_
  cases ret with
  | none => exact hnext c
  | some e => rfl

theorem andThen_mq {r : Returns} {next : Client → Returns} (hnext : ∀ c, (next c).1.mq = c.mq) :
    (andThen r next).1.mq = r.1.mq := by
  obtain ⟨c, ret⟩ := r
  cases ret with
  | none => exact hnext c
  | some e => rfl

theorem run_handleOps (response : Response) :
    client.mq.run (client.handleOps response) = some (client.handle response).1.1.mq := by
  cases response with
  | connack sessionPresentFlag returnCode =>
      refine (run_releaseOps .connect none).trans (congrArg some (andThen_mq fun c => ?_).symm)
      split
      · rfl
      split <;> rfl
  | publish message =>
      simp only [handleOps, handle]
      split
      · exact run_acknowledgeOps (by decide) _
      split
      · split
        · rfl
        · exact run_acknowledgeOps (by decide) _
      · rfl
  | puback packetId => exact run_releaseOps _ _
  | pubrec packetId =>
      simp only [handleOps, handle]
      split
      · rfl
      · exact run_andThenOps (run_releaseOps _ _) fun c => run_acknowledgeOps (by decide) packetId
  | pubrel packetId =>
      exact run_andThenOps (run_releaseOps _ _) fun c => run_acknowledgeOps (by decide) packetId
  | pubcomp packetId => exact run_releaseOps _ _
  | suback packetId returnCodes =>
      refine (run_releaseOps .subscribe (some packetId)).trans
        (congrArg some (andThen_mq fun c => ?_).symm)
      split <;> rfl
  | unsuback packetId => exact run_releaseOps _ _
  | pingresp => exact run_releaseOps _ _

theorem run_recvLoopOps {fuel : Nat} {rets : List Recv} {r : Received}
    (h : client.recvLoop fuel rets = some r) :
    client.mq.run (client.recvLoopOps fuel rets) = some r.client.mq := by
  induction fuel generalizing client rets r with
  | zero => cases h
  | succ fuel ih =>
      simp only [recvLoop] at h
      simp only [recvLoopOps]
      cases hrecv : recvall rets (client.recvSize - client.recvBuffer.length) with
      | mk taken tail =>
          obtain ⟨_ | _, rets'⟩ := tail
          · simp only [hrecv] at h ⊢
            cases h
            rfl
          simp only [hrecv] at h ⊢
          cases hscan : unpackResponse (client.recvBuffer ++ taken) with
          | failed e =>
              simp only [hscan] at h ⊢
              cases h
              rfl
          | more =>
              simp only [hscan] at h ⊢
              split at h <;> cases h <;> rfl
          | frame response n =>
              simp only [hscan] at h ⊢
              by_cases hover : (client.recvBuffer ++ taken).length < n
              · rw [if_pos hover] at h ⊢
                cases h
                rfl
              rw [if_neg hover] at h ⊢
              have hhandled := @run_handleOps (client.filled taken) response
              refine Queue.run_append hhandled ?_
              cases hhandle : (client.filled taken).handle response with
              | mk ret delivered =>
                  obtain ⟨c, ret⟩ := ret
                  simp only [filled] at hhandle ⊢
                  rw [hhandle] at h ⊢
                  cases ret with
                  | some e =>
                      cases h
                      rfl
                  | none =>
                      obtain ⟨r', hr', rfl⟩ := Option.map_eq_some_iff.mp h
                      exact ih hr'

end Client

/-! ## The loop over the queue -/

section

variable {clock : Nat → Nat} {responseTimeout : Nat} {s : Sending} {m : Message}
  (memSize entrySize : Nat) (before after : List Message)

theorem run_update (f : Status → Status) (ops : List QueueOp) :
    Queue.run ⟨memSize, entrySize, before ++ m :: after⟩ (.update before.length f :: ops) =
      Queue.run ⟨memSize, entrySize, before ++ { m with tag := f m.tag } :: after⟩ ops := by
  rw [Queue.run, Queue.apply, Option.bind_some, Queue.update, modify_append_length]

theorem run_orFirst (flags : Byte) :
    Queue.run ⟨memSize, entrySize, before ++ m :: after⟩ [.orFirst before.length flags] =
      some ⟨memSize, entrySize,
        before ++ { m with bytes := m.bytes.modify 0 (· ||| flags) } :: after⟩ := by
  rw [Queue.run, Queue.apply, Option.bind_some, Queue.orFirst, modify_append_length]
  rfl

theorem run_transmitOps :
    Queue.run ⟨memSize, entrySize, before ++ m :: after⟩ (transmitOps clock s before.length m) =
      some ⟨memSize, entrySize, before ++ (transmit clock s m).2.1 :: after⟩ := by
  simp only [transmitOps, transmit]
  cases hsend : sendall s.rets (m.bytes.drop s.sendOffset) with
  | mk sent tail =>
      obtain ⟨ok, rets⟩ := tail
      cases ok with
      | false => rfl
      | true =>
          simp only [Bool.true_eq_false, if_false]
          by_cases hpart : s.sendOffset + sent.length < m.bytes.length
          · simp only [if_pos hpart]
            rfl
          simp only [if_neg hpart]
          rw [sentOps, run_update]
          cases hstate : sentState m with
          | none => rfl
          | some after' =>
              obtain ⟨bytes, state⟩ := after'
              simp only
              rw [run_update, sentState_bytes hstate]
              split
              · exact run_orFirst ..
              · rfl

theorem run_sendMessageOps :
    Queue.run ⟨memSize, entrySize, before ++ m :: after⟩
        (sendMessageOps clock responseTimeout s before.length m) =
      some ⟨memSize, entrySize,
        before ++ (sendMessage clock responseTimeout s m).2.1 :: after⟩ := by
  simp only [sendMessageOps, sendMessage]
  split
  · exact run_transmitOps ..
  · rfl

theorem run_sendMessagesOps (ms : List Message) :
    Queue.run ⟨memSize, entrySize, before ++ ms⟩
        (sendMessagesOps clock responseTimeout s before.length ms) =
      some ⟨memSize, entrySize, before ++ (sendMessages clock responseTimeout s ms).2.1⟩ := by
  induction ms generalizing s before with
  | nil => rfl
  | cons m ms ih =>
      refine Queue.run_append (run_sendMessageOps memSize entrySize before ms) ?_
      simp only [sendMessages]
      cases hone : sendMessage clock responseTimeout s m with
      | mk s' tail =>
          obtain ⟨m', out, _ | _ | e⟩ := tail
          · have hrest := @ih s' (before ++ [m'])
            simp only [List.length_append, List.length_singleton, List.append_assoc,
              List.singleton_append] at hrest
            exact hrest
          · rfl
          · rfl

end

/-! ## The calls -/

namespace Client

variable {client : Client}

theorem run_sendOps (clock : Nat → Nat) (rets : List Nat) (junk : BitVec 16) :
    client.mq.run (client.sendOps clock rets junk) =
      some (client.send clock rets junk).1.mq := by
  have hshort : Request.pingreq.Short := trivial
  simp only [sendOps, send]
  split
  · rfl
  have hloop := @run_sendMessagesOps clock client.responseTimeout (client.sending rets)
    client.mq.memSize client.mq.entrySize [] client.mq.messages
  refine Queue.run_append hloop ?_
  cases hsend : sendMessages clock client.responseTimeout (client.sending rets)
      client.mq.messages with
  | mk s tail =>
      obtain ⟨ms, out, _ | _ | e⟩ := tail
      rotate_left 2
      · rfl
      -- the loop has gone on to its end, or has broken off
      all_goals
        dsimp only
        split
        · cases hping : (client.sent s ms).ping junk with
          | mk c ret =>
              have hpinged := @run_tryPackOps (client.sent s ms) .pingreq hshort junk
              rw [← ping, hping] at hpinged
              cases ret <;> exact hpinged
        · rfl

theorem run_connectOps {args : ConnectArgs} {junk : BitVec 16} {r : Returns}
    (hshort : (Request.connect args).Short) (h : client.connect args junk = some r) :
    client.mq.run (client.connectOps args junk) = some r.1.mq := by
  rw [connect_eq] at h
  obtain rfl := packArgs_eq_some h
  exact @run_tryPackOps (client.connecting args) _ hshort junk

theorem run_withPacketIdOps {request : BitVec 16 → Request} {r : Returns}
    (hshort : ∀ packetId, (request packetId).Short)
    (h : client.withPacketId (fun client packetId => client.packArgs (request packetId) packetId) =
      some r) :
    client.mq.run (client.withPacketIdOps request) = some r.1.mq := by
  obtain ⟨packetId, hpid, rfl⟩ := withPacketId_eq_some h
  simp only [withPacketIdOps, hpid]
  exact @run_tryPackOps { client with pidLfsr := packetId } _ (hshort packetId) packetId

end Client

/-- **A call performs its operations.** -/
theorem run_stepOps {s s' : Session} {call : Call} (hshort : call.Short)
    (h : s.step call = some s') : s.client.mq.run (s.stepOps call) = some s'.client.mq := by
  cases call with
  | connect args junk =>
      obtain ⟨r, hr, rfl⟩ := Option.map_eq_some_iff.mp h
      exact Client.run_connectOps hshort hr
  | publish topicName applicationMessage publishFlags =>
      obtain ⟨_, -, h⟩ := Option.bind_eq_some_iff.mp h
      obtain ⟨r, hr, rfl⟩ := Option.map_eq_some_iff.mp h
      have hpublish : ∀ packetId,
          (Request.publish topicName packetId applicationMessage publishFlags).Short :=
        fun _ => hshort
      refine (Client.run_withPacketIdOps hpublish hr).trans ?_
      split <;> rfl
  | subscribe topicName maxQosLevel =>
      obtain ⟨r, hr, rfl⟩ := Option.map_eq_some_iff.mp h
      exact Client.run_withPacketIdOps (fun _ => List.forall_mem_singleton.mpr hshort) hr
  | unsubscribe topicName =>
      obtain ⟨r, hr, rfl⟩ := Option.map_eq_some_iff.mp h
      exact Client.run_withPacketIdOps (fun _ => List.forall_mem_singleton.mpr hshort) hr
  | ping junk =>
      cases h
      exact Client.run_tryPackOps (show Request.pingreq.Short from trivial) junk
  | disconnect junk =>
      cases h
      exact Client.run_tryPackOps (show Request.disconnect.Short from trivial) junk
  | recv recvs =>
      simp only [Session.step] at h
      split at h
      · cases h
      rename_i r hr
      split at h
      · cases h
      · cases h
        exact Client.run_recvLoopOps hr
  | send clock sends junk =>
      cases h
      exact Client.run_sendOps clock sends junk

theorem run_runOps {s s' : Session} {calls : List Call} (hshort : ∀ call ∈ calls, call.Short)
    (h : s.run calls = some s') : s.client.mq.run (s.runOps calls) = some s'.client.mq := by
  induction calls generalizing s with
  | nil =>
      cases h
      rfl
  | cons call calls ih =>
      obtain ⟨hcall, hcalls⟩ := List.forall_mem_cons.mp hshort
      obtain ⟨t, ht, hrest⟩ := Option.bind_eq_some_iff.mp h
      simp only [Session.runOps, ht]
      exact Queue.run_append (run_stepOps hcall ht) (ih hcalls hrest)

/-! ## The block -/

variable {entrySize sendbufsz recvbufsz : Nat} {s : Session}

theorem block_tracks {client : Client} {calls : List Call}
    (hfresh : client.mq = .init sendbufsz entrySize) (hshort : ∀ call ∈ calls, call.Short)
    (hrun : (Session.init client).run calls = some s) :
    ∃ mq, (MessageQueue.init sendbufsz entrySize).run ((Session.init client).runOps calls) =
        some mq ∧ Tracks sendbufsz entrySize mq s.client.mq := by
  have hlist := run_runOps hshort hrun
  rw [show (Session.init client).client.mq = .init sendbufsz entrySize from hfresh] at hlist
  have hrel := run_tracks (.init sendbufsz entrySize) ((Session.init client).runOps calls)
  rw [hlist] at hrel
  exact exists_of_rel hrel

/-- **The send buffer.** The operations that the calls of a session perform go through on the block
in `sendbuf`, and leave a block there that stands for the queue of the session: it has the same
packets and headers, the same free space, the same message is found in it, and the packets end
before the headers begin. -/
theorem send_buffer_holds {client : Client} {calls : List Call}
    (hfresh : client.mq = .init sendbufsz entrySize) (hshort : ∀ call ∈ calls, call.Short)
    (hrun : (Session.init client).run calls = some s) :
    ∃ mq, (MessageQueue.init sendbufsz entrySize).run ((Session.init client).runOps calls) =
        some mq ∧
      contents mq.mem mq.entries = s.client.mq.messages ∧ mq.currSz = s.client.mq.currSz ∧
      (∀ controlType packetId, mq.find controlType packetId =
        s.client.mq.find controlType packetId) ∧
      mq.mem.length + entrySize * mq.entries.length ≤ sendbufsz := by
  obtain ⟨mq, hmq, hholds, -, rfl, rfl⟩ := block_tracks hfresh hshort hrun
  exact ⟨mq, hmq, hholds.messages, hholds.currSz, hholds.find, hholds.room⟩

/-- A queue that is cleaned before a publish, which is then sent. -/
def cleanedCalls : List Call :=
  [mainConnect, .send (fun _ => 0) [100] 0, .recv [.data [0x20, 2, 0, 0]],
    .publish [0x61, 0x62] [0x78] 2, .send (fun _ => 0) [100] 0]

theorem send_buffer_holds_cleaned :
    ∃ s mq, (Session.init (.init 40 80 64 0 0)).run cleanedCalls = some s ∧
      s.client.mq.messages.map (fun m => m.bytes) =
        [[0x3a, 7, 0, 2, 0x61, 0x62, 0xb4, 0x51, 0x78]] ∧
      (MessageQueue.init 80 40).run
        ((Session.init (.init 40 80 64 0 0)).runOps cleanedCalls) = some mq ∧
      contents mq.mem mq.entries = s.client.mq.messages ∧ mq.currSz = s.client.mq.currSz ∧
      (∀ controlType packetId, mq.find controlType packetId =
        s.client.mq.find controlType packetId) ∧
      mq.mem.length + 40 * mq.entries.length ≤ 80 := by
  have hcomputed : ((Session.init (.init 40 80 64 0 0)).run cleanedCalls).any
      (fun s => decide (s.client.mq.messages.map (fun m => m.bytes) =
        [[0x3a, 7, 0, 2, 0x61, 0x62, 0xb4, 0x51, 0x78]])) = true := by decide +kernel
  obtain ⟨s, hrun, hmessages⟩ := (Option.any_eq_true ..).mp hcomputed
  obtain ⟨mq, hmq⟩ := send_buffer_holds rfl (by decide) hrun
  exact ⟨s, mq, hrun, of_decide_eq_true hmessages, hmq⟩

theorem Session.Reached.tracks (h : s.Reached entrySize sendbufsz recvbufsz) :
    ∃ mq, Tracks sendbufsz entrySize mq s.client.mq := by
  obtain ⟨client, calls, hstarts, hshort, hrun⟩ := h.starts
  obtain ⟨mq, -, htracks⟩ := block_tracks hstarts.mq hshort hrun
  exact ⟨mq, htracks⟩

theorem Session.Reached.size (h : s.Reached entrySize sendbufsz recvbufsz) :
    s.client.mq.memSize = sendbufsz ∧ s.client.mq.entrySize = entrySize := by
  obtain ⟨mq, hholds, -, rfl, rfl⟩ := h.tracks
  exact ⟨hholds.memSize.symm, hholds.entrySize.symm⟩

theorem Session.Reached.room (h : s.Reached entrySize sendbufsz recvbufsz) :
    used s.client.mq.messages + entrySize * s.client.mq.messages.length ≤ sendbufsz := by
  obtain ⟨mq, hholds, -, rfl, rfl⟩ := h.tracks
  have hused := hholds.laid.used (Nat.le_refl _)
  have hroom := hholds.room
  rw [hholds.messages, Nat.zero_add] at hused
  rwa [← hused, hholds.length] at hroom

end SmartHome.Mqtt
