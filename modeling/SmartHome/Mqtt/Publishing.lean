/-
# `Mqtt.Publishing` — from `mqtt_publish` to the wire

All programs publish at quality of service 0, where a packet is sent once and no answer comes.
The accepted publishes of a session are then the ones on the wire followed by the ones in the
queue, in the order of the calls (`publishes_in_order`), and after `__mqtt_send` without an error
none is left in the queue (`publishes_sent`).
-/
import SmartHome.Mqtt.Outgoing

namespace SmartHome.Mqtt

open Entries

/-! ## Publishes at quality of service 0 -/

def Packet.AtMostOnce (p : Packet) : Prop := p.controlType = .publish ∧ p.qos = 0

instance (p : Packet) : Decidable p.AtMostOnce := inferInstanceAs (Decidable (_ ∧ _))

/-- The bytes are the packet that `mqtt_publish` writes. -/
def Publish.Writes (p : Publish) (bytes : List Byte) : Prop :=
  ∃ bufsz, packPublishRequest bufsz p.topicName p.packetId p.applicationMessage p.publishFlags =
    .wrote bytes

def Publish.qos (p : Publish) : Byte := inspectedQos p.publishFlags

def Publish.Short (p : Publish) : Prop :=
  packedCstrlen p.topicName < 2 ^ 16 ∧ Mqtt.Short p.applicationMessage

instance (p : Publish) : Decidable p.Short := inferInstanceAs (Decidable (_ ∧ _))

/-- The accepted publishes that are sent once. -/
def Session.published0 (s : Session) : List Publish := s.published.filter fun p => p.qos = 0

def wire0 (transmissions : List Transmission) : List Packet :=
  (whole transmissions).filter fun p => p.AtMostOnce

/-- A message that holds one of them and has not been sent. -/
def Message.Waits (m : Message) : Prop :=
  m.tag.state = .unsent ∧ (Message.packet m).AtMostOnce

instance (m : Message) : Decidable (Message.Waits m) := inferInstanceAs (Decidable (_ ∧ _))

def waiting (messages : List Message) : List Message := messages.filter fun m => Message.Waits m

theorem waiting_cons (m : Message) (ms : List Message) :
    waiting (m :: ms) = (if Message.Waits m then [m] else []) ++ waiting ms := by
  by_cases hwaits : Message.Waits m
  · rw [if_pos hwaits]
    exact List.filter_cons_of_pos (p := fun m => decide (Message.Waits m)) (decide_eq_true hwaits)
  · rw [if_neg hwaits]
    exact List.filter_cons_of_neg (p := fun m => decide (Message.Waits m)) (by simpa using hwaits)

theorem waiting_clean (mq : Queue) : waiting mq.clean.messages = waiting mq.messages := by
  apply filter_dropWhile
  intro m hm
  have hcomplete : m.tag.state = .complete := of_decide_eq_true hm
  exact decide_eq_false fun hwaits => nomatch hwaits.1.symm.trans hcomplete

theorem waiting_of_cleaned {mq mq' : Queue} (h : Client.Cleaned mq mq') :
    waiting mq'.messages = waiting mq.messages := by
  rcases h with rfl | rfl
  · rfl
  · exact waiting_clean mq

theorem waiting_register (mq : Queue) (bytes : List Byte) (status : Status) :
    waiting (mq.register bytes status).messages =
      waiting mq.messages ++ if Message.Waits ⟨bytes, status⟩ then [⟨bytes, status⟩] else [] := by
  rw [waiting, Queue.register, List.filter_append, List.filter_singleton]
  congr 1
  by_cases hwaits : Message.Waits ⟨bytes, status⟩
  · rw [if_pos hwaits, decide_eq_true hwaits]
    rfl
  · rw [if_neg hwaits, decide_eq_false hwaits]
    rfl

/-- A response leaves the waiting publishes alone, unless it acknowledges one of them. -/
theorem waiting_of_moves {response : Response} {c c' : Client}
    (h : Client.HandleMoves response c c')
    (hack : ∀ id, response.answers = some (.publish, some id) →
      ∀ m ∈ waiting c.mq.messages, m.tag.packetId ≠ id) :
    waiting c'.mq.messages = waiting c.mq.messages := by
  induction h with
  | refl => rfl
  | @tail d d' _ hmove ih =>
      refine Eq.trans ?_ ih
      cases hmove with
      | fail hmq _ => exact waiting_of_cleaned hmq
      | @register mq request bytes packetId hstages _ hmq _ =>
          show waiting (mq.register bytes _).messages = _
          rw [waiting_register, waiting_of_cleaned hmq, if_neg, List.append_nil]
          rintro ⟨-, htype, -⟩
          obtain ⟨t, id, rfl, hpubxxx⟩ := Response.stages_eq hstages
          obtain rfl : t = .publish := htype
          exact absurd hpubxxx (by decide)
      | @release controlType packetId i hanswers hfind =>
          apply filter_modify
          intro m hm
          refine ⟨decide_eq_false ?_, decide_eq_false fun hwaits => nomatch hwaits.1⟩
          intro hwaits
          obtain ⟨htype, hid⟩ := Queue.matches_of_find hfind hm
          obtain rfl : controlType = .publish := htype.symm.trans hwaits.2.1
          obtain ⟨id, rfl⟩ := Response.answers_of_hasId hanswers (by decide)
          have hsame : m.tag.packetId = id := by
            rcases hid with ⟨hnone, -⟩ | hsome
            · cases hnone
            · exact (Option.some.inj hsome).symm
          refine hack id hanswers m ?_ hsame
          rw [← ih]
          exact List.mem_filter.mpr ⟨List.mem_of_getElem? hm, decide_eq_true hwaits⟩

/-! ## The loop of `__mqtt_send` -/

/-- A packet that is sent once is not waited for an answer to. -/
def Message.Once (m : Message) : Prop :=
  (Message.packet m).WellFormed ∧ ((Message.packet m).AtMostOnce → m.tag.state ≠ .awaitingAck)

theorem SentAs.atMostOnce {m : Message} {bytes : List Byte} {state : MessageState}
    (h : SentAs m bytes state) (hm : (Message.packet m).WellFormed)
    (honce : Packet.AtMostOnce ⟨m.tag.controlType, bytes⟩) : state = .complete := by
  obtain ⟨htype, hqos⟩ := honce
  rw [h.qos hm] at hqos
  exact h.complete_iff.mpr (.inr (.inr (.inr ⟨htype, hqos⟩)))

theorem kept_once : Kept Message.Once where
  new := fun hshort hpack => ⟨kept_wellFormed.new hshort hpack,
    fun _ => (by decide : MessageState.unsent ≠ .awaitingAck)⟩
  completed := fun hm => ⟨hm.1, fun _ => (by decide : MessageState.complete ≠ .awaitingAck)⟩
  sent := by
    intro inflight m m' out e h hm
    refine ⟨kept_wellFormed.sent h hm.1, ?_⟩
    cases h with
    | sent _ _ hstate =>
        intro honce
        obtain rfl := (sentState_spec hstate).atMostOnce hm.1 honce
        exact (by decide : MessageState.complete ≠ .awaitingAck)
    | _ => exact hm.2

theorem wire0_append (ts us : List Transmission) : wire0 (ts ++ us) = wire0 ts ++ wire0 us := by
  simp only [wire0, whole, List.filter_append, List.map_append]

theorem Message.Waits.not_inflight {m : Message} (h : Message.Waits m) : ¬ Message.Inflight m := by
  rintro ⟨⟨-, htwo⟩, -⟩
  have hzero : inspectedQos (m.bytes.getD 0 0) = 0 := h.2.2
  exact absurd (hzero.symm.trans htwo) (by decide)

/-- A waiting publish is sent, and nothing else that looks like one. -/
theorem Outcome.waiting {inflight : Bool} {m m' : Message} {out : List Transmission}
    (h : Outcome inflight m m' out none) (hm : Message.Once m) :
    wire0 out = (if Message.Waits m then [Message.packet m] else []) ∧ ¬ Message.Waits m' := by
  cases h with
  | skip hskip =>
      have hnot : ¬ Message.Waits m := by
        intro hwaits
        rcases hskip with hstate | ⟨hinflight, -⟩
        · exact hstate hwaits.1
        · exact hwaits.not_inflight hinflight
      exact ⟨(if_neg hnot).symm, hnot⟩
  | sent hstate _ hsent =>
      refine ⟨?_, fun hwaits => (sentState_spec hsent).sent hwaits.1⟩
      by_cases honce : (Message.packet m).AtMostOnce
      · have hunsent : m.tag.state = .unsent := by
          cases hs : m.tag.state with
          | unsent => rfl
          | awaitingAck => exact absurd hs (hm.2 honce)
          | complete => exact absurd hs hstate
        rw [if_pos ⟨hunsent, honce⟩]
        simp [wire0, whole, honce]
      · rw [if_neg fun hwaits => honce hwaits.2]
        simp [wire0, whole, honce]

theorem Outcomes.waiting {inflight : Bool} {ms ms' : List Message} {out : List Transmission}
    {e : Option Error} (h : Outcomes inflight ms ms' out e) (hms : ∀ m ∈ ms, Message.Once m) :
    (∃ sent, Mqtt.waiting ms = sent ++ Mqtt.waiting ms' ∧ sent.map Message.packet = wire0 out) ∧
      (e = none → Mqtt.waiting ms' = []) := by
  induction h with
  | nil => exact ⟨⟨[], rfl, rfl⟩, fun _ => rfl⟩
  | @cons inflight m m' ms ms' out outs e hone _ ih =>
      obtain ⟨hm, hms⟩ := List.forall_mem_cons.mp hms
      obtain ⟨⟨sent, hsplit, hmap⟩, hnone⟩ := ih hms
      obtain ⟨hwire, hnot⟩ := hone.waiting hm
      rw [waiting_cons m', if_neg hnot, List.nil_append]
      refine ⟨⟨(if Message.Waits m then [m] else []) ++ sent, ?_, ?_⟩, hnone⟩
      · rw [waiting_cons, hsplit, List.append_assoc]
      · rw [wire0_append, hwire, List.map_append, hmap]
        split <;> rfl
  | stop hone =>
      cases hone
      refine ⟨⟨[], rfl, ?_⟩, nofun⟩
      simp [wire0, whole]

/-! ## The invariant -/

/-- No answer from the broker is for a publish that is sent once. -/
def Session.Unanswered (s : Session) : Prop :=
  ∀ p ∈ s.published0, ∀ response ∈ s.handled,
    response.answers ≠ some (.publish, some p.packetId)

instance (s : Session) : Decidable s.Unanswered :=
  inferInstanceAs (Decidable (∀ p ∈ s.published0, ∀ response ∈ s.handled,
    response.answers ≠ some (.publish, some p.packetId)))

/-- A message that holds the packet of a publish. -/
def Publish.QueuedAs (p : Publish) (m : Message) : Prop :=
  p.Writes m.bytes ∧ m.tag.packetId = p.packetId

/-- The accepted publishes are those on the wire and then those in the queue. -/
structure Session.InOrder (s : Session) : Prop where
  once : ∀ m ∈ s.client.mq.messages, Message.Once m
  split : ∃ done rest, s.published0 = done ++ rest ∧
    List.Forall₂ (fun p q => Publish.Writes p (Packet.bytes q)) done (wire0 s.transmissions) ∧
    List.Forall₂ Publish.QueuedAs rest (waiting s.client.mq.messages)

theorem qos_of_packPublishRequest {bufsz : Nat} {topicName applicationMessage bytes : List Byte}
    {packetId : BitVec 16} {publishFlags : Byte} (htopic : packedCstrlen topicName < 2 ^ 16)
    (hmessage : Short applicationMessage)
    (hpack : packPublishRequest bufsz topicName packetId applicationMessage publishFlags =
      .wrote bytes) :
    Packet.qos ⟨.publish, bytes⟩ = inspectedQos publishFlags := by
  have hpacket := isPacket_publish htopic hmessage hpack
  rw [Packet.qos, hpacket.getD_zero, inspectedQos_controlByte]
  exact inspectedQos_headerFlags publishFlags

theorem waits_new {client : Client} {request : Request} {packetId : BitVec 16}
    {bytes : List Byte} {bufsz : Nat} (hshort : request.Short)
    (hfresh : Fresh client request packetId) (hpack : request.pack bufsz = .wrote bytes) :
    List.Forall₂ Publish.QueuedAs (request.published.filter fun p => p.qos = 0)
      (if Message.Waits (newMessage request packetId bytes) then
        [newMessage request packetId bytes] else []) := by
  cases request with
  | publish topicName id applicationMessage publishFlags =>
      have hqos := qos_of_packPublishRequest hshort.1 hshort.2 hpack
      obtain ⟨rfl, -, -⟩ := hfresh id rfl
      have hwaits : Message.Waits
          (newMessage (.publish topicName packetId applicationMessage publishFlags) packetId
            bytes) ↔ inspectedQos publishFlags = 0 := by
        rw [← hqos]
        exact ⟨fun h => h.2.2, fun h => ⟨rfl, rfl, h⟩⟩
      by_cases hzero : inspectedQos publishFlags = 0
      · rw [if_pos (hwaits.mpr hzero)]
        have hkeep : (Request.publish topicName packetId applicationMessage
            publishFlags).published.filter (fun p => p.qos = 0) =
            [⟨topicName, applicationMessage, publishFlags, packetId⟩] := by
          simp [Request.published, Publish.qos, hzero]
        rw [hkeep]
        exact .cons ⟨⟨bufsz, hpack⟩, rfl⟩ .nil
      · rw [if_neg (mt hwaits.mp hzero)]
        have hdrop : (Request.publish topicName packetId applicationMessage
            publishFlags).published.filter (fun p => p.qos = 0) = [] :=
          List.filter_cons_of_neg (p := fun p => decide (Publish.qos p = 0))
            (mt of_decide_eq_true hzero)
        rw [hdrop]
        exact .nil
  | pubxxx controlType id =>
      rw [if_neg]
      · exact .nil
      · rintro ⟨-, htype, -⟩
        obtain rfl : controlType = .publish := htype
        exact absurd hshort (by decide : ¬ ControlType.publish.IsPubxxx)
  | _ =>
      rw [if_neg]
      · exact .nil
      · rintro ⟨-, htype, -⟩
        cases htype

theorem published0_packs (s : Session) (request : Request) (r : Client.Returns) :
    (s.packs request r).published0 = s.published0 ++
      if r.2 = none then request.published.filter (fun p => p.qos = 0) else [] := by
  simp only [Session.published0, Session.packs, List.filter_append]
  split <;> rfl

theorem Session.InOrder.packs {s : Session} (hs : s.InOrder) {c : Client} {request : Request}
    {packetId : BitVec 16} (hmq : c.mq = s.client.mq) (hshort : request.Short)
    (hfresh : Fresh s.client request packetId) :
    ∃ done rest, (s.packs request (c.tryPack request packetId)).published0 = done ++ rest ∧
      List.Forall₂ (fun p q => Publish.Writes p (Packet.bytes q)) done (wire0 s.transmissions) ∧
      List.Forall₂ Publish.QueuedAs rest (waiting (c.tryPack request packetId).1.mq.messages) := by
  obtain ⟨done, rest, hsplit, hdone, hrest⟩ := hs.split
  rw [published0_packs, hsplit]
  obtain ⟨mq, hclean, ⟨bytes, -, hpack, heq⟩ | ⟨e, -, heq⟩⟩ :=
    Client.tryPack_cases c request packetId
  · rw [hmq] at hclean
    have hqueue : waiting (c.registered mq bytes request.controlType packetId).mq.messages =
        waiting s.client.mq.messages ++
          if Message.Waits (newMessage request packetId bytes) then
            [newMessage request packetId bytes] else [] := by
      rw [← waiting_of_cleaned hclean]
      exact waiting_register ..
    rw [heq, if_pos rfl, List.append_assoc]
    refine ⟨done, _, rfl, hdone, ?_⟩
    rw [hqueue]
    exact List.rel_append hrest (waits_new hshort hfresh hpack)
  · rw [hmq] at hclean
    rw [heq, if_neg nofun, List.append_nil]
    refine ⟨done, rest, rfl, hdone, ?_⟩
    show List.Forall₂ _ rest (waiting mq.messages)
    rw [waiting_of_cleaned hclean]
    exact hrest

theorem Micro.inOrder {s s' : Session} (h : Micro s s') (hs : s.InOrder)
    (hunanswered : s'.Unanswered) : s'.InOrder := by
  refine ⟨h.forall_messages kept_once hs.once, ?_⟩
  obtain ⟨done, rest, hsplit, hdone, hrest⟩ := hs.split
  cases h with
  | pack hprepared _ hshort hfresh => exact hs.packs hprepared.mq hshort hfresh
  | fill _ => exact ⟨done, rest, hsplit, hdone, hrest⟩
  | @handle response n _ _ =>
      refine ⟨done, rest, hsplit, hdone, ?_⟩
      show List.Forall₂ _ rest (waiting (s.client.handle response).1.1.mq.messages)
      rw [waiting_of_moves (Client.handle_moves s.client response)]
      · exact hrest
      · rintro id hanswers m hm rfl
        -- the response would be an answer to a publish that has been accepted
        obtain ⟨p, hp, hqueued⟩ := exists_of_forall₂_mem_right hrest hm
        have hpublished : p ∈ s.published0 := by
          rw [hsplit]
          exact List.mem_append_right _ hp
        refine hunanswered p hpublished response (List.mem_append_right _ ?_) ?_
        · exact List.mem_singleton.mpr rfl
        · rw [hanswers, hqueued.2]
  | fail _ _ => exact ⟨done, rest, hsplit, hdone, hrest⟩
  | send _ _ houtcomes =>
      obtain ⟨⟨sent, hwaiting, hmap⟩, -⟩ := houtcomes.waiting hs.once
      rw [hwaiting] at hrest
      obtain ⟨now, later, rfl, hnow, hlater⟩ := forall₂_append_right hrest
      refine ⟨done ++ now, later, ?_, ?_, hlater⟩
      · rw [List.append_assoc]
        exact hsplit
      · show List.Forall₂ _ _ (wire0 (s.transmissions ++ _))
        rw [wire0_append, ← hmap]
        refine List.rel_append hdone ?_
        rw [List.forall₂_map_right_iff]
        exact hnow.imp fun _ _ hqueued => hqueued.1

/-! ## Whole runs -/

theorem Micro.grows {s s' : Session} (h : Micro s s') :
    s.published0 ⊆ s'.published0 ∧ s.handled ⊆ s'.handled := by
  cases h with
  | pack _ _ _ _ =>
      rw [published0_packs]
      exact ⟨List.subset_append_left _ _, List.Subset.refl _⟩
  | handle _ _ => exact ⟨List.Subset.refl _, List.subset_append_left _ _⟩
  | _ => exact ⟨List.Subset.refl _, List.Subset.refl _⟩

/-- What holds of the answers at the end has held all along. -/
theorem Micro.unanswered {s s' : Session} (h : Micro s s') (hs : s'.Unanswered) :
    s.Unanswered := by
  intro p hp response hresponse
  exact hs p (h.grows.1 hp) response (h.grows.2 hresponse)

variable {entrySize sendbufsz recvbufsz : Nat} {s : Session}

theorem Session.Reached.inOrder (h : s.Reached entrySize sendbufsz recvbufsz)
    (hunanswered : s.Unanswered) : s.InOrder := by
  refine h.inv (I := fun s => s.Unanswered → s.InOrder) ?_ ?_ hunanswered
  · intro t t' hmicro ht ht'
    exact hmicro.inOrder (ht (hmicro.unanswered ht')) ht'
  · intro client hstarts _
    refine ⟨hstarts.forall_messages, [], [], rfl, .nil, ?_⟩
    show List.Forall₂ _ [] (waiting client.mq.messages)
    rw [hstarts.messages]
    exact .nil

theorem Sent.waiting {c c' : Client} {out : List Transmission} {ret : Option Error}
    (h : Sent c c' out ret) (hc : ∀ m ∈ c.mq.messages, Message.Once m)
    (herror : c'.error = none) : Mqtt.waiting c'.mq.messages = [] := by
  cases h with
  | stopped hstopped => exact absurd herror hstopped.1
  | failed _ _ _ => cases herror
  | done _ _ houtcomes => exact (houtcomes.waiting hc).2 rfl
  | @ping t messages out c' ret junk _ _ houtcomes hping =>
      have hnone := (houtcomes.waiting hc).2 rfl
      obtain ⟨mq, hclean, ⟨bytes, -, -, heq⟩ | ⟨e, -, heq⟩⟩ :=
        Client.tryPack_cases (c.sent t messages) .pingreq junk
      · cases hping.symm.trans heq
        show Mqtt.waiting (mq.register bytes _).messages = []
        rw [waiting_register, waiting_of_cleaned hclean, if_neg fun hwaits => nomatch hwaits.2.1]
        exact (List.append_nil _).trans hnone
      · cases hping.symm.trans heq
        cases herror

theorem Session.Reached.once (h : s.Reached entrySize sendbufsz recvbufsz) :
    ∀ m ∈ s.client.mq.messages, Message.Once m :=
  h.inv (fun _ _ hmicro => hmicro.forall_messages kept_once)
    fun _ hstarts => hstarts.forall_messages

theorem send_waiting {s' : Session} {clock : Nat → Nat} {sends : List Nat} {junk : BitVec 16}
    (h : s.Reached entrySize sendbufsz recvbufsz)
    (hstep : s.step (.send clock sends junk) = some s') (herror : s'.client.error = none) :
    waiting s'.client.mq.messages = [] := by
  have hsent := send_sent h.sendable.isSent h.sendable.sendOffset clock sends junk
  cases hstep
  exact hsent.waiting h.once herror

theorem Micro.short {s s' : Session} (h : Micro s s')
    (hs : ∀ p ∈ s.published, p.Short) : ∀ p ∈ s'.published, p.Short := by
  cases h with
  | @pack c request packetId _ _ hshort _ =>
      refine List.forall_mem_append.mpr ⟨hs, ?_⟩
      split
      · cases request with
        | publish topicName id applicationMessage publishFlags =>
            exact List.forall_mem_singleton.mpr hshort
        | _ => exact List.forall_mem_nil _
      · exact List.forall_mem_nil _
  | _ => exact hs

theorem Session.Reached.short (h : s.Reached entrySize sendbufsz recvbufsz) :
    ∀ p ∈ s.published, p.Short :=
  h.inv (fun _ _ hmicro => hmicro.short) fun _ _ => List.forall_mem_nil _

end SmartHome.Mqtt
