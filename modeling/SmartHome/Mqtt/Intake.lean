/-
# `Mqtt.Intake` — packets and the receive buffer

A packet is handled when all of it is in `recv_buffer`.  When every packet of the broker's stream
fits, `__mqtt_recv` finds nothing wrong (`recv_errors`); from one that does not fit on, nothing is
handled any more (`delivered_deliverable`).
-/
import SmartHome.Packet
import SmartHome.Mqtt.Accepts
import SmartHome.Mqtt.Publishing

namespace SmartHome.Mqtt

open Framing

/-! ## A stream of whole packets -/

def stream (blocks : List (List Byte × Response)) : List Byte := blocks.flatMap Prod.fst

theorem parses_stream {blocks : List (List Byte × Response)} (h : ∀ b ∈ blocks, Legal b) :
    Parses responses (stream blocks) (blocks.map Prod.snd) [] :=
  parses_flatMap blocks h

theorem parses_stream_append {blocks : List (List Byte × Response)} (h : ∀ b ∈ blocks, Legal b)
    (rest : List Byte) :
    Parses responses (stream blocks ++ rest) (blocks.map Prod.snd) rest := by
  have hparses := (parses_stream h).append_right rest
  rwa [List.nil_append] at hparses

theorem length_le_of_ready {block : List Byte × Response} {buffer more after : List Byte}
    {response : Response} {n : Nat} (hlegal : Legal block)
    (heq : buffer ++ more = block.1 ++ after)
    (hscan : unpackResponse buffer = .frame response n) (hlen : n ≤ buffer.length) :
    response = block.2 ∧ block.1.length ≤ buffer.length := by
  have hwhole : unpackResponse (buffer ++ more) = .frame response n :=
    Framer.scan_append_frame (F := responses) hscan more
  have hfirst : unpackResponse (block.1 ++ after) = .frame block.2 block.1.length :=
    Framer.scan_append_frame (F := responses) hlegal after
  rw [heq, hfirst] at hwhole
  cases hwhole
  exact ⟨rfl, hlen⟩

theorem Session.Reads.rest_eq {s : Session} (hs : s.Reads) {done todo : List (List Byte × Response)}
    {more : List Byte} (hlegal : ∀ b ∈ done, Legal b)
    (hstream : s.received ++ more = stream (done ++ todo))
    (hhandled : s.handled = done.map Prod.snd) :
    s.client.recvBuffer ++ more = stream todo := by
  have hparses := hs.parses.append_right more
  rw [hstream, hhandled] at hparses
  refine hparses.rest_unique ?_
  rw [stream, List.flatMap_append]
  exact parses_stream_append hlegal _

/-! ## A packet that does not fit -/

/-- A session does not get past a packet that is longer than its buffer. -/
theorem Micro.before {s s' : Session} (h : Micro s s') (hs : s.Reads)
    {before after : List (List Byte × Response)} {big : List Byte × Response}
    (hlegal : ∀ b ∈ before ++ big :: after, Legal b)
    (hbig : s.client.recvSize < big.1.length)
    (hreceived : s'.received <+: stream (before ++ big :: after))
    (hbefore : s.handled <+: before.map Prod.snd) : s'.handled <+: before.map Prod.snd := by
  cases h with
  | @handle response n hscan hlen =>
      obtain ⟨more, hmore⟩ := hreceived
      obtain ⟨rest, hrest⟩ := hbefore
      obtain ⟨done, todo, rfl, hdone, rfl⟩ := List.map_eq_append_iff.mp hrest.symm
      have hlegal' : ∀ b ∈ done, Legal b := fun b hb =>
        hlegal b (List.mem_append_left _ (List.mem_append_left _ hb))
      rw [List.append_assoc] at hmore
      have hbuffer := hs.rest_eq hlegal' hmore hdone.symm
      cases todo with
      | nil =>
          have hready := length_le_of_ready
            (hlegal big (List.mem_append_right _ List.mem_cons_self)) hbuffer hscan hlen
          have hroom := hs.room
          omega
      | cons b todo =>
          have hb : b ∈ (done ++ b :: todo) ++ big :: after :=
            List.mem_append_left _ (List.mem_append_right _ List.mem_cons_self)
          obtain ⟨rfl, -⟩ := length_le_of_ready (hlegal b hb) hbuffer hscan hlen
          refine ⟨todo.map Prod.snd, ?_⟩
          show (s.handled ++ [b.2]) ++ _ = _
          rw [← hdone, List.map_append, List.map_cons, List.append_assoc]
          rfl
  | _ => exact hbefore

variable {entrySize sendbufsz recvbufsz : Nat} {s : Session}

theorem Micro.received {s s' : Session} (h : Micro s s') : s.received <+: s'.received := by
  cases h with
  | fill _ => exact List.prefix_append _ _
  | _ => exact List.prefix_refl _

theorem handled_before {before after : List (List Byte × Response)}
    {big : List Byte × Response} (h : s.Reached entrySize sendbufsz recvbufsz)
    (hlegal : ∀ b ∈ before ++ big :: after, Legal b) (hbig : recvbufsz < big.1.length)
    (hreceived : s.received <+: stream (before ++ big :: after)) :
    s.handled <+: before.map Prod.snd := by
  have hall : (s.Reads ∧ s.client.recvSize = recvbufsz) ∧
      (s.received <+: stream (before ++ big :: after) → s.handled <+: before.map Prod.snd) := by
    refine h.inv (I := fun s => (s.Reads ∧ s.client.recvSize = recvbufsz) ∧
      (s.received <+: stream (before ++ big :: after) → s.handled <+: before.map Prod.snd)) ?_ ?_
    · rintro t t' hmicro ⟨⟨hreads, hsize⟩, hbefore⟩
      refine ⟨⟨hmicro.reads hreads, hmicro.recvSize.trans hsize⟩, ?_⟩
      intro hreceived
      have hreceived' := hmicro.received.trans hreceived
      exact hmicro.before hreads hlegal (hsize ▸ hbig) hreceived (hbefore hreceived')
    · intro client hstarts
      exact ⟨⟨hstarts.reads, hstarts.recvSize⟩, fun _ => List.nil_prefix⟩
  exact hall.2 hreceived

theorem handled_takeWhile {blocks : List (List Byte × Response)}
    (h : s.Reached entrySize sendbufsz recvbufsz) (hlegal : ∀ b ∈ blocks, Legal b)
    (hreceived : s.received <+: stream blocks) :
    s.handled <+: (blocks.takeWhile fun b => b.1.length ≤ recvbufsz).map Prod.snd := by
  have hsplit := List.takeWhile_append_dropWhile
    (p := fun b : List Byte × Response => decide (b.1.length ≤ recvbufsz)) (l := blocks)
  cases hrest : blocks.dropWhile fun b => decide (b.1.length ≤ recvbufsz) with
  | nil =>
      rw [hrest, List.append_nil] at hsplit
      rw [hsplit]
      obtain ⟨more, hmore⟩ := hreceived
      have hparses := parses_stream hlegal
      rw [← hmore] at hparses
      exact hparses.prefix_of h.reads.parses
  | cons big after =>
      have hbig : ¬ big.1.length ≤ recvbufsz := by
        have hhead := List.head?_dropWhile_not
          (fun b : List Byte × Response => decide (b.1.length ≤ recvbufsz)) blocks
        rw [hrest] at hhead
        exact of_decide_eq_false hhead
      rw [hrest] at hsplit
      rw [← hsplit] at hlegal hreceived
      exact handled_before h hlegal (Nat.not_le.mp hbig) hreceived

/-! ## Publishes -/

/-- A publish that another client reads back: it is sent once, the length fields count its strings,
and these are not almost empty. -/
structure Publish.Readable (p : Publish) : Prop where
  once : p.qos = 0
  topic : packedCstrlen p.topicName < 2 ^ 16
  message : Mqtt.Short p.applicationMessage
  two : 2 ≤ p.topicName.length + p.applicationMessage.length

/-- What the receiver of a publish gets. -/
def Publish.response (p : Publish) : ResponsePublish :=
  .of p.topicName p.packetId p.applicationMessage p.publishFlags

theorem Publish.Readable.remainingLength {p : Publish} (h : p.Readable) :
    publishRemainingLength p.topicName p.applicationMessage.length p.publishFlags =
      2 + p.topicName.length + p.applicationMessage.length := by
  have hzero : ¬ 0 < inspectedQos p.publishFlags := by
    have honce : inspectedQos p.publishFlags = 0 := h.once
    rw [honce]
    decide
  rw [publishRemainingLength_eq h.topic h.message, if_neg hzero, Nat.add_zero]

theorem Publish.Readable.legal {p : Publish} (hp : p.Readable) {bytes : List Byte}
    (h : p.Writes bytes) : Legal (bytes, .publish p.response) := by
  obtain ⟨bufsz, hpack⟩ := h
  have hpacket := isPacket_publish hp.topic hp.message hpack
  have hread := unpackResponse_of_isPacket hp.topic hp.message hpacket []
  have htwo := hp.two
  rw [hp.remainingLength, if_neg (by omega), List.append_nil] at hread
  exact hread

/-- The bytes of a C string. -/
def cstr (bytes : List Byte) : CStr := bytes.map fun byte => Char.ofNat byte.toNat

theorem Publish.Readable.length_eq {p : Publish} (hp : p.Readable) {bytes : List Byte}
    (h : p.Writes bytes) :
    bytes.length = packetSize (cstr p.topicName) p.applicationMessage.length := by
  obtain ⟨bufsz, hpack⟩ := h
  rw [(isPacket_publish hp.topic hp.message hpack).length_eq]
  simp only [publishHeader, hp.remainingLength, packetSize, cstr, List.length_map]

theorem Session.Reads.delivered_eq {s : Session} (hs : s.Reads)
    (hzero : ∀ message ∈ s.handled.filterMap Response.toPublish, message.qosLevel = 0) :
    s.delivered = s.handled.filterMap Response.toPublish := by
  have hall : qos0 s.delivered = s.handled.filterMap Response.toPublish := by
    rw [hs.delivered]
    exact List.filter_eq_self.mpr fun message hm => decide_eq_true (hzero message hm)
  refine hs.sublist.antisymm ?_
  rw [← hall]
  exact List.filter_sublist

theorem exists_blocks {publishes : List Publish} {packets : List (List Byte)}
    (hreadable : ∀ p ∈ publishes, p.Readable)
    (hwrites : List.Forall₂ Publish.Writes publishes packets) :
    ∃ blocks, stream blocks = packets.flatten ∧ (∀ b ∈ blocks, Legal b) ∧
      (blocks.takeWhile fun b => b.1.length ≤ recvbufSize).map Prod.snd =
        (publishes.takeWhile fun p =>
          Deliverable (cstr p.topicName) p.applicationMessage.length).map
            fun p => .publish p.response := by
  induction hwrites with
  | nil => exact ⟨[], rfl, List.forall_mem_nil _, rfl⟩
  | @cons p bytes publishes packets hone _ ih =>
      obtain ⟨hp, hreadable⟩ := List.forall_mem_cons.mp hreadable
      obtain ⟨blocks, hstream, hlegal, htake⟩ := ih hreadable
      refine ⟨(bytes, .publish p.response) :: blocks, ?_, ?_, ?_⟩
      · rw [stream, List.flatMap_cons, List.flatten_cons, ← hstream]
        rfl
      · exact List.forall_mem_cons.mpr ⟨hp.legal hone, hlegal⟩
      · rw [List.takeWhile_cons, List.takeWhile_cons, hp.length_eq hone]
        by_cases hfits : Deliverable (cstr p.topicName) p.applicationMessage.length
        · have hle : packetSize (cstr p.topicName) p.applicationMessage.length ≤ recvbufSize :=
            hfits
          rw [if_pos (decide_eq_true hle), if_pos (decide_eq_true hfits), List.map_cons,
            List.map_cons, htake]
        · have hnot : ¬ packetSize (cstr p.topicName) p.applicationMessage.length ≤ recvbufSize :=
            hfits
          rw [if_neg (by simpa using hnot), if_neg (by simpa using hfits)]
          rfl

/-- **Messages that are too long.** Of a stream of publishes the callback gets the ones before the
first that `Deliverable` does not hold of: that one and all behind it never arrive. -/
theorem delivered_deliverable {publishes : List Publish} {packets : List (List Byte)}
    (h : s.Reached entrySize sendbufsz recvbufSize) (hreadable : ∀ p ∈ publishes, p.Readable)
    (hwrites : List.Forall₂ Publish.Writes publishes packets)
    (hreceived : s.received <+: packets.flatten) :
    s.delivered <+: (publishes.takeWhile fun p =>
      Deliverable (cstr p.topicName) p.applicationMessage.length).map Publish.response := by
  obtain ⟨blocks, hstream, hlegal, htake⟩ := exists_blocks hreadable hwrites
  rw [← hstream] at hreceived
  have hhandled := (handled_takeWhile h hlegal hreceived).filterMap Response.toPublish
  rw [htake, List.filterMap_map] at hhandled
  have hsome : (Response.toPublish ∘ fun p : Publish => Response.publish p.response) =
      some ∘ Publish.response := rfl
  rw [hsome, List.filterMap_eq_map] at hhandled
  rw [h.reads.delivered_eq]
  · exact hhandled
  · intro message hm
    obtain ⟨p, hp, rfl⟩ := List.mem_map.mp (hhandled.subset hm)
    exact (hreadable p (List.takeWhile_subset _ hp)).once

/-- A message of one byte, one of 1100, and one of one byte again. -/
def shortLongShort : List Publish :=
  [⟨[0x61, 0x62], [0x78], 0, 7⟩, ⟨[0x61, 0x62], List.replicate 1100 0x78, 0, 7⟩,
    ⟨[0x61, 0x62], [0x79], 0, 7⟩]

def shortLongShortPackets : List (List Byte) :=
  [[0x30, 5, 0, 2, 0x61, 0x62, 0x78],
    [0x30, 0xD0, 8, 0, 2, 0x61, 0x62] ++ List.replicate 1100 0x78,
    [0x30, 5, 0, 2, 0x61, 0x62, 0x79]]

/-- The second one is too long, and the third one does not arrive. -/
theorem delivered_deliverable_long :
    ∃ s, mainRun [.recv [.data shortLongShortPackets.flatten]] = some s ∧
      s.delivered.length = 1 ∧ s.client.error = some .recvBufferTooSmall ∧
      s.delivered <+: (shortLongShort.takeWhile fun p : Publish =>
        Deliverable (cstr p.topicName) p.applicationMessage.length).map Publish.response := by
  obtain ⟨s, hs, hreached, hreceived, hone, herror⟩ :=
    exists_mainRun [.recv [.data shortLongShortPackets.flatten]]
      (fun s => s.received <+: shortLongShortPackets.flatten ∧ s.delivered.length = 1 ∧
        s.client.error = some .recvBufferTooSmall)
      (by decide) (by decide +kernel)
  have hreadable : ∀ p ∈ shortLongShort, p.Readable := by
    intro p hp
    simp only [shortLongShort, List.mem_cons, List.not_mem_nil, or_false] at hp
    rcases hp with rfl | rfl | rfl <;>
      exact ⟨by decide, by decide, by decide +kernel, by decide +kernel⟩
  have hwrites : List.Forall₂ Publish.Writes shortLongShort shortLongShortPackets :=
    .cons ⟨2048, by decide⟩ (.cons ⟨2048, by decide +kernel⟩ (.cons ⟨2048, by decide⟩ .nil))
  exact ⟨s, hs, hone, herror, delivered_deliverable hreached hreadable hwrites hreceived⟩

/-! ## A stream on which nothing is wrong -/

/-- What handling a response can end with. -/
def Error.OfResponse (e : Error) : Prop :=
  e = .ackOfUnknown ∨ e = .connectClientIdRefused ∨ e = .connectionRefused ∨
    e = .subscribeFailed ∨ e = .sendBufferIsFull

namespace Client

def Ends (r : Returns) : Prop :=
  (r.2 = none ∧ r.1.error = none) ∨ ∃ e, r.2 = some e ∧ e.OfResponse

variable {client : Client}

theorem ends_release (herror : client.error = none) (controlType : ControlType)
    (packetId : Option (BitVec 16)) : Ends (client.release controlType packetId) := by
  unfold release
  cases client.mq.find controlType packetId with
  | none => exact .inr ⟨_, rfl, .inl rfl⟩
  | some i => exact .inl ⟨rfl, herror⟩

theorem ends_andThen {r : Returns} {next : Client → Returns} (hr : Ends r)
    (hnext : ∀ c, c.error = none → Ends (next c)) : Ends (andThen r next) := by
  obtain ⟨c, ret⟩ := r
  rcases hr with ⟨hret, hnone⟩ | ⟨e, hret, he⟩
  · cases hret
    exact hnext c hnone
  · cases hret
    exact .inr ⟨e, rfl, he⟩

theorem ends_acknowledge {controlType : ControlType} (hack : controlType.IsPubxxx)
    (herror : client.error = none) (packetId : BitVec 16) :
    Ends (keepError (client.acknowledge controlType packetId)) := by
  obtain ⟨mq, -, ⟨bytes, -, -, heq⟩ | ⟨e, he, heq⟩⟩ :=
    tryPack_cases client (.pubxxx controlType packetId) packetId
  · rw [acknowledge, heq]
    exact .inl ⟨rfl, herror⟩
  · rw [acknowledge, heq]
    refine .inr ⟨e, rfl, ?_⟩
    rcases he with ⟨-, rfl | ⟨bufsz, hfailed⟩⟩ | hset
    · exact .inr (.inr (.inr (.inr rfl)))
    · obtain ⟨_, bytes, -, hpack⟩ := packPubxxxRequest_eq hack packetId
      have hno : packPubxxxRequest bufsz controlType packetId = .failed e := hfailed
      rw [hpack] at hno
      split at hno <;> cases hno
    · exact nomatch herror.symm.trans hset

theorem ends_handle (herror : client.error = none) (response : Response) :
    Ends (client.handle response).1 := by
  have hrelease := @ends_release client herror
  have hdone : Ends (client, none) := .inl ⟨rfl, herror⟩
  cases response with
  | connack sessionPresentFlag returnCode =>
      refine ends_andThen (hrelease _ _) ?_
      intro c hc
      split
      · exact .inl ⟨rfl, hc⟩
      split
      · exact .inr ⟨_, rfl, .inr (.inl rfl)⟩
      · exact .inr ⟨_, rfl, .inr (.inr (.inl rfl))⟩
  | publish message =>
      simp only [handle]
      split
      · exact ends_acknowledge (.inl rfl) herror _
      split
      · split
        · exact hdone
        · exact ends_acknowledge (.inr (.inl rfl)) herror _
      · exact hdone
  | puback packetId => exact hrelease _ _
  | pubrec packetId =>
      simp only [handle]
      split
      · exact hdone
      · exact ends_andThen (hrelease _ _) fun c hc =>
          ends_acknowledge (.inr (.inr (.inl rfl))) hc _
  | pubrel packetId =>
      exact ends_andThen (hrelease _ _) fun c hc =>
        ends_acknowledge (.inr (.inr (.inr rfl))) hc _
  | pubcomp packetId => exact hrelease _ _
  | suback packetId returnCodes =>
      refine ends_andThen (hrelease _ _) ?_
      intro c hc
      split
      · exact .inr ⟨_, rfl, .inr (.inr (.inr (.inl rfl)))⟩
      · exact .inl ⟨rfl, hc⟩
  | unsuback packetId => exact hrelease _ _
  | pingresp => exact hrelease _ _

end Client

/-- What stands at the front of the buffer is a packet of the stream, or a part of one. -/
theorem Session.Reads.front {s : Session} (hs : s.Reads) {blocks : List (List Byte × Response)}
    {more : List Byte} (hlegal : ∀ b ∈ blocks, Legal b)
    (hstream : s.received ++ more = stream blocks) :
    s.client.recvBuffer = [] ∨
      ∃ b ∈ blocks, ∃ after, s.client.recvBuffer ++ more = b.1 ++ after := by
  have hbegins : s.handled <+: blocks.map Prod.snd := by
    have hparses := parses_stream hlegal
    rw [← hstream] at hparses
    exact hparses.prefix_of hs.parses
  obtain ⟨rest, hrest⟩ := hbegins
  obtain ⟨done, todo, rfl, hdone, -⟩ := List.map_eq_append_iff.mp hrest.symm
  have hbuffer := hs.rest_eq (fun b hb => hlegal b (List.mem_append_left _ hb)) hstream hdone.symm
  cases todo with
  | nil => exact .inl (List.append_eq_nil_iff.mp hbuffer).1
  | cons b todo =>
      exact .inr ⟨b, List.mem_append_right _ List.mem_cons_self, stream todo, hbuffer⟩

/-- A whole packet, or a part of it, is not malformed; a whole one is seen, and no more than it. -/
theorem Session.Reads.scan {s : Session} (hs : s.Reads) {blocks : List (List Byte × Response)}
    (hlegal : ∀ b ∈ blocks, Legal b) (hreceived : s.received <+: stream blocks) :
    (∀ e, unpackResponse s.client.recvBuffer ≠ .failed e) ∧
      (unpackResponse s.client.recvBuffer = .more → s.client.recvBuffer = [] ∨
        ∃ b ∈ blocks, s.client.recvBuffer.length < b.1.length) ∧
      ∀ response n, unpackResponse s.client.recvBuffer = .frame response n →
        ∃ b ∈ blocks, n = b.1.length := by
  obtain ⟨more, hmore⟩ := hreceived
  rcases hs.front hlegal hmore with hnil | ⟨b, hb, after, hfront⟩
  · rw [hnil]
    exact ⟨nofun, fun _ => .inl rfl, nofun⟩
  have hwhole : unpackResponse (b.1 ++ after) = .frame b.2 b.1.length :=
    Framer.scan_append_frame (F := responses) (hlegal b hb) after
  refine ⟨?_, ?_, ?_⟩
  · intro e hfailed
    have hsame : unpackResponse (s.client.recvBuffer ++ more) = .failed e :=
      Framer.scan_append_failed (F := responses) hfailed more
    rw [hfront, hwhole] at hsame
    cases hsame
  · intro hmoreBytes
    refine .inr ⟨b, hb, Nat.not_le.mp fun hle => ?_⟩
    -- all of the packet would be there
    obtain ⟨tail, htail⟩ := List.prefix_of_prefix_length_le ⟨after, hfront.symm⟩
      (List.prefix_append s.client.recvBuffer more) hle
    have hscan : unpackResponse s.client.recvBuffer = .frame b.2 b.1.length := by
      rw [← htail]
      exact Framer.scan_append_frame (F := responses) (hlegal b hb) tail
    exact nomatch hscan.symm.trans hmoreBytes
  · intro response n hframe
    have hsame : unpackResponse (s.client.recvBuffer ++ more) = .frame response n :=
      Framer.scan_append_frame (F := responses) hframe more
    rw [hfront, hwhole] at hsame
    cases hsame
    exact ⟨b, hb, rfl⟩

theorem Session.Reads.filled {s : Session} (hs : s.Reads) {recvs recvs' : List Recv}
    {got : List Byte} {ok : Bool} (hrecv : recvall recvs s.client.room = (got, ok, recvs')) :
    (s.fills got).Reads :=
  (Micro.fill (recvall_spec hrecv).1).reads hs

theorem Receives.endings {s : Session} {recvs : List Recv} {r : Received}
    {blocks : List (List Byte × Response)} (h : Receives s.client recvs r) (hs : s.Reads)
    (hnone : s.client.error = none) (hlegal : ∀ b ∈ blocks, Legal b)
    (hfit : ∀ b ∈ blocks, b.1.length ≤ s.client.recvSize) (hpos : 0 < s.client.recvSize)
    (hsize : s.client.recvSize < 2 ^ 32) (hreceived : s.received ++ r.taken <+: stream blocks) :
    r.ending = .returned none ∨
      ∃ e, r.ending = .returned (some e) ∧ (e = .socketError ∨ e.OfResponse) := by
  generalize hclient : s.client = c at h
  induction h generalizing s with
  | socketError _ => exact .inr ⟨_, rfl, .inl rfl⟩
  | malformed hrecv hscan =>
      subst hclient
      exact absurd hscan (((hs.filled hrecv).scan hlegal hreceived).1 _)
  | tooSmall hrecv hscan hroom =>
      subst hclient
      have hfull : s.client.recvSize - (s.fills _).client.recvBuffer.length = 0 := hroom
      rcases ((hs.filled hrecv).scan hlegal hreceived).2.1 hscan with hnil | ⟨b, hb, hless⟩
      · rw [hnil, List.length_nil] at hfull
        omega
      · have hle := hfit b hb
        omega
  | wait _ _ _ => exact .inl rfl
  | @overrun c recvs recvs' got response n hrecv hscan hless =>
      subst hclient
      have hfilled := hs.filled hrecv
      have hroom : (s.client.recvBuffer ++ got).length ≤ s.client.recvSize := hfilled.room
      obtain ⟨b, hb, rfl⟩ := (hfilled.scan hlegal hreceived).2.2 _ _ hscan
      have hle := hfit b hb
      have hnot := unpackResponse_le hscan (by omega)
      omega
  | @stop c c' recvs recvs' got response n e delivered _ _ _ hhandle =>
      subst hclient
      have hnone' : (s.client.filled got).error = none := hnone
      have hends := Client.ends_handle hnone' response
      rw [hhandle] at hends
      rcases hends with ⟨hret, -⟩ | ⟨e', hret, he'⟩
      · cases hret
      · cases hret
        exact .inr ⟨e, rfl, .inr he'⟩
  | @next c c' recvs recvs' got response n delivered r hrecv hscan hlen hhandle _ ih =>
      subst hclient
      have hnone' : (s.client.filled got).error = none := hnone
      have hends := Client.ends_handle hnone' response
      have hsame := Client.handle_sameBut hhandle
      rw [hhandle] at hends
      rcases hends with ⟨-, hafter⟩ | ⟨e', hret, -⟩
      · have hreads : Session.Reads
            { s with
              client := c'.consumed n
              handled := s.handled ++ [response]
              delivered := s.delivered ++ delivered
              received := s.received ++ got } :=
          (micros_response hrecv hscan hlen hhandle).inv (fun _ _ hmicro => hmicro.reads) hs
        have hsize' : (c'.consumed n).recvSize = s.client.recvSize := hsame.recvSize
        refine ih hreads hafter (hsize' ▸ hfit) (hsize' ▸ hpos) (hsize' ▸ hsize) ?_ rfl
        rw [List.append_assoc]
        exact hreceived
      · cases hret

/-- **A stream on which nothing is wrong.** When every packet of the broker's stream is well formed
and fits into `recv_buffer`, `__mqtt_recv` returns, and a client without an error gets none from it
but that of the socket, or one that a response stands for: no packet is taken for a malformed
one, none is cut off that is not there, and the buffer is never found too small, in whatever pieces
the stream comes. -/
theorem recv_errors {blocks : List (List Byte × Response)}
    (h : s.Reached entrySize sendbufsz recvbufsz) (hnone : s.client.error = none)
    (hlegal : ∀ b ∈ blocks, Legal b) (hfit : ∀ b ∈ blocks, b.1.length ≤ recvbufsz)
    (hpos : 0 < recvbufsz) (hsize : recvbufsz < 2 ^ 32) (recvs : List Recv) :
    ∃ r, s.client.recv recvs = some r ∧ (s.received ++ r.taken <+: stream blocks →
      r.ending = .returned none ∨
        ∃ e, r.ending = .returned (some e) ∧ (e = .socketError ∨ e.OfResponse)) := by
  rw [← h.recvSize] at hfit hpos hsize
  obtain ⟨r, hrecv⟩ := Client.recv_returns s.client recvs
  refine ⟨r, hrecv, ?_⟩
  exact (Client.recv_receives hrecv).endings h.reads hnone hlegal hfit hpos hsize

theorem recv_errors_connack :
    ∃ s, mainRun [] = some s ∧
      ∃ r, s.client.recv [.data [0x20, 2], .data [0, 0]] = some r ∧
        r.handled = [.connack 0 0] ∧ (r.ending = .returned none ∨
          ∃ e, r.ending = .returned (some e) ∧ (e = .socketError ∨ e.OfResponse)) := by
  obtain ⟨s, hs, hreached, hnone, hreceived, hrecv⟩ :=
    exists_mainRun [] (fun s => s.client.error = none ∧ s.received = [] ∧
        (s.client.recv [.data [0x20, 2], .data [0, 0]]).any (fun r =>
          r.handled = [.connack 0 0] ∧ r.taken = [0x20, 2, 0, 0]) = true)
      (by decide) (by decide +kernel)
  have hlegal : Legal ([0x20, 2, 0, 0], .connack 0 0) :=
    (by decide : unpackResponse [0x20, 2, 0, 0] = .frame (.connack 0 0) 4)
  obtain ⟨r, hr, hends⟩ := recv_errors hreached hnone (List.forall_mem_singleton.mpr hlegal)
    (List.forall_mem_singleton.mpr (by decide)) (by decide) (by decide)
    [.data [0x20, 2], .data [0, 0]]
  rw [hr] at hrecv
  obtain ⟨hhandled, htaken⟩ := of_decide_eq_true hrecv
  refine ⟨s, hs, r, hr, hhandled, hends ?_⟩
  rw [hreceived, htaken]
  exact List.prefix_refl _

end SmartHome.Mqtt
