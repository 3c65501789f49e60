/-
# `Mqtt.Pipe` — from one program's `mqtt_publish` to another's callback

The programs stand around a broker that takes the bytes of their wires in, cuts packets off them,
and writes each program a stream of whole packets, with the publishes it has subscribed to in the
order in which they came from each of the others (`Broker`).  Then what the callbacks have been
given is what a broker of `Lib.PubSub` would have delivered: each link hands on what was
published, once and in order, and when all has come through nothing is left on it
(`links_in_order`).
-/
import SmartHome.System
import SmartHome.Lib.Tagged
import SmartHome.Mqtt.Intake

namespace SmartHome.Mqtt

open Framing Tagged PubSub

/-! ## What is in a packet -/

/-- Topic and message. -/
abbrev Content := List Byte × List Byte

def Publish.content (p : Publish) : Content := (p.topicName, p.applicationMessage)

def ResponsePublish.content (message : ResponsePublish) : Content :=
  (message.topicName, message.applicationMessage)

/-- What a publish at quality of service 0 says; the other responses say nothing. -/
def Response.content : Response → Option Content
  | .publish message => if message.qosLevel = 0 then some message.content else none
  | _ => none

theorem filterMap_content (responses : List Response) :
    responses.filterMap Response.content =
      (qos0 (responses.filterMap Response.toPublish)).map ResponsePublish.content := by
  induction responses with
  | nil => rfl
  | cons response responses ih =>
      cases response with
      | publish message =>
          have hsome : (Response.publish message).toPublish = some message := rfl
          rw [List.filterMap_cons_some hsome, qos0, List.filter_cons, List.filterMap_cons,
            Response.content]
          by_cases hzero : message.qosLevel = 0
          · rw [if_pos hzero, if_pos (decide_eq_true hzero), List.map_cons, ih]
            rfl
          · rw [if_neg hzero, if_neg (by simpa using hzero)]
            exact ih
      | _ => exact ih

/-- A packet, read as a client reads it. -/
def readPublish (bytes : List Byte) : Option Content :=
  match unpackResponse bytes with
  | .frame response _ => response.content
  | _ => none

theorem readPublish_of_legal {bytes : List Byte} {response : Response}
    (h : Legal (bytes, response)) : readPublish bytes = response.content := by
  have hscan : unpackResponse bytes = .frame response bytes.length := h
  rw [readPublish, hscan]

theorem Publish.Readable.read {p : Publish} (hp : p.Readable) {bytes : List Byte}
    (h : p.Writes bytes) : readPublish bytes = some p.content := by
  rw [readPublish_of_legal (hp.legal h)]
  exact if_pos hp.once

theorem unpackByType_content {h : FixedHeader} {body : List Byte} {response : Response} {n : Nat}
    (hok : unpackByType h body = .ok (response, n)) :
    response.content = none ∨ (h.controlType = ControlType.publish.code ∧
      inspectedQos (h.controlFlags.setWidth 8) = 0) := by
  have hid : ∀ {member : BitVec 16 → Response}, (∀ id, (member id).content = none) →
      unpackPacketId member h body = .ok (response, n) → response.content = none := by
    intro member hmember hok
    simp only [unpackPacketId] at hok
    split at hok
    · cases hok
    · cases hok
      exact hmember _
  unfold unpackByType at hok
  split at hok
  · simp only [unpackConnackResponse] at hok
    split at hok
    · cases hok
    split at hok
    · cases hok
    split at hok
    · cases hok
    · cases hok
      exact .inl rfl
  · rename_i hcode
    simp only [unpackPublishResponse] at hok
    split at hok
    · cases hok
    · cases hok
      by_cases hzero : inspectedQos (h.controlFlags.setWidth 8) = 0
      · exact .inr ⟨(ControlType.code_of_ofCode hcode).symm, hzero⟩
      · exact .inl (if_neg hzero)
  · exact .inl (hid (fun _ => rfl) hok)
  · exact .inl (hid (fun _ => rfl) hok)
  · exact .inl (hid (fun _ => rfl) hok)
  · exact .inl (hid (fun _ => rfl) hok)
  · simp only [unpackSubackResponse] at hok
    split at hok
    · cases hok
    · cases hok
      exact .inl rfl
  · exact .inl (hid (fun _ => rfl) hok)
  · cases hok
    exact .inl rfl
  · cases hok

/-- A packet that is no publish at quality of service 0 says nothing. -/
theorem Packet.WellFormed.read_eq_none {p : Packet} (h : p.WellFormed) (hnot : ¬ p.AtMostOnce) :
    readPublish p.bytes = none := by
  obtain ⟨header, body, hpacket, htype⟩ := h
  have hscan := hpacket.unpackResponse []
  rw [List.append_nil] at hscan
  rw [readPublish, hscan]
  cases hbody : unpackByType header body with
  | error e => rfl
  | ok r =>
      obtain ⟨response, n⟩ := r
      rcases unpackByType_content hbody with hnone | ⟨hpublish, hzero⟩
      · exact hnone
      · refine absurd ⟨?_, ?_⟩ hnot
        · have hcode := congrArg ControlType.ofCode (htype.symm.trans hpublish)
          rw [ControlType.ofCode_code, ControlType.ofCode_code] at hcode
          exact Option.some.inj hcode
        · rw [Packet.qos, hpacket.getD_zero, inspectedQos_controlByte, hzero]

/-! ## What a session has published -/

theorem filterMap_read {packets : List Packet} {publishes : List Publish}
    (hformed : ∀ p ∈ packets, p.WellFormed) (hreadable : ∀ p ∈ publishes, p.Readable)
    (hwrites : List.Forall₂ (fun p q => Publish.Writes p (Packet.bytes q)) publishes
      (packets.filter fun p => p.AtMostOnce)) :
    (packets.map Packet.bytes).filterMap readPublish = publishes.map Publish.content := by
  induction packets generalizing publishes with
  | nil =>
      cases hwrites
      rfl
  | cons q packets ih =>
      obtain ⟨hq, hformed⟩ := List.forall_mem_cons.mp hformed
      rw [List.map_cons]
      by_cases honce : q.AtMostOnce
      · rw [List.filter_cons, if_pos (decide_eq_true honce)] at hwrites
        cases hwrites with
        | cons hwrite hwrites =>
            obtain ⟨hp, hreadable⟩ := List.forall_mem_cons.mp hreadable
            rw [List.filterMap_cons_some (hp.read hwrite), List.map_cons,
              ih hformed hreadable hwrites]
      · rw [List.filter_cons, if_neg (by simpa using honce)] at hwrites
        rw [List.filterMap_cons_none (hq.read_eq_none honce), ih hformed hreadable hwrites]

variable {entrySize sendbufsz recvbufsz : Nat} {s : Session}

theorem Session.Reached.readable (h : s.Reached entrySize sendbufsz recvbufsz)
    (htwo : ∀ c ∈ s.published0.map Publish.content, 2 ≤ c.1.length + c.2.length) :
    ∀ p ∈ s.published0, p.Readable := by
  intro p hp
  obtain ⟨hpublished, hzero⟩ := List.mem_filter.mp hp
  obtain ⟨htopic, hmessage⟩ := h.short p hpublished
  exact ⟨of_decide_eq_true hzero, htopic, hmessage, htwo _ (List.mem_map_of_mem hp)⟩

theorem Session.Reached.sends (h : s.Reached entrySize sendbufsz recvbufsz)
    (hunanswered : s.Unanswered)
    (htwo : ∀ c ∈ s.published0.map Publish.content, 2 ≤ c.1.length + c.2.length) :
    ((whole s.transmissions).map Packet.bytes).filterMap readPublish <+:
        s.published0.map Publish.content ∧
      (waiting s.client.mq.messages = [] →
        ((whole s.transmissions).map Packet.bytes).filterMap readPublish =
          s.published0.map Publish.content) := by
  obtain ⟨done, rest, hsplit, hdone, hrest⟩ := (h.inOrder hunanswered).split
  have hreadable := h.readable htwo
  have hread := filterMap_read h.wellFormed
    (fun p hp => hreadable p (hsplit ▸ List.mem_append_left _ hp)) hdone
  rw [hread, hsplit, List.map_append]
  refine ⟨List.prefix_append _ _, ?_⟩
  intro hwaiting
  rw [hwaiting] at hrest
  cases hrest
  exact (List.append_nil _).symm

theorem Session.Reached.arrived (h : s.Reached entrySize sendbufsz recvbufsz)
    {bytes part : List Byte} {packets : List (List Byte)} (harrived : bytes <+: s.wire)
    (hcut : Parses frames bytes packets part) :
    packets <+: (whole s.transmissions).map Packet.bytes ∧
      (bytes = s.wire → ¬ frames.Ready part →
        packets = (whole s.transmissions).map Packet.bytes) := by
  obtain ⟨last, hwire, hlast, -⟩ := h.wire_parses
  constructor
  · obtain ⟨more, hmore⟩ := harrived
    have hcut' := hcut.append_right more
    rw [hmore] at hcut'
    rcases hcut'.prefix_total hwire with ⟨rest, heq, -⟩ | ⟨rest, heq, hrest⟩
    · rw [heq]
      exact List.prefix_append _ _
    · obtain ⟨rfl, -⟩ := hrest.eq_nil_of_not_ready hlast
      rw [heq, List.append_nil]
  · rintro rfl hstuck
    rcases hcut.prefix_total hwire with ⟨rest, heq, hrest⟩ | ⟨rest, heq, hrest⟩
    · obtain ⟨rfl, -⟩ := hrest.eq_nil_of_not_ready hstuck
      rw [heq, List.append_nil]
    · obtain ⟨rfl, -⟩ := hrest.eq_nil_of_not_ready hlast
      rw [heq, List.append_nil]

/-! ## What a session has been told -/

theorem Session.Reads.told {s : Session} (hs : s.Reads)
    {written : List (List Byte × Response)} (hlegal : ∀ b ∈ written, Legal b)
    (hreceived : s.received <+: stream written) :
    (qos0 s.delivered).map ResponsePublish.content <+:
        (written.map Prod.snd).filterMap Response.content ∧
      (s.received = stream written → s.CaughtUp →
        (qos0 s.delivered).map ResponsePublish.content =
          (written.map Prod.snd).filterMap Response.content) := by
  rw [hs.delivered, ← filterMap_content]
  have hparses := parses_stream hlegal
  constructor
  · obtain ⟨more, hmore⟩ := hreceived
    rw [← hmore] at hparses
    exact (hparses.prefix_of hs.parses).filterMap _
  · intro hall hcaught
    rw [← hall] at hparses
    rw [(hparses.eq_of_stuck hs.parses hcaught).1]

/-! ## The broker -/

variable {N : Type} [DecidableEq N]

/-- A broker between the sessions, as far as it has come: the bytes of each wire that have arrived
and the packets it has cut from them, the publishes it has put in line for each session with where
they came from, and the packets it writes to it. -/
structure Broker (nodes : N → Session) (subscribed : N → Content → Bool) where
  arrived : N → List Byte
  packets : N → List (List Byte)
  rest : N → List Byte
  forwarded : N → List (N × Content)
  written : N → List (List Byte × Response)
  arrived_wire : ∀ p, arrived p <+: (nodes p).wire
  cut : ∀ p, Parses frames (arrived p) (packets p) (rest p)
  /-- each publisher's publishes in their order, and none that is not subscribed to -/
  ordered : ∀ p n,
    part p (forwarded n) <+: ((packets p).filterMap readPublish).filter (subscribed n)
  legal : ∀ n, ∀ b ∈ written n, Legal b
  content : ∀ n, ((written n).map Prod.snd).filterMap Response.content = (forwarded n).map Prod.snd
  received : ∀ n, (nodes n).received <+: stream (written n)

/-- `mqtt_sync` has just returned, without an error. -/
def Session.Synced (s : Session) : Prop :=
  s.client.error = none ∧ ∃ (entrySize sendbufsz recvbufsz : Nat) (before : Session)
    (recvs : List Recv) (clock : Nat → Nat) (sends : List Nat) (junk : BitVec 16),
      before.Reached entrySize sendbufsz recvbufsz ∧ before.sync recvs clock sends junk = some s

theorem Session.Synced.caughtUp (h : s.Synced) : s.CaughtUp := by
  obtain ⟨herror, _, _, _, before, _, _, _, _, hbefore, hsync⟩ := h
  exact sync_caughtUp hbefore.sendable hsync herror

theorem Session.Synced.waiting (h : s.Synced) : Mqtt.waiting s.client.mq.messages = [] := by
  obtain ⟨herror, _, _, _, before, recvs, _, _, _, hbefore, hsync⟩ := h
  obtain ⟨r, hr, hending, hsend⟩ := sync_cases hsync herror
  have hstep : before.step (.recv recvs) = some (before.receives r) := by
    simp only [Session.step, hr, hending]
  have hmid := hbefore.step (show Call.Short (.recv recvs) from trivial) hstep
  exact send_waiting hmid hsend herror

/-- All that was accepted has been sent and has come through. -/
structure Broker.Through {nodes : N → Session} {subscribed : N → Content → Bool}
    (broker : Broker nodes subscribed) : Prop where
  arrived : ∀ p, broker.arrived p = (nodes p).wire
  cut : ∀ p, ¬ frames.Ready (broker.rest p)
  ordered : ∀ p n, part p (broker.forwarded n) =
    ((broker.packets p).filterMap readPublish).filter (subscribed n)
  received : ∀ n, (nodes n).received = stream (broker.written n)
  synced : ∀ n, (nodes n).Synced

/-! ## The links -/

variable {M σ C E : Type} {P : Protocol N M σ C E} {encode : N → M → Content}
  {nodes : N → Session} {subscribed : N → Content → Bool}

/-- The sessions stand for this configuration: each has accepted the encodings of what its program
has published, and its callback has been given the encodings of what the program has handled. -/
structure Realizes (P : Protocol N M σ C E) (encode : N → M → Content) (nodes : N → Session)
    (c : Config N M σ) : Prop where
  published : ∀ p,
    (nodes p).published0.map Publish.content = (c.published p).map (encode p)
  handled : ∀ n, (qos0 (nodes n).delivered).map ResponsePublish.content =
    (c.handled n).map fun x => encode x.1 x.2
  inOrder : InOrder P c

/-- What the sessions and the messages they publish are asked for. -/
structure Publishes (P : Protocol N M σ C E) (encode : N → M → Content) (nodes : N → Session)
    (subscribed : N → Content → Bool) (messages : N → List M) : Prop where
  reached : ∀ n, ∃ entrySize sendbufsz recvbufsz,
    (nodes n).Reached entrySize sendbufsz recvbufsz
  unanswered : ∀ n, (nodes n).Unanswered
  published : ∀ p, (nodes p).published0.map Publish.content = (messages p).map (encode p)
  two : ∀ p, ∀ m ∈ messages p, 2 ≤ (encode p m).1.length + (encode p m).2.length
  subscribed : ∀ p n, ∀ m ∈ messages p, subscribed n (encode p m) = P.subscribed n m

namespace Broker

variable (broker : Broker nodes subscribed)

/-- What the packets of a publisher say that the broker has cut. -/
theorem read_packets {messages : N → List M} (h : Publishes P encode nodes subscribed messages)
    (p n : N) :
    ((broker.packets p).filterMap readPublish).filter (subscribed n) <+:
        ((messages p).filter (P.subscribed n)).map (encode p) ∧
      (broker.Through →
        ((broker.packets p).filterMap readPublish).filter (subscribed n) =
          ((messages p).filter (P.subscribed n)).map (encode p)) := by
  obtain ⟨entrySize, sendbufsz, recvbufsz, hreached⟩ := h.reached p
  have htwo : ∀ c ∈ (nodes p).published0.map Publish.content, 2 ≤ c.1.length + c.2.length := by
    intro c hc
    rw [h.published] at hc
    obtain ⟨m, hm, rfl⟩ := List.mem_map.mp hc
    exact h.two p m hm
  obtain ⟨hbegins, hall⟩ := hreached.sends (h.unanswered p) htwo
  obtain ⟨hpackets, hwhole⟩ := hreached.arrived (broker.arrived_wire p) (broker.cut p)
  have hfilter : ((messages p).filter (P.subscribed n)).map (encode p) =
      ((nodes p).published0.map Publish.content).filter (subscribed n) := by
    rw [h.published, List.filter_map]
    congr 1
    exact List.filter_congr fun m hm => (h.subscribed p n m hm).symm
  rw [hfilter]
  refine ⟨((hpackets.filterMap readPublish).trans hbegins).filter _, ?_⟩
  intro hthrough
  rw [hwhole (hthrough.arrived p) (hthrough.cut p), hall (hthrough.synced p).waiting]

theorem seen (n : N) (h : (nodes n).Reads) :
    ∃ seen, seen <+: broker.forwarded n ∧
      (qos0 (nodes n).delivered).map ResponsePublish.content = seen.map Prod.snd ∧
      (broker.Through → seen = broker.forwarded n) := by
  obtain ⟨hbegins, hall⟩ := h.told (broker.legal n) (broker.received n)
  rw [broker.content] at hbegins hall
  obtain ⟨later, hlater⟩ := hbegins
  obtain ⟨seen, unseen, hsplit, hseen, -⟩ := List.map_eq_append_iff.mp hlater.symm
  refine ⟨seen, ⟨unseen, hsplit.symm⟩, hseen.symm, ?_⟩
  intro hthrough
  have hlength := congrArg List.length (hall (hthrough.received n) (hthrough.synced n).caughtUp)
  rw [← hseen, List.length_map, List.length_map, hsplit, List.length_append] at hlength
  rw [hsplit, List.eq_nil_of_length_eq_zero (by omega : unseen.length = 0), List.append_nil]

theorem exists_handled {messages : N → List M}
    (h : Publishes P encode nodes subscribed messages) (n : N) :
    ∃ handled : List (N × M),
      (qos0 (nodes n).delivered).map ResponsePublish.content =
        handled.map (fun x => encode x.1 x.2) ∧
      (∀ p, part p handled <+: (messages p).filter (P.subscribed n)) ∧
      (broker.Through → ∀ p, part p handled = (messages p).filter (P.subscribed n)) := by
  obtain ⟨_, _, _, hreached⟩ := h.reached n
  obtain ⟨seen, hseen, hdelivered, hall⟩ := broker.seen n hreached.reads
  have hparts : ∀ p, part p seen <+: ((messages p).filter (P.subscribed n)).map (encode p) :=
    fun p => ((part_mono hseen p).trans (broker.ordered p n)).trans (broker.read_packets h p n).1
  obtain ⟨handled, hencode, hfirst⟩ := exists_decoded hparts
  refine ⟨handled, ?_, hfirst, ?_⟩
  · rw [hdelivered, ← hencode, List.map_map]
    rfl
  · intro hthrough p
    refine (hfirst p).eq_of_length ?_
    rw [← length_part_map encode, hencode, hall hthrough, hthrough.ordered,
      (broker.read_packets h p n).2 hthrough, List.length_map]

end Broker

/-- **The links deliver once and in order.** Whatever each session has been called with, however the
bytes are divided on the way and however the broker merges the publishers, the callbacks have been
given what a broker of `Lib.PubSub` would have: there is a configuration with the messages
published that the sessions stand for, and on each of its links what was handled and what is in
flight is what was published for it, in order.  When all has come through nothing is in flight. -/
theorem links_in_order (broker : Broker nodes subscribed) {messages : N → List M}
    (h : Publishes P encode nodes subscribed messages) (node : N → σ) :
    ∃ c : Config N M σ, c.node = node ∧ c.published = messages ∧ Realizes P encode nodes c ∧
      (broker.Through → ∀ p n, c.link p n = []) := by
  choose handled hdelivered hfirst hall using broker.exists_handled h
  let c : Config N M σ :=
    { node
      link := fun p n => ((messages p).filter (P.subscribed n)).drop (part p (handled n)).length
      published := messages
      handled }
  refine ⟨c, rfl, rfl, ⟨h.published, hdelivered, ?_⟩, ?_⟩
  · intro p n
    show part p (handled n) ++ _ = _
    exact (List.prefix_append_drop (hfirst n p)).symm
  · intro hthrough p n
    show ((messages p).filter _).drop _ = []
    rw [hall n hthrough p, List.drop_length]

/-! ## The four programs -/

def octets (str : CStr) : List Byte := str.map fun c => BitVec.ofNat 8 c.toNat

/-- A message as the programs hand it to `mqtt_publish`, with the NUL behind it. -/
def msgContent (m : Msg) : Content := (octets m.topic, octets m.payload ++ [0])

/-- What a node has subscribed to, by the bytes of the topic. -/
def subscribes (b : Boot) (n : Node) (c : Content) : Bool :=
  decide (c.1 ∈ (b.subscriptions n).map octets)

def connectPacket : List Byte :=
  [0x10, 0x0C, 0x00, 0x04, 0x4D, 0x51, 0x54, 0x54, 0x04, 0x02, 0x01, 0x90, 0x00, 0x00]

theorem exists_synced (calls : List Call) (recvs : List Recv) (P : Session → Prop) [DecidablePred P]
    (hshort : ∀ call ∈ calls, call.Short)
    (h : (mainRun calls).any (fun before =>
      (before.sync recvs (fun _ => 0) [100, 100] 0).any fun s =>
        s.client.error = none ∧ P s) = true) :
    ∃ s : Session, s.Synced ∧ s.Reached 40 2048 1024 ∧ P s := by
  obtain ⟨before, hbefore, hsync⟩ := (Option.any_eq_true ..).mp h
  obtain ⟨s, hs, hall⟩ := (Option.any_eq_true ..).mp hsync
  obtain ⟨herror, hP⟩ := of_decide_eq_true hall
  have hreached := reached_mainRun hshort hbefore
  exact ⟨s, ⟨herror, _, _, _, before, _, _, _, _, hreached, hs⟩, hreached.sync hs, hP⟩

/-- A command on its way from the command line to the controller. -/
theorem links_in_order_command :
    ∃ (nodes : Node → Session) (c : Sys),
      c.published .commandLine = [⟨Topic.controler, "ALL".toList⟩] ∧
      (nodes .kontroler).delivered.length = 1 ∧
      Realizes (protocol Boot.zero) (fun _ => msgContent) nodes c ∧ ∀ p n, c.link p n = [] := by
  let command : Msg := ⟨Topic.controler, "ALL".toList⟩
  let packet : List Byte := [0x30, 0x0F, 0x00, 0x09] ++ octets Topic.controler ++
    (octets "ALL".toList ++ [0])
  obtain ⟨sender, hsynced₁, hreached₁, hwire₁, hreceived₁, hunanswered₁, hpublished₁⟩ :=
    exists_synced [.publish (octets Topic.controler) (octets "ALL".toList ++ [0]) 0] []
      (fun s => s.wire = connectPacket ++ packet ∧ s.received = [] ∧ s.Unanswered ∧
        s.published0.map Publish.content = [msgContent command])
      (by decide) (by decide +kernel)
  obtain ⟨receiver, hsynced₂, hreached₂, hwire₂, hreceived₂, hunanswered₂, hpublished₂, hone⟩ :=
    exists_synced [] [.data packet]
      (fun s => s.wire = connectPacket ∧ s.received = packet ∧ s.Unanswered ∧
        s.published0.map Publish.content = [] ∧ s.delivered.length = 1)
      (by decide) (by decide +kernel)
  obtain ⟨idle, hsynced₃, hreached₃, hwire₃, hreceived₃, hunanswered₃, hpublished₃⟩ :=
    exists_synced [] []
      (fun s => s.wire = connectPacket ∧ s.received = [] ∧ s.Unanswered ∧
        s.published0.map Publish.content = [])
      (by decide) (by decide +kernel)
  let nodes : Node → Session
    | .commandLine => sender
    | .kontroler => receiver
    | _ => idle
  let messages : Node → List Msg
    | .commandLine => [command]
    | _ => []
  let packets : Node → List (List Byte)
    | .commandLine => [connectPacket, packet]
    | _ => [connectPacket]
  let written : Node → List (List Byte × Response)
    | .kontroler =>
        [(packet, .publish (.of (octets Topic.controler) 0 (octets "ALL".toList ++ [0]) 0))]
    | _ => []
  let forwarded : Node → List (Node × Content)
    | .kontroler => [(.commandLine, msgContent command)]
    | _ => []
  have hwire : ∀ p, (packets p).flatten = (nodes p).wire := by
    intro p
    cases p with
    | commandLine => exact hwire₁.symm
    | kontroler => exact hwire₂.symm
    | _ => exact hwire₃.symm
  have hreceived : ∀ n, (nodes n).received = stream (written n) := by
    intro n
    cases n with
    | commandLine => exact hreceived₁
    | kontroler => exact hreceived₂
    | _ => exact hreceived₃
  have hframes : ∀ p, ∀ g ∈ packets p, scanFrame g = .frame g g.length := by
    intro p
    cases p <;> decide +kernel
  have hcut : ∀ p, Parses frames (nodes p).wire (packets p) [] := by
    intro p
    have hparses : Parses frames ((packets p).flatMap id) ((packets p).map id) [] :=
      parses_flatMap (packets p) (hframes p)
    rw [List.map_id, List.flatMap_id, hwire] at hparses
    exact hparses
  have hordered : ∀ p n, part p (forwarded n) =
      ((packets p).filterMap readPublish).filter (subscribes Boot.zero n) := by
    intro p n
    cases p <;> cases n <;> decide +kernel
  have hlegal : ∀ n, ∀ b ∈ written n, unpackResponse b.1 = .frame b.2 b.1.length := by
    intro n
    cases n <;> decide +kernel
  let broker : Broker nodes (subscribes Boot.zero) :=
    { arrived := fun p => (nodes p).wire
      packets
      rest := fun _ => []
      forwarded
      written
      arrived_wire := fun p => List.prefix_refl _
      cut := hcut
      ordered := fun p n => (hordered p n) ▸ List.prefix_refl _
      legal := hlegal
      content := fun n => by cases n <;> rfl
      received := fun n => hreceived n ▸ List.prefix_refl _ }
  have hthrough : broker.Through :=
    { arrived := fun p => rfl
      cut := fun p => by
        rintro ⟨packet, n, hscan, -⟩
        cases hscan
      ordered := hordered
      received := hreceived
      synced := fun n => by
        cases n with
        | commandLine => exact hsynced₁
        | kontroler => exact hsynced₂
        | _ => exact hsynced₃ }
  have hpublishes : Publishes (protocol Boot.zero) (fun _ => msgContent) nodes
      (subscribes Boot.zero) messages :=
    { reached := fun n => by
        cases n with
        | commandLine => exact ⟨_, _, _, hreached₁⟩
        | kontroler => exact ⟨_, _, _, hreached₂⟩
        | _ => exact ⟨_, _, _, hreached₃⟩
      unanswered := fun n => by
        cases n with
        | commandLine => exact hunanswered₁
        | kontroler => exact hunanswered₂
        | _ => exact hunanswered₃
      published := fun n => by
        cases n with
        | commandLine => exact hpublished₁
        | kontroler => exact hpublished₂
        | _ => exact hpublished₃
      two := fun p => by cases p <;> decide +kernel
      subscribed := fun p n => by cases p <;> cases n <;> decide +kernel }
  obtain ⟨c, -, hmessages, hrealizes, hempty⟩ := links_in_order broker hpublishes Boot.zero.table
  refine ⟨nodes, c, ?_, hone, hrealizes, hempty hthrough⟩
  rw [hmessages]

end SmartHome.Mqtt
