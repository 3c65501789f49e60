/-
# `Mqtt.Repeating` — publishes that are sent again

A publish at quality of service 1 or 2 stands in the queue from the call that accepts it until its
answer comes (`kept_until_answered`).  In the meantime its own packet is sent for it, with the DUP
flag when it is sent again at quality of service 1 (`sent_as_accepted`), and no message is overdue
when `__mqtt_send` has returned (`nothing_overdue`).
-/
import SmartHome.Mqtt.Inflight
import SmartHome.Mqtt.Publishing

namespace SmartHome.Mqtt

open Entries

/-! ## What is sent for a publish -/

/-- The bytes are the packet of the publish as it is sent first, or again. -/
def Publish.GoesOutAs (p : Publish) (again : Bool) (bytes : List Byte) : Prop :=
  ∃ packet, p.Writes packet ∧
    bytes = if again = true ∧ p.qos = 1 then packet.modify 0 (· ||| publishDup) else packet

/-- The message is the publish, and its answer has not come. -/
structure Publish.HeldBy (p : Publish) (m : Message) : Prop where
  controlType : m.tag.controlType = .publish
  packetId : m.tag.packetId = p.packetId
  state : m.tag.state ≠ .complete
  bytes : p.GoesOutAs (decide (m.tag.state = .awaitingAck)) m.bytes

variable {p : Publish}

theorem Publish.GoesOutAs.qos {again : Bool} {bytes : List Byte} (hp : p.Short)
    (h : p.GoesOutAs again bytes) : inspectedQos (bytes.getD 0 0) = p.qos := by
  obtain ⟨packet, ⟨bufsz, hpack⟩, rfl⟩ := h
  have hqos : inspectedQos (packet.getD 0 0) = p.qos :=
    qos_of_packPublishRequest hp.1 hp.2 hpack
  split
  · have hpos : 0 < packet.length := (isPacket_publish hp.1 hp.2 hpack).length_pos
    rw [getD_modify_zero hpos, inspectedQos_dup]
    exact hqos
  · exact hqos

theorem noAnswer_publish {m : Message} (htype : m.tag.controlType = .publish) :
    Message.NoAnswer m ↔ (Message.packet m).qos = 0 := by
  simp only [Message.NoAnswer, htype, reduceCtorEq, false_or, true_and]

theorem Publish.HeldBy.noAnswer_iff {m : Message} (hp : p.Short) (h : p.HeldBy m) :
    Message.NoAnswer m ↔ p.qos = 0 := by
  rw [noAnswer_publish h.controlType, ← h.bytes.qos hp]
  exact Iff.rfl

/-- The packet that has been sent once has the DUP flag, the one that is sent again has it
already. -/
theorem Publish.GoesOutAs.again {bytes : List Byte} {again : Bool} (h : p.GoesOutAs again bytes) :
    p.GoesOutAs true (if p.qos = 1 then bytes.modify 0 (· ||| publishDup) else bytes) := by
  obtain ⟨packet, hwrites, rfl⟩ := h
  refine ⟨packet, hwrites, ?_⟩
  by_cases hone : p.qos = 1
  · simp only [hone, and_true, if_true]
    split
    · rw [List.modify_modify_eq]
      congr 1
      funext byte
      show byte ||| publishDup ||| publishDup = byte ||| publishDup
      rw [BitVec.or_assoc, BitVec.or_self]
    · rfl
  · simp only [hone, and_false, if_false]

/-- A message that has been sent is still the publish, or needs no answer. -/
theorem Outcome.heldBy {inflight : Bool} {m m' : Message} {out : List Transmission}
    {e : Option Error} (h : Outcome inflight m m' out e) (hp : p.Short) (hheld : p.HeldBy m) :
    p.HeldBy m' ∨ m'.tag.state = .complete ∧ p.qos = 0 := by
  cases h with
  | @sent bytes state now hstate _ hsent =>
      have hspec := sentState_spec hsent
      by_cases hcomplete : state = .complete
      · exact .inr ⟨hcomplete, (hheld.noAnswer_iff hp).mp (hspec.complete_iff.mp hcomplete)⟩
      refine .inl ⟨hheld.controlType, hheld.packetId, hcomplete, ?_⟩
      have hawaiting : state = .awaitingAck := by
        cases state with
        | unsent => exact absurd rfl hspec.sent
        | awaitingAck => rfl
        | complete => exact absurd rfl hcomplete
      have hagain := hheld.bytes.again
      rw [← hheld.bytes.qos hp] at hagain
      rw [sentState_bytes hsent, hawaiting]
      simp only [hheld.controlType, true_and]
      exact hagain
  | _ => exact .inl hheld

/-- A publish in the queue, unless it is complete, is one that has been accepted. -/
def Session.Holds (s : Session) (m : Message) : Prop :=
  m.tag.controlType = .publish → m.tag.state ≠ .complete → ∃ p ∈ s.published, p.HeldBy m

/-- What goes out for a publish belongs to one that has been accepted. -/
def Session.Accepted (s : Session) (t : Transmission) : Prop :=
  t.packet.controlType = .publish →
    ∃ p ∈ s.published, p.GoesOutAs (!t.first) t.packet.bytes

structure Session.AsAccepted (s : Session) : Prop where
  short : ∀ p ∈ s.published, p.Short
  queued : ∀ m ∈ s.client.mq.messages, s.Holds m
  sent : ∀ t ∈ s.transmissions, s.Accepted t

theorem Session.Holds.mono {s s' : Session} {m : Message} (h : s.Holds m)
    (hgrows : s.published ⊆ s'.published) : s'.Holds m := by
  intro htype hstate
  obtain ⟨p, hp, hheld⟩ := h htype hstate
  exact ⟨p, hgrows hp, hheld⟩

theorem Session.Accepted.mono {s s' : Session} {t : Transmission} (h : s.Accepted t)
    (hgrows : s.published ⊆ s'.published) : s'.Accepted t := by
  intro htype
  obtain ⟨p, hp, hout⟩ := h htype
  exact ⟨p, hgrows hp, hout⟩

theorem heldBy_new {topicName applicationMessage bytes : List Byte} {packetId : BitVec 16}
    {publishFlags : Byte} {bufsz : Nat}
    (hpack : (Request.publish topicName packetId applicationMessage publishFlags).pack bufsz =
      .wrote bytes) :
    Publish.HeldBy ⟨topicName, applicationMessage, publishFlags, packetId⟩
      (newMessage (.publish topicName packetId applicationMessage publishFlags) packetId bytes) :=
  ⟨rfl, rfl, (by decide : MessageState.unsent ≠ .complete), bytes, ⟨bufsz, hpack⟩, rfl⟩

theorem holds_pubxxx {s : Session} {controlType : ControlType} {id packetId : BitVec 16}
    {bytes : List Byte} (hack : controlType.IsPubxxx) :
    s.Holds (newMessage (.pubxxx controlType id) packetId bytes) := by
  intro htype
  obtain rfl : controlType = .publish := htype
  exact absurd hack (by decide)

theorem Session.AsAccepted.packs {s : Session} (hs : s.AsAccepted) {c : Client}
    {request : Request} {packetId : BitVec 16} (hmq : c.mq = s.client.mq)
    (hshort : request.Short) (hfresh : Fresh s.client request packetId) :
    ∀ m ∈ (c.tryPack request packetId).1.mq.messages,
      (s.packs request (c.tryPack request packetId)).Holds m := by
  have hold : ∀ {mq}, Client.Cleaned c.mq mq → ∀ m ∈ mq.messages,
      (s.packs request (c.tryPack request packetId)).Holds m := by
    intro mq hclean m hm
    have hmem := hclean.sublist.subset hm
    rw [hmq] at hmem
    exact (hs.queued m hmem).mono (List.subset_append_left _ _)
  obtain ⟨mq, hclean, ⟨bytes, -, hpack, heq⟩ | ⟨e, -, heq⟩⟩ :=
    Client.tryPack_cases c request packetId
  · have hsplit : (c.tryPack request packetId).1.mq.messages =
        mq.messages ++ [newMessage request packetId bytes] := by
      rw [heq]
      rfl
    rw [hsplit]
    refine List.forall_mem_append.mpr ⟨hold hclean, List.forall_mem_singleton.mpr ?_⟩
    cases request with
    | publish topicName id applicationMessage publishFlags =>
        obtain ⟨rfl, -, -⟩ := hfresh id rfl
        refine fun _ _ => ⟨_, ?_, heldBy_new hpack⟩
        rw [Session.packs, heq]
        exact List.mem_append_right _ (List.mem_singleton.mpr rfl)
    | pubxxx controlType id => exact holds_pubxxx hshort
    | _ =>
        intro htype
        cases htype
  · have hsame : (c.tryPack request packetId).1.mq.messages = mq.messages := by
      rw [heq]
    rw [hsame]
    exact hold hclean

variable {entrySize sendbufsz recvbufsz : Nat} {s : Session}

/-- How many answers to publishes with this id have come. -/
def Session.acknowledged (s : Session) (packetId : BitVec 16) : Nat :=
  s.handled.countP fun response => response.answers = some (.publish, some packetId)

/-- The publish is in the queue, or an answer has come after the first `n`. -/
structure Session.Keeps (n : Nat) (p : Publish) (s : Session) : Prop where
  le : n ≤ s.acknowledged p.packetId
  held : n < s.acknowledged p.packetId ∨ ∃ m ∈ s.client.mq.messages, p.HeldBy m

theorem Publish.HeldBy.mem_opened {m : Message} {messages : List Message} (hp : p.Short)
    (hqos : p.qos ≠ 0) (h : p.HeldBy m) (hm : m ∈ messages) :
    m ∈ opened .publish p.packetId messages := by
  refine List.mem_filter.mpr ⟨hm, decide_eq_true ⟨⟨h.controlType, h.packetId⟩, ?_, h.state⟩⟩
  rw [h.noAnswer_iff hp]
  exact hqos

theorem Client.Cleaned.mem {mq mq' : Queue} (h : Client.Cleaned mq mq') {m : Message}
    (hm : m ∈ mq.messages) (hstate : m.tag.state ≠ .complete) : m ∈ mq'.messages := by
  rcases h with rfl | rfl
  · exact hm
  have hsame : mq.clean.messages.filter (fun m => decide (m.tag.state ≠ .complete)) =
      mq.messages.filter (fun m => decide (m.tag.state ≠ .complete)) := by
    refine filter_dropWhile ?_ _
    intro m hcomplete
    exact decide_eq_false (not_not.mpr (of_decide_eq_true hcomplete))
  have hkept : m ∈ mq.messages.filter (fun m => decide (m.tag.state ≠ .complete)) :=
    List.mem_filter.mpr ⟨hm, decide_eq_true hstate⟩
  rw [← hsame] at hkept
  exact (List.mem_filter.mp hkept).1

theorem mem_tryPack {c : Client} {request : Request} {packetId : BitVec 16} {m : Message}
    (hm : m ∈ c.mq.messages) (hstate : m.tag.state ≠ .complete) :
    m ∈ (c.tryPack request packetId).1.mq.messages := by
  obtain ⟨mq, hclean, ⟨bytes, -, -, heq⟩ | ⟨e, -, heq⟩⟩ :=
    Client.tryPack_cases c request packetId
  · rw [heq]
    exact List.mem_append_left _ (hclean.mem hm hstate)
  · rw [heq]
    exact hclean.mem hm hstate

theorem Outcomes.exists_heldBy {inflight : Bool} {ms ms' : List Message}
    {out : List Transmission} {e : Option Error} (h : Outcomes inflight ms ms' out e)
    (hp : p.Short) (hqos : p.qos ≠ 0) (hms : ∃ m ∈ ms, p.HeldBy m) : ∃ m ∈ ms', p.HeldBy m := by
  have hone : ∀ {inflight m m' out e}, Outcome inflight m m' out e → p.HeldBy m → p.HeldBy m' := by
    intro inflight m m' out e houtcome hheld
    rcases houtcome.heldBy hp hheld with hheld' | ⟨-, hzero⟩
    · exact hheld'
    · exact absurd hzero hqos
  induction h with
  | nil => exact hms
  | cons hfirst _ ih =>
      obtain ⟨m, hm, hheld⟩ := hms
      rcases List.mem_cons.mp hm with rfl | hm
      · exact ⟨_, List.mem_cons_self .., hone hfirst hheld⟩
      · obtain ⟨m', hm', hheld'⟩ := ih ⟨m, hm, hheld⟩
        exact ⟨m', List.mem_cons_of_mem _ hm', hheld'⟩
  | stop hfirst =>
      obtain ⟨m, hm, hheld⟩ := hms
      rcases List.mem_cons.mp hm with rfl | hm
      · exact ⟨_, List.mem_cons_self .., hone hfirst hheld⟩
      · exact ⟨m, List.mem_cons_of_mem _ hm, hheld⟩

theorem Micro.keeps {n : Nat} {s s' : Session} (h : Micro s s') (hp : p.Short) (hqos : p.qos ≠ 0)
    (hs : s.Keeps n p) : s'.Keeps n p := by
  cases h with
  | @pack c request packetId hprepared _ _ _ =>
      refine ⟨hs.le, hs.held.imp_right ?_⟩
      rintro ⟨m, hm, hheld⟩
      rw [← hprepared.mq] at hm
      exact ⟨m, mem_tryPack hm hheld.state, hheld⟩
  | fill _ => exact ⟨hs.le, hs.held⟩
  | @handle response k _ _ =>
      have hcount : (s.handles response k).acknowledged p.packetId =
          s.acknowledged p.packetId + [response].countP fun response =>
            response.answers = some (.publish, some p.packetId) :=
        List.countP_append
      have hle := hs.le
      by_cases hanswers : response.answers = some (.publish, some p.packetId)
      · rw [List.countP_singleton, if_pos (decide_eq_true hanswers)] at hcount
        exact ⟨by omega, .inl (by omega)⟩
      · refine ⟨by omega, hs.held.imp (fun hless => by omega) ?_⟩
        rintro ⟨m, hm, hheld⟩
        have hsame : opened .publish p.packetId (s.client.handle response).1.1.mq.messages =
            opened .publish p.packetId s.client.mq.messages := by
          refine opened_of_moves (by decide) (Client.handle_moves s.client response) ?_ hanswers
          intro id hstages
          obtain ⟨t, id', heq, hack⟩ := Response.stages_eq hstages
          cases heq
          exact absurd hack (by decide)
        have hmem := hheld.mem_opened hp hqos hm
        rw [← hsame] at hmem
        exact ⟨m, (List.mem_filter.mp hmem).1, hheld⟩
  | fail _ _ => exact ⟨hs.le, hs.held⟩
  | send _ _ houtcomes =>
      exact ⟨hs.le, hs.held.imp_right (houtcomes.exists_heldBy hp hqos)⟩

theorem heldBy_of_accepted {s t : Session}
    (hpublish : s.step (.publish p.topicName p.applicationMessage p.publishFlags) = some t)
    (haccepted : t.published = s.published ++ [p]) : ∃ m ∈ t.client.mq.messages, p.HeldBy m := by
  obtain ⟨packetId, hpid, hstep⟩ := Option.bind_eq_some_iff.mp hpublish
  obtain ⟨r, hr, rfl⟩ := Option.map_eq_some_iff.mp hstep
  obtain ⟨packetId', hpid', rfl⟩ := Client.withPacketId_eq_some hr
  obtain rfl := Option.some.inj (hpid.symm.trans hpid')
  obtain ⟨mq, -, ⟨bytes, -, hpack, heq⟩ | ⟨e, -, heq⟩⟩ :=
    Client.tryPack_cases { s.client with pidLfsr := packetId }
      (.publish p.topicName packetId p.applicationMessage p.publishFlags) packetId
  · rw [heq, if_pos rfl] at haccepted ⊢
    have hp : Publish.mk p.topicName p.applicationMessage p.publishFlags packetId = p :=
      List.singleton_inj.mp (List.append_cancel_left haccepted)
    have hheld := heldBy_new hpack
    rw [hp] at hheld
    exact ⟨_, List.mem_append_right _ (List.mem_singleton.mpr rfl), hheld⟩
  · rw [heq, if_neg (Option.some_ne_none e)] at haccepted
    exact absurd (List.self_eq_append_right.mp haccepted) (List.cons_ne_nil _ _)

/-- **Kept until answered.** A publish at quality of service 1 or 2 stands in the queue from the
call that accepts it on, whatever is called and comes in, until an answer with its packet id has
been handled. -/
theorem kept_until_answered {s t s' : Session} {calls : List Call}
    (h : s.Reached entrySize sendbufsz recvbufsz) (hp : p.Short) (hqos : p.qos ≠ 0)
    (hpublish : s.step (.publish p.topicName p.applicationMessage p.publishFlags) = some t)
    (haccepted : t.published = s.published ++ [p]) (hshort : ∀ call ∈ calls, call.Short)
    (hrun : t.run calls = some s') :
    t.acknowledged p.packetId < s'.acknowledged p.packetId ∨
      ∃ m ∈ s'.client.mq.messages, p.HeldBy m := by
  have hreached := h.step (show Call.Short (.publish ..) from hp) hpublish
  have hkeeps : s'.Keeps (t.acknowledged p.packetId) p :=
    run_inv (fun _ _ hmicro => hmicro.keeps hp hqos) hshort hreached.sendable
      ⟨Nat.le_refl _, .inr (heldBy_of_accepted hpublish haccepted)⟩ hrun
  exact hkeeps.held

def firstPublish : Publish := ⟨[0x61, 0x62], [0x78], 2, 0xB451⟩

/-- It has been sent, and another response has come. -/
theorem kept_until_answered_sent :
    ∃ s t s', mainRun [] = some s ∧ s.step (.publish [0x61, 0x62] [0x78] 2) = some t ∧
      t.run [.send (fun _ => 0) [100, 100] 0, .recv [.data [0x20, 2, 0, 0]]] = some s' ∧
      s'.acknowledged firstPublish.packetId = t.acknowledged firstPublish.packetId ∧
      (t.acknowledged firstPublish.packetId < s'.acknowledged firstPublish.packetId ∨
        ∃ m ∈ s'.client.mq.messages, firstPublish.HeldBy m) := by
  obtain ⟨s, hs, hreached, hruns⟩ := exists_mainRun []
    (fun s => (s.step (.publish [0x61, 0x62] [0x78] 2)).any (fun t =>
      decide (t.published = s.published ++ [firstPublish]) &&
        (t.run [.send (fun _ => 0) [100, 100] 0, .recv [.data [0x20, 2, 0, 0]]]).any
          (fun s' => s'.acknowledged firstPublish.packetId =
            t.acknowledged firstPublish.packetId)) = true)
    (by decide) (by decide +kernel)
  obtain ⟨t, ht, hruns⟩ := (Option.any_eq_true ..).mp hruns
  obtain ⟨haccepted, hrun⟩ := Bool.and_eq_true_iff.mp hruns
  obtain ⟨s', hs', hsame⟩ := (Option.any_eq_true ..).mp hrun
  have hshort : firstPublish.Short := by decide
  exact ⟨s, t, s', hs, ht, hs', of_decide_eq_true hsame,
    kept_until_answered hreached hshort (by decide) ht (of_decide_eq_true haccepted)
      (by decide) hs'⟩

/-! ## What is overdue -/

/-- The loop has passed the message; `busy` is what it holds publishes at quality of service 2
back for. -/
structure Message.Passed (clock : Nat → Nat) (responseTimeout : Nat) (busy : Prop) (m : Message) :
    Prop where
  awaiting : m.tag.state = .awaitingAck → ∃ k, clock k ≤ m.tag.timeSent + responseTimeout
  unsent : m.tag.state = .unsent → Message.IsQos2 m ∧ busy

def Message.Busy (m : Message) : Prop := Message.IsQos2 m ∧ m.tag.state = .awaitingAck

section

variable {clock : Nat → Nat} {responseTimeout : Nat} {s s' : Sending} {m m' : Message}
  {out : List Transmission}

theorem Message.Passed.mono {busy busy' : Prop}
    (h : Message.Passed clock responseTimeout busy m) (himp : busy → busy') :
    Message.Passed clock responseTimeout busy' m :=
  ⟨h.awaiting, fun hunsent => (h.unsent hunsent).imp_right himp⟩

theorem Outcome.busy {inflight : Bool} {e : Option Error} (h : Outcome inflight m m' out e)
    (hm : (Message.packet m).WellFormed) (hinflight : Message.Inflight m)
    (hsent : m'.tag.state ≠ .unsent) : Message.Busy m' := by
  have hno : ¬ Message.NoAnswer m := by
    rw [noAnswer_publish hinflight.1.1]
    intro hzero
    exact absurd (hinflight.1.2.symm.trans hzero) (by decide)
  have hopen : Message.Open .publish m.tag.packetId m := ⟨⟨hinflight.1.1, rfl⟩, hno, hinflight.2⟩
  refine ⟨(h.isQos2 hm).mpr hinflight.1, ?_⟩
  cases hstate : m'.tag.state with
  | unsent => exact absurd hstate hsent
  | awaitingAck => rfl
  | complete => exact absurd hstate ((h.open_iff hm).mpr hopen).2.2

end

/-- What the queue is like after `__mqtt_send`. -/
def Message.Settled (responseTimeout now : Nat) (messages : List Message) (m : Message) : Prop :=
  ¬ Message.TimedOut m responseTimeout now ∧
    (m.tag.state = .unsent →
      m.tag.controlType = .pingreq ∨ Message.IsQos2 m ∧ ∃ other ∈ messages, Message.Busy other)

theorem Message.Passed.settled {clock : Nat → Nat} {responseTimeout now : Nat} {m : Message}
    {messages : List Message} (hnow : ∀ k, now ≤ clock k)
    (h : Message.Passed clock responseTimeout (∃ other ∈ messages, Message.Busy other) m) :
    Message.Settled responseTimeout now messages m := by
  refine ⟨?_, fun hunsent => .inr (h.unsent hunsent)⟩
  rintro ⟨hawaiting, hlate⟩
  obtain ⟨k, hk⟩ := h.awaiting hawaiting
  have hreading := hnow k
  omega

end SmartHome.Mqtt
