/-
# `Mqtt.Inflight` — answers and packet ids

What holds between the messages in the queue: of two that are answered by type and packet id no
two have the same ones, so that an answer is for one message (`answer_unambiguous`), and of the
publishes at quality of service 2 at most one awaits its answer (`one_inflight`).  A publish that
comes in at quality of service 2 is given to the callback once (`delivered_once`).
-/
import SmartHome.Mqtt.Outgoing

namespace SmartHome.Mqtt

open Entries

/-! ## Pairs of messages -/

/-- A relation between earlier and later messages that registering, releasing and sending keep. -/
structure KeptPairs (R : Message → Message → Prop) : Prop where
  completed_left : ∀ {a b : Message}, R a b → R (Message.completed a) b
  completed_right : ∀ {a b : Message}, R a b → R a (Message.completed b)
  sent : ∀ {ms ms' : List Message} {out : List Transmission} {e : Option Error},
    Outcomes false ms ms' out e → (∀ m ∈ ms, (Message.packet m).WellFormed) →
    ms.Pairwise R → ms'.Pairwise R

variable {R : Message → Message → Prop}

theorem Client.Starts.pairwise {entrySize sendbufsz recvbufsz : Nat} {client : Client}
    (h : client.Starts entrySize sendbufsz recvbufsz) : client.mq.messages.Pairwise R := by
  rw [h.messages]
  exact .nil

theorem Client.tryPack_pairwise {c : Client} {request : Request} {packetId : BitVec 16}
    (hc : c.mq.messages.Pairwise R)
    (hnew : ∀ a ∈ c.mq.messages, ∀ bytes, R a (newMessage request packetId bytes)) :
    (c.tryPack request packetId).1.mq.messages.Pairwise R := by
  obtain ⟨mq, hclean, ⟨bytes, -, -, heq⟩ | ⟨e, -, heq⟩⟩ := Client.tryPack_cases c request packetId
  · rw [heq]
    refine List.pairwise_append.mpr ⟨hc.sublist hclean.sublist, List.pairwise_singleton _ _, ?_⟩
    intro a ha b hb
    rw [List.mem_singleton.mp hb]
    exact hnew a (hclean.sublist.subset ha) bytes
  · rw [heq]
    exact hc.sublist hclean.sublist

theorem Client.release_pairwise (hkept : KeptPairs R) {c : Client} (hc : c.mq.messages.Pairwise R)
    (controlType : ControlType) (packetId : Option (BitVec 16)) :
    (c.release controlType packetId).1.mq.messages.Pairwise R := by
  unfold release
  cases c.mq.find controlType packetId with
  | none => exact hc
  | some i =>
      exact pairwise_modify hc (fun _ _ h => hkept.completed_left h)
        fun _ _ h => hkept.completed_right h

theorem Client.Moves.pairwise (hkept : KeptPairs R) {ok : Request → Prop}
    {rel : ControlType → Option (BitVec 16) → Prop} {c c' : Client}
    (hnew : ∀ a request packetId bytes, ok request → R a (newMessage request packetId bytes))
    (h : Client.Moves ok rel c c') (hc : c.mq.messages.Pairwise R) :
    c'.mq.messages.Pairwise R := by
  induction h with
  | refl => exact hc
  | tail _ hmove ih =>
      cases hmove with
      | fail hmq _ => exact ih.sublist hmq.sublist
      | register hok _ hmq _ =>
          refine List.pairwise_append.mpr
            ⟨ih.sublist hmq.sublist, List.pairwise_singleton _ _, ?_⟩
          intro a _ b hb
          rw [List.mem_singleton.mp hb]
          exact hnew a _ _ _ hok
      | release _ _ =>
          exact pairwise_modify ih (fun _ _ h => hkept.completed_left h)
            fun _ _ h => hkept.completed_right h

/-! ## One publish at quality of service 2 at a time -/

/-- The second one has not been sent as long as the first one is not complete. -/
def AfterInflight (a b : Message) : Prop :=
  Message.Inflight a → Message.IsQos2 b → b.tag.state ≠ .awaitingAck

theorem Outcome.isQos2 {inflight : Bool} {m m' : Message} {out : List Transmission}
    {e : Option Error} (h : Outcome inflight m m' out e) (hm : (Message.packet m).WellFormed) :
    Message.IsQos2 m' ↔ Message.IsQos2 m := by
  cases h with
  | sent _ _ hstate =>
      have hqos := (sentState_spec hstate).qos hm
      exact ⟨fun h => ⟨h.1, hqos.symm.trans h.2⟩, fun h => ⟨h.1, hqos.trans h.2⟩⟩
  | _ => exact Iff.rfl

theorem Outcome.inflight {inflight : Bool} {m m' : Message} {out : List Transmission}
    {e : Option Error} (h : Outcome inflight m m' out e) (hm : (Message.packet m).WellFormed)
    (hm' : Message.Inflight m') : Message.Inflight m := by
  refine ⟨(h.isQos2 hm).mp hm'.1, ?_⟩
  cases h with
  | sent hstate _ _ => exact hstate
  | _ => exact hm'.2

/-- The loop sends a publish at quality of service 2 when no other one stands before it. -/
theorem Outcomes.afterInflight {inflight : Bool} {ms ms' : List Message}
    {out : List Transmission} {e : Option Error} (h : Outcomes inflight ms ms' out e)
    (hformed : ∀ m ∈ ms, (Message.packet m).WellFormed)
    (hms : ms.Pairwise AfterInflight)
    (hbefore : inflight = true → ∀ m ∈ ms, Message.IsQos2 m → m.tag.state ≠ .awaitingAck) :
    ms'.Pairwise AfterInflight ∧
      (inflight = true → ∀ m ∈ ms', Message.IsQos2 m → m.tag.state ≠ .awaitingAck) := by
  have hkeep : ∀ {inflight m m' out e}, Outcome inflight m m' out e →
      (Message.packet m).WellFormed → inflight = true →
      (Message.IsQos2 m → m.tag.state ≠ .awaitingAck) →
      Message.IsQos2 m' → m'.tag.state ≠ .awaitingAck := by
    intro inflight m m' out e hone hm htrue hnot hqos2
    have hsame := (hone.isQos2 hm).mp
    cases hone with
    | skip _ => exact hnot hqos2
    | failed _ _ _ _ => exact hnot hqos2
    | sent hstate hheld hsent =>
        -- it would have been held back
        exact absurd ⟨⟨hsame hqos2, hstate⟩, htrue⟩ hheld
  induction h with
  | nil => exact ⟨hms, hbefore⟩
  | @cons inflight m m' ms ms' out outs e hone _ ih =>
      obtain ⟨hm, hformed⟩ := List.forall_mem_cons.mp hformed
      obtain ⟨hfirst, hms⟩ := List.pairwise_cons.mp hms
      have hrest : (inflight || decide (Message.Inflight m)) = true →
          ∀ b ∈ ms, Message.IsQos2 b → b.tag.state ≠ .awaitingAck := by
        intro htrue b hb
        rcases Bool.or_eq_true_iff.mp htrue with htrue | htrue
        · exact (List.forall_mem_cons.mp (hbefore htrue)).2 b hb
        · exact hfirst b hb (of_decide_eq_true htrue)
      obtain ⟨hpairs, hafter⟩ := ih hformed hms hrest
      refine ⟨.cons ?_ hpairs, ?_⟩
      · intro b hb hinflight
        have htrue := decide_eq_true (hone.inflight hm hinflight)
        exact hafter (by rw [htrue, Bool.or_true]) b hb
      · intro htrue
        refine List.forall_mem_cons.mpr ⟨?_, hafter (by rw [htrue, Bool.true_or])⟩
        exact hkeep hone hm htrue (List.forall_mem_cons.mp (hbefore htrue)).1
  | @stop inflight m m' ms out e hone =>
      obtain ⟨hfirst, hms⟩ := List.pairwise_cons.mp hms
      cases hone
      exact ⟨.cons hfirst hms, hbefore⟩

theorem keptPairs_afterInflight : KeptPairs AfterInflight where
  completed_left := fun _ hinflight => absurd rfl hinflight.2
  completed_right := fun _ _ _ => (by decide : MessageState.complete ≠ .awaitingAck)
  sent := fun houtcomes hformed hms =>
    (houtcomes.afterInflight hformed hms nofun).1

theorem afterInflight_new (a : Message) (request : Request) (packetId : BitVec 16)
    (bytes : List Byte) : AfterInflight a (newMessage request packetId bytes) :=
  fun _ _ => (by decide : MessageState.unsent ≠ .awaitingAck)

theorem Micro.afterInflight {s s' : Session} (h : Micro s s') (hs : s.Wired)
    (hpairs : s.client.mq.messages.Pairwise AfterInflight) :
    s'.client.mq.messages.Pairwise AfterInflight := by
  cases h with
  | @pack c request packetId hprepared _ _ _ =>
      rw [← hprepared.mq] at hpairs
      exact Client.tryPack_pairwise hpairs fun a _ => afterInflight_new a request packetId
  | fill _ => exact hpairs
  | @handle response n _ _ =>
      show (s.client.handle response).1.1.mq.messages.Pairwise AfterInflight
      exact (Client.handle_moves s.client response).pairwise keptPairs_afterInflight
        (fun a request packetId bytes _ => afterInflight_new a request packetId bytes) hpairs
  | fail _ _ => exact hpairs
  | send _ _ houtcomes =>
      exact keptPairs_afterInflight.sent houtcomes hs.wellFormed hpairs

variable {entrySize sendbufsz recvbufsz : Nat} {s : Session}

theorem Session.Reached.afterInflight (h : s.Reached entrySize sendbufsz recvbufsz) :
    s.client.mq.messages.Pairwise AfterInflight := by
  have hpairs : s.Wired ∧ s.client.mq.messages.Pairwise AfterInflight :=
    h.inv (I := fun s => s.Wired ∧ s.client.mq.messages.Pairwise AfterInflight)
      (fun _ _ hmicro hs => ⟨hmicro.wired hs.1, hmicro.afterInflight hs.1 hs.2⟩)
      fun _ hstarts => ⟨hstarts.wired, hstarts.pairwise⟩
  exact hpairs.2

/-- **One at a time.** In no run do two publishes at quality of service 2 await their answers. -/
theorem one_inflight (h : s.Reached entrySize sendbufsz recvbufsz) :
    (s.client.mq.messages.filter fun m =>
      Message.IsQos2 m ∧ m.tag.state = .awaitingAck).length ≤ 1 := by
  refine length_filter_le_one h.afterInflight ?_
  intro a b ha hb hafter
  obtain ⟨ha, hawait⟩ := of_decide_eq_true ha
  obtain ⟨hb, hawait'⟩ := of_decide_eq_true hb
  exact hafter ⟨ha, by rw [hawait]; decide⟩ hb hawait'

/-- Of two publishes at quality of service 2 one waits for the other. -/
theorem one_inflight_two :
    ∃ s, mainRun [.publish [0x61, 0x62] [0x78] 4, .publish [0x61, 0x62] [0x79] 4,
        .send (fun _ => 0) [100, 100, 100] 0] = some s ∧
      (s.client.mq.messages.filter fun m => Message.IsQos2 m).length = 2 ∧
      (s.client.mq.messages.filter fun m =>
        Message.IsQos2 m ∧ m.tag.state = .awaitingAck).length ≤ 1 := by
  obtain ⟨s, hs, hreached, htwo⟩ :=
    exists_mainRun [.publish [0x61, 0x62] [0x78] 4, .publish [0x61, 0x62] [0x79] 4,
        .send (fun _ => 0) [100, 100, 100] 0]
      (fun s => (s.client.mq.messages.filter fun m => Message.IsQos2 m).length = 2)
      (by decide) (by decide +kernel)
  exact ⟨s, hs, htwo, one_inflight hreached⟩

/-! ## Answers -/

/-- An answer to the one is no answer to the other. -/
def OtherId (a b : Message) : Prop :=
  b.tag.controlType.HasId → a.tag.controlType = b.tag.controlType →
    a.tag.packetId ≠ b.tag.packetId

theorem Outcomes.forall₂ {inflight : Bool} {ms ms' : List Message} {out : List Transmission}
    {e : Option Error} (h : Outcomes inflight ms ms' out e) :
    List.Forall₂ (fun m m' : Message => m'.tag.controlType = m.tag.controlType ∧
      m'.tag.packetId = m.tag.packetId) ms ms' := by
  induction h with
  | nil => exact .nil
  | cons hone _ ih => exact .cons hone.status_eq ih
  | stop hone => exact .cons hone.status_eq (List.forall₂_same.mpr fun _ _ => ⟨rfl, rfl⟩)

theorem keptPairs_otherId : KeptPairs OtherId where
  completed_left := id
  completed_right := id
  sent := by
    intro ms ms' out e houtcomes _ hms
    refine pairwise_of_forall₂ houtcomes.forall₂ ?_ hms
    rintro a a' b b' ⟨hta, hia⟩ ⟨htb, hib⟩ hother
    rw [OtherId, hta, hia, htb, hib]
    exact hother

theorem acknowledge_otherId {c : Client} {controlType : ControlType} {packetId : BitVec 16}
    (hc : c.mq.messages.Pairwise OtherId)
    (hnot : controlType.HasId → ∀ m ∈ c.mq.messages, m.tag.controlType = controlType →
      m.tag.packetId ≠ packetId) :
    (Client.keepError (c.acknowledge controlType packetId)).1.mq.messages.Pairwise OtherId := by
  rw [Client.keepError_mq]
  exact Client.tryPack_pairwise hc fun a ha _ hid htype => hnot hid a ha htype

theorem release_ids {c : Client} {controlType : ControlType} {packetId : Option (BitVec 16)}
    {P : ControlType → BitVec 16 → Prop}
    (h : ∀ m ∈ c.mq.messages, P m.tag.controlType m.tag.packetId) :
    ∀ m ∈ (c.release controlType packetId).1.mq.messages,
      P m.tag.controlType m.tag.packetId := by
  unfold Client.release
  cases c.mq.find controlType packetId with
  | none => exact h
  | some i =>
      exact forall_mem_modify (P := fun m : Message => P m.tag.controlType m.tag.packetId) h
        fun _ hm => hm

theorem handle_otherId {c : Client} (response : Response)
    (hc : c.mq.messages.Pairwise OtherId) :
    (c.handle response).1.1.mq.messages.Pairwise OtherId := by
  have hmoves : (∀ request, response.stages = some request → ¬ request.controlType.HasId) →
      (c.handle response).1.1.mq.messages.Pairwise OtherId := by
    intro hstages
    refine (Client.handle_moves c response).pairwise keptPairs_otherId ?_ hc
    intro a request packetId bytes hrequest hid
    exact absurd hid (hstages request hrequest)
  cases response with
  | publish message =>
      simp only [Client.handle]
      by_cases hone : message.qosLevel = 1
      · rw [if_pos hone]
        exact acknowledge_otherId hc fun hid => absurd hid (by decide)
      rw [if_neg hone]
      by_cases htwo : message.qosLevel = 2
      · rw [if_pos htwo]
        split
        · exact hc
        · rename_i hfind
          exact acknowledge_otherId hc fun _ m hm =>
            Queue.ne_of_find_eq_none (not_not.mp hfind) hm
      · rw [if_neg htwo]
        exact hc
  | pubrec packetId =>
      simp only [Client.handle]
      split
      · exact hc
      · rename_i hfind
        have hreleased := Client.release_pairwise keptPairs_otherId hc .publish (some packetId)
        have hids : ∀ m ∈ (c.release .publish (some packetId)).1.mq.messages,
            m.tag.controlType = .pubrel → m.tag.packetId ≠ packetId :=
          release_ids (P := fun t id => t = .pubrel → id ≠ packetId)
            fun m hm => Queue.ne_of_find_eq_none (not_not.mp hfind) hm
        cases hrelease : c.release .publish (some packetId) with
        | mk c' ret =>
            rw [hrelease] at hreleased hids
            cases ret with
            | some e => exact hreleased
            | none => exact acknowledge_otherId hreleased fun _ m hm => hids m hm
  | pubrel packetId =>
      refine hmoves ?_
      intro request hrequest
      cases hrequest
      exact (by decide : ¬ ControlType.pubcomp.HasId)
  | _ =>
      refine hmoves ?_
      intro request hrequest
      cases hrequest

theorem newMessage_otherId {client : Client} {request : Request} {packetId : BitVec 16}
    (hown : request.IsOwn) (hfresh : Fresh client request packetId) {a : Message}
    (ha : a ∈ client.mq.messages) (bytes : List Byte) :
    OtherId a (newMessage request packetId bytes) := by
  have htaken : ∀ id, request.taken = some id → a.tag.packetId ≠ packetId := by
    intro id hid
    obtain ⟨rfl, -, hnot⟩ := hfresh id hid
    intro heq
    refine hnot ?_
    rw [← heq]
    exact List.mem_map_of_mem ha
  intro hid htype
  cases request with
  | connect args => exact absurd hid (by decide : ¬ ControlType.connect.HasId)
  | pubxxx controlType id => exact hown.elim
  | pingreq => exact absurd hid (by decide : ¬ ControlType.pingreq.HasId)
  | disconnect => exact absurd hid (by decide : ¬ ControlType.disconnect.HasId)
  | _ => exact htaken _ rfl

theorem Micro.otherId {s s' : Session} (h : Micro s s') (hs : s.Wired)
    (hpairs : s.client.mq.messages.Pairwise OtherId) :
    s'.client.mq.messages.Pairwise OtherId := by
  cases h with
  | @pack c request packetId hprepared hown _ hfresh =>
      have hc : c.mq.messages.Pairwise OtherId := by
        rw [hprepared.mq]
        exact hpairs
      refine Client.tryPack_pairwise hc ?_
      rw [hprepared.mq]
      exact fun a ha => newMessage_otherId hown hfresh ha
  | fill _ => exact hpairs
  | @handle response n _ _ => exact handle_otherId response hpairs
  | fail _ _ => exact hpairs
  | send _ _ houtcomes => exact keptPairs_otherId.sent houtcomes hs.wellFormed hpairs

/-- The messages in the queue are packets, and an answer tells them apart. -/
structure Session.Distinct (s : Session) : Prop where
  wired : s.Wired
  otherId : s.client.mq.messages.Pairwise OtherId

theorem Session.Reached.inv_distinct {I : Session → Prop}
    (h : s.Reached entrySize sendbufsz recvbufsz)
    (hmicro : ∀ s s', Micro s s' → s.Distinct → I s → I s')
    (hinit : ∀ client, client.Starts entrySize sendbufsz recvbufsz → I (init client)) :
    s.Distinct ∧ I s := by
  refine h.inv (I := fun s => s.Distinct ∧ I s) ?_ ?_
  · rintro t t' hone ⟨ht, hI⟩
    exact ⟨⟨hone.wired ht.wired, hone.otherId ht.wired ht.otherId⟩, hmicro t t' hone ht hI⟩
  · intro client hstarts
    exact ⟨⟨hstarts.wired, hstarts.pairwise⟩, hinit client hstarts⟩

theorem Session.Reached.distinct (h : s.Reached entrySize sendbufsz recvbufsz) : s.Distinct :=
  (h.inv_distinct (I := fun _ => True) (fun _ _ _ _ _ => trivial) fun _ _ => trivial).1

/-- **An answer is for one message.** Whatever has been published, acknowledged and sent again, a
response with a packet id finds at most one message of the type that it answers, complete or
not. -/
theorem answer_unambiguous (h : s.Reached entrySize sendbufsz recvbufsz) {response : Response}
    {controlType : ControlType} {packetId : BitVec 16}
    (hanswers : response.answers = some (controlType, some packetId)) :
    (s.client.mq.messages.filter fun m => m.tag.controlType = controlType ∧
      m.tag.packetId = packetId).length ≤ 1 := by
  have hid : controlType.HasId := Response.hasId hanswers
  refine length_filter_le_one h.distinct.otherId ?_
  intro a b ha hb hother
  obtain ⟨rfl, rfl⟩ := of_decide_eq_true ha
  obtain ⟨htype, hpid⟩ := of_decide_eq_true hb
  refine hother ?_ htype.symm hpid.symm
  rw [htype]
  exact hid

theorem answer_unambiguous_puback :
    ∃ s, mainRun [.publish [0x61, 0x62] [0x78] 2, .publish [0x61, 0x62] [0x79] 2] = some s ∧
      (s.client.mq.messages.filter fun m => m.tag.controlType = .publish ∧
        m.tag.packetId = 0xB451).length ≤ 1 := by
  obtain ⟨s, hs, hreached, -⟩ :=
    exists_mainRun [.publish [0x61, 0x62] [0x78] 2, .publish [0x61, 0x62] [0x79] 2]
      (fun _ => True) (by decide) (by decide +kernel)
  exact ⟨s, hs, answer_unambiguous hreached (rfl : (Response.puback 0xB451).answers = _)⟩

/-! ## Messages whose answer has not come -/

/-- A message of this type and id that awaits an answer, sent or not. -/
def Message.Open (controlType : ControlType) (packetId : BitVec 16) (m : Message) : Prop :=
  (m.tag.controlType = controlType ∧ m.tag.packetId = packetId) ∧
    ¬ Message.NoAnswer m ∧ m.tag.state ≠ .complete

instance (controlType : ControlType) (packetId : BitVec 16) (m : Message) :
    Decidable (Message.Open controlType packetId m) :=
  inferInstanceAs (Decidable (_ ∧ _))

def opened (controlType : ControlType) (packetId : BitVec 16) (messages : List Message) :
    List Message :=
  messages.filter fun m => Message.Open controlType packetId m

variable {controlType : ControlType} {packetId : BitVec 16}

theorem opened_of_cleaned {mq mq' : Queue} (h : Client.Cleaned mq mq') :
    opened controlType packetId mq'.messages = opened controlType packetId mq.messages := by
  rcases h with rfl | rfl
  · rfl
  · apply filter_dropWhile
    intro m hm
    exact decide_eq_false fun hopen => hopen.2.2 (of_decide_eq_true hm)

theorem opened_append (xs ys : List Message) :
    opened controlType packetId (xs ++ ys) =
      opened controlType packetId xs ++ opened controlType packetId ys :=
  List.filter_append ..

theorem opened_singleton (m : Message) :
    opened controlType packetId [m] = if Message.Open controlType packetId m then [m] else [] := by
  rw [opened, List.filter_singleton]
  by_cases hopen : Message.Open controlType packetId m
  · rw [if_pos hopen, decide_eq_true hopen]
    rfl
  · rw [if_neg hopen, decide_eq_false hopen]
    rfl

theorem opened_tryPack {c : Client} {request : Request} {id : BitVec 16}
    (hother : ∀ bytes, ¬ Message.Open controlType packetId (newMessage request id bytes)) :
    opened controlType packetId (c.tryPack request id).1.mq.messages =
      opened controlType packetId c.mq.messages := by
  obtain ⟨mq, hclean, ⟨bytes, -, -, heq⟩ | ⟨e, -, heq⟩⟩ := Client.tryPack_cases c request id
  · rw [heq, ← opened_of_cleaned hclean]
    refine (opened_append ..).trans ?_
    have hnone : opened controlType packetId [newMessage request id bytes] = [] := by
      rw [opened_singleton, if_neg (hother bytes)]
    exact (congrArg _ hnone).trans (List.append_nil _)
  · rw [heq, ← opened_of_cleaned hclean]

theorem opened_of_moves {response : Response} {c c' : Client} (hid : controlType.HasId)
    (h : Client.HandleMoves response c c')
    (hstages : ∀ id, response.stages ≠ some (.pubxxx controlType id))
    (hanswers : response.answers ≠ some (controlType, some packetId)) :
    opened controlType packetId c'.mq.messages = opened controlType packetId c.mq.messages := by
  induction h with
  | refl => rfl
  | tail _ hmove ih =>
      refine Eq.trans ?_ ih
      cases hmove with
      | fail hmq _ => exact opened_of_cleaned hmq
      | @register mq request bytes id hrequest _ hmq _ =>
          rw [← opened_of_cleaned hmq]
          refine (opened_append ..).trans ?_
          obtain ⟨t, id', rfl, -⟩ := Response.stages_eq hrequest
          have hnone : opened controlType packetId [newMessage (.pubxxx t id') id bytes] = [] := by
            rw [opened_singleton, if_neg]
            rintro ⟨⟨htype, -⟩, -⟩
            obtain rfl : t = controlType := htype
            exact hstages id' hrequest
          exact (congrArg _ hnone).trans (List.append_nil _)
      | @release t id i hrel hfind =>
          apply filter_modify
          intro m hm
          refine ⟨decide_eq_false ?_, decide_eq_false fun hopen => hopen.2.2 rfl⟩
          rintro ⟨⟨rfl, rfl⟩, -⟩
          obtain ⟨rfl, hmatch⟩ := Queue.matches_of_find hfind hm
          obtain ⟨p, rfl⟩ := Response.answers_of_hasId hrel hid
          rcases hmatch with ⟨hnone, -⟩ | hsome
          · cases hnone
          · rw [hsome] at hrel
            exact hanswers hrel

theorem Outcome.open_iff {inflight : Bool} {m m' : Message} {out : List Transmission}
    {e : Option Error} (h : Outcome inflight m m' out e) (hm : (Message.packet m).WellFormed) :
    Message.Open controlType packetId m' ↔ Message.Open controlType packetId m := by
  cases h with
  | @sent bytes state now hstate _ hsent =>
      have hspec := sentState_spec hsent
      have hqos := hspec.qos hm
      refine and_congr_right fun _ => ?_
      have hno : Message.NoAnswer ⟨bytes, { m.tag with timeSent := now, state }⟩ ↔
          Message.NoAnswer m := by
        show (_ ∨ _ ∨ _ ∨ _ ∧ Packet.qos ⟨m.tag.controlType, bytes⟩ = 0) ↔ _
        rw [hqos]
        exact Iff.rfl
      rw [hno]
      refine and_congr_right fun hawaits => iff_of_true ?_ hstate
      exact fun hcomplete => hawaits (hspec.complete_iff.mp hcomplete)
  | _ => exact Iff.rfl

theorem Outcomes.length_opened {inflight : Bool} {ms ms' : List Message}
    {out : List Transmission} {e : Option Error} (h : Outcomes inflight ms ms' out e)
    (hformed : ∀ m ∈ ms, (Message.packet m).WellFormed) :
    (opened controlType packetId ms').length = (opened controlType packetId ms).length := by
  have hcons : ∀ {m m' : Message} {ms ms' : List Message},
      (Message.Open controlType packetId m' ↔ Message.Open controlType packetId m) →
      (opened controlType packetId ms').length = (opened controlType packetId ms).length →
      (opened controlType packetId (m' :: ms')).length =
        (opened controlType packetId (m :: ms)).length := by
    intro m m' ms ms' hiff hlen
    simp only [opened, List.filter_cons, hiff] at hlen ⊢
    split
    · rw [List.length_cons, List.length_cons, hlen]
    · exact hlen
  induction h with
  | nil => rfl
  | cons hone _ ih =>
      obtain ⟨hm, hformed⟩ := List.forall_mem_cons.mp hformed
      exact hcons (hone.open_iff hm) (ih hformed)
  | stop hone =>
      obtain ⟨hm, -⟩ := List.forall_mem_cons.mp hformed
      exact hcons (hone.open_iff hm) rfl

theorem length_opened_le_one {messages : List Message} (hid : controlType.HasId)
    (h : messages.Pairwise OtherId) : (opened controlType packetId messages).length ≤ 1 := by
  refine length_filter_le_one h ?_
  intro a b ha hb hother
  obtain ⟨⟨hta, hia⟩, -⟩ := of_decide_eq_true ha
  obtain ⟨⟨htb, hib⟩, -⟩ := of_decide_eq_true hb
  refine hother ?_ (hta.trans htb.symm) (hia.trans hib.symm)
  rw [htb]
  exact hid

/-! ## A publish that comes in at quality of service 2 -/

/-- A publish at quality of service 2 with this id. -/
def ResponsePublish.IsExactlyOnce (packetId : BitVec 16) (message : ResponsePublish) : Prop :=
  message.qosLevel = 2 ∧ message.packetId.getD 0 = packetId

instance (packetId : BitVec 16) (message : ResponsePublish) :
    Decidable (message.IsExactlyOnce packetId) :=
  inferInstanceAs (Decidable (_ ∧ _))

/-- How often the callback has got one. -/
def Session.deliveries (s : Session) (packetId : BitVec 16) : Nat :=
  s.delivered.countP fun message => message.IsExactlyOnce packetId

def Session.releases (s : Session) (packetId : BitVec 16) : Nat :=
  s.handled.countP fun response => response = .pubrel packetId

theorem open_pubrec {id : BitVec 16} (bytes : List Byte) :
    Message.Open .pubrec packetId (newMessage (.pubxxx .pubrec id) id bytes) ↔ id = packetId := by
  refine ⟨fun h => h.1.2, fun h => ⟨⟨rfl, h⟩, ?_, (by decide : MessageState.unsent ≠ .complete)⟩⟩
  rintro (hpuback | hpubcomp | hdisconnect | ⟨hpublish, -⟩)
  · cases hpuback
  · cases hpubcomp
  · cases hdisconnect
  · cases hpublish

theorem Response.eq_pubrel {response : Response}
    (h : response.answers = some (.pubrec, some packetId)) : response = .pubrel packetId := by
  cases response with
  | pubrel id =>
      cases h
      rfl
  | _ => cases h

/-- Every publish that has been given to the callback has been released since, but for the
one whose PUBREC is in the queue. -/
def Session.Accounted (packetId : BitVec 16) (s : Session) : Prop :=
  s.deliveries packetId ≤
    s.releases packetId + (opened .pubrec packetId s.client.mq.messages).length

theorem countP_isExactlyOnce {messages : List ResponsePublish} {message : ResponsePublish}
    (h : messages.Sublist [message]) (hqos : message.qosLevel ≠ 2) :
    (messages.countP fun message => message.IsExactlyOnce packetId) = 0 := by
  apply List.countP_eq_zero.mpr
  intro m hm hexact
  obtain rfl := List.mem_singleton.mp (h.subset hm)
  exact hqos (of_decide_eq_true hexact).1

/-- A PUBREC is registered for a publish exactly when the callback gets it. -/
theorem handle_exactlyOnce {c : Client} {message : ResponsePublish} (hqos : message.qosLevel = 2) :
    ((c.handle (.publish message)).2.countP fun m => m.IsExactlyOnce packetId) +
        (opened .pubrec packetId c.mq.messages).length =
      (opened .pubrec packetId (c.handle (.publish message)).1.1.mq.messages).length := by
  have hone : message.qosLevel ≠ 1 := by
    rw [hqos]
    decide
  simp only [Client.handle, if_neg hone, if_pos hqos]
  split
  · exact Nat.zero_add _
  rw [deliver_snd]
  show _ = (opened .pubrec packetId (Client.keepError _).1.mq.messages).length
  rw [Client.keepError_mq]
  obtain ⟨mq, hclean, ⟨bytes, -, -, heq⟩ | ⟨e, -, heq⟩⟩ :=
    Client.tryPack_cases c (.pubxxx .pubrec (message.packetId.getD 0)) (message.packetId.getD 0)
  · have hack : c.acknowledge .pubrec (message.packetId.getD 0) = _ := heq
    rw [hack, ← opened_of_cleaned hclean]
    show (if none = none then [message] else []).countP _ + _ =
      (opened .pubrec packetId (mq.messages ++ [newMessage (.pubxxx .pubrec _) _ bytes])).length
    rw [opened_append, List.length_append, Nat.add_comm]
    have hexact : message.IsExactlyOnce packetId ↔ message.packetId.getD 0 = packetId :=
      and_iff_right hqos
    rw [if_pos rfl, List.countP_singleton, opened_singleton]
    simp only [hexact, open_pubrec, decide_eq_true_eq]
    split <;> rfl
  · have hack : c.acknowledge .pubrec (message.packetId.getD 0) = _ := heq
    rw [hack, ← opened_of_cleaned hclean]
    exact Nat.zero_add _

theorem countP_of_sublist_nil {xs : List ResponsePublish} {p : ResponsePublish → Bool}
    (h : xs.Sublist []) : xs.countP p = 0 := by
  rw [List.sublist_nil.mp h, List.countP_nil]

theorem Session.Accounted.handles {s : Session} (hs : s.Accounted packetId)
    (hone : (opened .pubrec packetId s.client.mq.messages).length ≤ 1) (response : Response)
    (n : Nat) : (s.handles response n).Accounted packetId := by
  have hdelivered : (s.handles response n).deliveries packetId =
      s.deliveries packetId +
        (s.client.handle response).2.countP fun m => m.IsExactlyOnce packetId :=
    List.countP_append ..
  have hreleased : (s.handles response n).releases packetId =
      s.releases packetId + if response = .pubrel packetId then 1 else 0 := by
    refine List.countP_append.trans (congrArg _ ?_)
    rw [List.countP_singleton]
    simp only [decide_eq_true_eq]
  have hsublist := (handle_delivered s.client response).1
  show _ ≤ _ + (opened .pubrec packetId (s.client.handle response).1.1.mq.messages).length
  rw [hdelivered, hreleased]
  have hacc : s.deliveries packetId ≤ _ := hs
  -- every response but a publish at quality of service 2 and the PUBREL
  have hother : (∀ message, response = .publish message → message.qosLevel ≠ 2) →
      response ≠ .pubrel packetId →
      s.deliveries packetId +
          ((s.client.handle response).2.countP fun m => m.IsExactlyOnce packetId) ≤
        s.releases packetId + (if response = .pubrel packetId then 1 else 0) +
          (opened .pubrec packetId (s.client.handle response).1.1.mq.messages).length := by
    intro hqos hpubrel
    have hsame : opened .pubrec packetId (s.client.handle response).1.1.mq.messages =
        opened .pubrec packetId s.client.mq.messages := by
      refine opened_of_moves (by decide) (Client.handle_moves s.client response) ?_
        fun hanswers => hpubrel (Response.eq_pubrel hanswers)
      intro id hstages
      cases response with
      | publish message =>
          simp only [Response.stages] at hstages
          split at hstages
          · cases hstages
          · rw [if_neg (hqos message rfl)] at hstages
            cases hstages
      | pubrec id' => cases hstages
      | pubrel id' => cases hstages
      | _ => cases hstages
    have hzero : ((s.client.handle response).2.countP fun m => m.IsExactlyOnce packetId) = 0 := by
      cases response with
      | publish message => exact countP_isExactlyOnce hsublist (hqos message rfl)
      | _ => exact countP_of_sublist_nil hsublist
    rw [hsame, hzero, if_neg hpubrel]
    exact hacc
  cases response with
  | publish message =>
      by_cases hqos : message.qosLevel = 2
      · have hnot : Response.publish message ≠ .pubrel packetId := Response.noConfusion
        rw [if_neg hnot, ← handle_exactlyOnce hqos]
        omega
      · exact hother (fun m hm => (Response.publish.inj hm) ▸ hqos) Response.noConfusion
  | pubrel id =>
      by_cases hid : id = packetId
      · subst hid
        have hzero : ((s.client.handle (.pubrel id)).2.countP fun m => m.IsExactlyOnce id) = 0 :=
          countP_of_sublist_nil hsublist
        rw [hzero, if_pos rfl]
        omega
      · exact hother (fun _ => Response.noConfusion) fun heq => hid (Response.pubrel.inj heq)
  | _ => exact hother (fun _ => Response.noConfusion) Response.noConfusion

theorem Request.IsOwn.ne_pubrec {request : Request} (h : request.IsOwn) :
    request.controlType ≠ .pubrec := by
  cases request with
  | pubxxx controlType id => exact h.elim
  | _ => exact nofun

theorem Micro.accounted {s s' : Session} (h : Micro s s') (hdistinct : s.Distinct)
    (hs : s.Accounted packetId) : s'.Accounted packetId := by
  cases h with
  | @pack c request id hprepared hown _ _ =>
      have hopened : opened .pubrec packetId (c.tryPack request id).1.mq.messages =
          opened .pubrec packetId c.mq.messages :=
        opened_tryPack fun _ hnot => hown.ne_pubrec hnot.1.1
      show _ ≤ _ + (opened .pubrec packetId (c.tryPack request id).1.mq.messages).length
      rw [hopened, hprepared.mq]
      exact hs
  | fill _ => exact hs
  | @handle response n _ _ =>
      exact hs.handles (length_opened_le_one (by decide) hdistinct.otherId) response n
  | fail _ _ => exact hs
  | @send t messages out e _ _ houtcomes =>
      show _ ≤ _ + (opened .pubrec packetId messages).length
      rw [houtcomes.length_opened hdistinct.wired.wellFormed]
      exact hs

/-- **Delivered once.** However often the broker repeats a publish at quality of service 2, the
callback gets it again only after the broker has released its packet id. -/
theorem delivered_once (h : s.Reached entrySize sendbufsz recvbufsz) (packetId : BitVec 16) :
    s.deliveries packetId ≤ s.releases packetId + 1 := by
  obtain ⟨hdistinct, hacc⟩ := h.inv_distinct (I := fun s => s.Accounted packetId)
    (fun _ _ hmicro => hmicro.accounted) fun _ _ => Nat.zero_le _
  have hone : (opened .pubrec packetId s.client.mq.messages).length ≤ 1 :=
    length_opened_le_one (by decide) hdistinct.otherId
  exact Nat.le_trans hacc (Nat.add_le_add_left hone _)

theorem delivered_once_repeated :
    ∃ s, mainRun [.recv [.data [0x34, 7, 0, 2, 0x61, 0x62, 0, 5, 0x78],
        .data [0x3C, 7, 0, 2, 0x61, 0x62, 0, 5, 0x78]]] = some s ∧ s.handled.length = 2 ∧
      s.deliveries 5 ≤ s.releases 5 + 1 := by
  obtain ⟨s, hs, hreached, htwo⟩ :=
    exists_mainRun [.recv [.data [0x34, 7, 0, 2, 0x61, 0x62, 0, 5, 0x78],
        .data [0x3C, 7, 0, 2, 0x61, 0x62, 0, 5, 0x78]]]
      (fun s => s.handled.length = 2) (by decide) (by decide +kernel)
  exact ⟨s, hs, htwo, delivered_once hreached 5⟩

end SmartHome.Mqtt
