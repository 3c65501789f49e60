/-
# `Mqtt.Outgoing` — what the client puts on the wire

Every message in the queue is one whole packet of its type, also after its DUP flag has been set.
So what a session has given to the socket is one packet after another, and at most one part of a
packet behind them, after which the client never sends again (`wire_well_formed`).
-/
import SmartHome.Mqtt.Stream

namespace SmartHome.Mqtt

open Framing

/-! ## The first byte of a packet -/

theorem IsPacket.getD_zero {h : FixedHeader} {body bytes : List Byte} (hp : IsPacket h body bytes) :
    bytes.getD 0 0 = controlByte h := by
  obtain ⟨header, hheader, rfl⟩ := hp.split
  obtain ⟨length, _, rfl⟩ := hheader.bytes
  rfl

theorem inspectedQos_controlByte (h : FixedHeader) :
    inspectedQos (controlByte h) = inspectedQos (h.controlFlags.setWidth 8) := by
  have htable : ∀ t flags : BitVec 4,
      inspectedQos (controlByte ⟨t, flags, 0⟩) = inspectedQos (flags.setWidth 8) := by
    decide +kernel
  exact htable h.controlType h.controlFlags

theorem inspectedQos_dup (byte : Byte) :
    inspectedQos (byte ||| publishDup) = inspectedQos byte := by
  revert byte
  decide +kernel

theorem getD_modify_zero {bytes : List Byte} (hpos : 0 < bytes.length) (f : Byte → Byte) :
    (bytes.modify 0 f).getD 0 0 = f (bytes.getD 0 0) := by
  cases bytes with
  | nil => exact absurd hpos (Nat.lt_irrefl 0)
  | cons byte bytes => rfl

theorem controlByte_dup (h : FixedHeader) :
    controlByte { h with controlFlags := h.controlFlags ||| 8 } = controlByte h ||| publishDup := by
  have htable : ∀ t flags : BitVec 4,
      controlByte ⟨t, flags ||| 8, 0⟩ = controlByte ⟨t, flags, 0⟩ ||| publishDup := by
    decide +kernel
  exact htable h.controlType h.controlFlags

theorem IsPacket.dup {h : FixedHeader} {body bytes : List Byte} (hp : IsPacket h body bytes)
    (htype : h.controlType = ControlType.publish.code) :
    IsPacket { h with controlFlags := h.controlFlags ||| 8 } body
      (bytes.modify 0 (· ||| publishDup)) := by
  obtain ⟨header, hheader, rfl⟩ := hp.split
  obtain ⟨length, hlength, rfl⟩ := hheader.bytes
  refine ⟨hp.length, (controlByte h ||| publishDup) :: length,
    ⟨?_, hheader.bound, length, hlength, ?_⟩, rfl⟩
  · obtain ⟨t, flags, n⟩ := h
    obtain rfl : t = ControlType.publish.code := htype
    exact ruleViolation_eq_none (.inl rfl) n
  · rw [controlByte_dup]

/-! ## The messages in the queue -/

/-- The bytes are one whole packet of this type. -/
def Packet.WellFormed (p : Packet) : Prop :=
  ∃ h body, IsPacket h body p.bytes ∧ h.controlType = p.controlType.code

/-- The quality of service, if it is a publish. -/
def Packet.qos (p : Packet) : Byte := inspectedQos (p.bytes.getD 0 0)

theorem Packet.WellFormed.length_pos {p : Packet} (h : p.WellFormed) : 0 < p.bytes.length := by
  obtain ⟨_, _, hpacket, _⟩ := h
  exact hpacket.length_pos

theorem Request.isPacket {request : Request} {bufsz : Nat} {bytes : List Byte}
    (hshort : request.Short) (hpack : request.pack bufsz = .wrote bytes) :
    bytes.length ≤ bufsz ∧ Packet.WellFormed ⟨request.controlType, bytes⟩ := by
  rcases Request.settled hshort with ⟨e, hfailed⟩ | ⟨h, body, bytes', hpacket, htype, hbytes⟩
  · exact nomatch (hfailed bufsz).symm.trans hpack
  · rw [hbytes] at hpack
    split at hpack
    · rename_i hroom
      cases hpack
      exact ⟨hroom, h, body, hpacket, htype⟩
    · cases hpack

/-- The types after which no answer is awaited. -/
def Message.NoAnswer (m : Message) : Prop :=
  m.tag.controlType = .puback ∨ m.tag.controlType = .pubcomp ∨ m.tag.controlType = .disconnect ∨
    (m.tag.controlType = .publish ∧ (Message.packet m).qos = 0)

instance (m : Message) : Decidable (Message.NoAnswer m) := inferInstanceAs (Decidable (_ ∨ _))

/-- What `__mqtt_send` makes of a message after it has sent it. -/
structure SentAs (m : Message) (bytes : List Byte) (state : MessageState) : Prop where
  written : bytes = m.bytes ∨ (m.tag.controlType = .publish ∧ (Message.packet m).qos = 1 ∧
    bytes = m.bytes.modify 0 (· ||| publishDup))
  sent : state ≠ .unsent
  complete_iff : state = .complete ↔ Message.NoAnswer m

theorem sentState_spec {m : Message} {bytes : List Byte} {state : MessageState}
    (h : sentState m = some (bytes, state)) : SentAs m bytes state := by
  have hawait : ∀ {bytes}, (bytes = m.bytes ∨ (m.tag.controlType = .publish ∧
      (Message.packet m).qos = 1 ∧ bytes = m.bytes.modify 0 (· ||| publishDup))) →
      ¬ Message.NoAnswer m → SentAs m bytes .awaitingAck :=
    fun hwritten hno => ⟨hwritten, by decide, iff_of_false (by decide) hno⟩
  have hcomplete : Message.NoAnswer m → SentAs m m.bytes .complete :=
    fun hno => ⟨.inl rfl, by decide, iff_of_true rfl hno⟩
  have hpublish : m.tag.controlType = .publish → (Message.packet m).qos ≠ 0 →
      ¬ Message.NoAnswer m := by
    intro htype hqos
    simp only [Message.NoAnswer, htype, hqos, reduceCtorEq, and_false, or_self, not_false_eq_true]
  have hother : ∀ t, m.tag.controlType = t → t ≠ .puback → t ≠ .pubcomp → t ≠ .disconnect →
      t ≠ .publish → ¬ Message.NoAnswer m := by
    rintro t rfl h₁ h₂ h₃ h₄
    simp only [Message.NoAnswer, h₁, h₂, h₃, h₄, false_and, or_self, not_false_eq_true]
  unfold sentState at h
  split at h
  case h_1 htype =>
    cases h
    exact hcomplete (.inl htype)
  case h_2 htype =>
    cases h
    exact hcomplete (.inr (.inl htype))
  case h_3 htype =>
    cases h
    exact hcomplete (.inr (.inr (.inl htype)))
  case h_4 htype =>
    dsimp only at h
    split at h
    · rename_i hqos
      cases h
      exact hcomplete (.inr (.inr (.inr ⟨htype, hqos⟩)))
    rename_i hqos
    split at h
    · rename_i hone
      cases h
      exact hawait (.inr ⟨htype, hone, rfl⟩) (hpublish htype hqos)
    · cases h
      exact hawait (.inl rfl) (hpublish htype hqos)
  all_goals
    rename_i htype
    cases h
  all_goals
    exact hawait (.inl rfl)
      (hother _ htype (by decide) (by decide) (by decide) (by decide))

/-- Sending changes the packet by the DUP flag, and only at quality of service 1. -/
theorem sentState_bytes {m : Message} {bytes : List Byte} {state : MessageState}
    (h : sentState m = some (bytes, state)) :
    bytes =
      if m.tag.controlType = .publish ∧ inspectedQos (m.bytes.getD 0 0) = 1 then
        m.bytes.modify 0 (· ||| publishDup)
      else
        m.bytes := by
  split
  · rename_i hdup
    simp only [sentState, hdup.1, hdup.2] at h
    cases h
    rfl
  · rename_i hplain
    rcases (sentState_spec h).written with hsame | ⟨htype, hone, -⟩
    · exact hsame
    · exact absurd ⟨htype, hone⟩ hplain

theorem SentAs.wellFormed {m : Message} {bytes : List Byte} {state : MessageState}
    (h : SentAs m bytes state) (hm : (Message.packet m).WellFormed) :
    Packet.WellFormed ⟨m.tag.controlType, bytes⟩ := by
  obtain ⟨header, body, hpacket, htype⟩ := id hm
  rcases h.written with rfl | ⟨hpublish, -, rfl⟩
  · exact hm
  · have hcode : header.controlType = ControlType.publish.code := htype.trans (by
      show m.tag.controlType.code = _
      rw [hpublish])
    exact ⟨_, body, hpacket.dup hcode, htype⟩

theorem SentAs.qos {m : Message} {bytes : List Byte} {state : MessageState}
    (h : SentAs m bytes state) (hm : (Message.packet m).WellFormed) :
    Packet.qos ⟨m.tag.controlType, bytes⟩ = (Message.packet m).qos := by
  rcases h.written with rfl | ⟨-, -, rfl⟩
  · rfl
  · show inspectedQos ((m.bytes.modify 0 (· ||| publishDup)).getD 0 0) = _
    have hpos : 0 < m.bytes.length := hm.length_pos
    rw [getD_modify_zero hpos, inspectedQos_dup]
    rfl

theorem kept_wellFormed : Kept fun m => (Message.packet m).WellFormed where
  new := fun hshort hpack => (Request.isPacket hshort hpack).2
  completed := fun hm => hm
  sent := by
    intro inflight m m' out e h hm
    cases h with
    | sent _ _ hstate => exact (sentState_spec hstate).wellFormed hm
    | _ => exact hm

/-! ## Errors that stay -/

namespace Client

/-- A final error has been set. -/
def Failed (client : Client) : Prop := ∃ e, client.error = some e ∧ e.Final

/-- An error has been set that `mqtt_connect` does not take away. -/
def Refusing (client : Client) : Prop := ∃ e, client.error = some e ∧ e ≠ .connectNotCalled

theorem Failed.stopped {client : Client} (h : client.Failed) : client.Stopped := by
  obtain ⟨e, herror, hfull, _⟩ := h
  rw [Stopped, herror]
  exact ⟨nofun, fun h => hfull (Option.some.inj h)⟩

variable {ok : Request → Prop} {rel : ControlType → Option (BitVec 16) → Prop} {c c' : Client}

theorem Move.failed (h : Move ok rel c c') (hc : c.Failed) : c'.Failed := by
  obtain ⟨e, herror, hfinal⟩ := hc
  cases h with
  | fail _ he =>
      rcases he with hnone | hsame | hfinal'
      · exact nomatch hnone.symm.trans herror
      · cases hsame.symm.trans herror
        exact ⟨e, rfl, hfinal⟩
      · exact ⟨_, rfl, hfinal'⟩
  | register _ hnone _ _ => exact nomatch hnone.symm.trans herror
  | release _ _ => exact ⟨e, herror, hfinal⟩

theorem Moves.failed (h : Moves ok rel c c') (hc : c.Failed) : c'.Failed := by
  induction h with
  | refl => exact hc
  | tail _ hmove ih => exact hmove.failed ih

theorem Move.refusing (h : Move ok rel c c') (hc : c.Refusing) : c'.Refusing := by
  obtain ⟨e, herror, hconnect⟩ := hc
  cases h with
  | fail _ he =>
      rcases he with hnone | hsame | hfinal'
      · exact nomatch hnone.symm.trans herror
      · cases hsame.symm.trans herror
        exact ⟨e, rfl, hconnect⟩
      · exact ⟨_, rfl, hfinal'.2⟩
  | register _ hnone _ _ => exact nomatch hnone.symm.trans herror
  | release _ _ => exact ⟨e, herror, hconnect⟩

theorem Moves.refusing (h : Moves ok rel c c') (hc : c.Refusing) : c'.Refusing := by
  induction h with
  | refl => exact hc
  | tail _ hmove ih => exact hmove.refusing ih

end Client

theorem Prepared.error_eq {client c : Client} (h : Prepared client c) {e : Error}
    (herror : client.error = some e) (hconnect : e ≠ .connectNotCalled) : c.error = some e := by
  rcases h.error with hsame | ⟨hnot, -⟩
  · exact hsame.trans herror
  · exact absurd (Option.some.inj (herror.symm.trans hnot)) hconnect

theorem Outcomes.error {inflight : Bool} {ms ms' : List Message} {out : List Transmission}
    {e : Option Error} (h : Outcomes inflight ms ms' out e) : e = none ∨ e = some .socketError := by
  induction h with
  | nil => exact .inl rfl
  | cons _ _ ih => exact ih
  | stop hone =>
      cases hone
      exact .inr rfl

theorem Micro.refusing {s s' : Session} (h : Micro s s') (hs : s.client.Refusing) :
    s'.client.Refusing ∧ s'.published = s.published := by
  obtain ⟨e, herror, hconnect⟩ := id hs
  cases h with
  | @pack c request packetId hprepared _ _ _ =>
      have hset := hprepared.error_eq herror hconnect
      have hpack := Client.tryPack_of_error hset request packetId
      simp only [Session.packs, hpack, reduceCtorEq, if_false, List.append_nil]
      exact ⟨⟨e, hset, hconnect⟩, trivial⟩
  | fill _ => exact ⟨hs, rfl⟩
  | handle _ _ => exact ⟨(Client.handle_moves _ _).refusing hs, rfl⟩
  | fail hfinal _ => exact ⟨⟨_, rfl, hfinal.2⟩, rfl⟩
  | send _ _ houtcomes =>
      rcases houtcomes.error with rfl | rfl
      · exact ⟨hs, rfl⟩
      · exact ⟨⟨.socketError, rfl, by decide⟩, rfl⟩

theorem Micro.failed {s s' : Session} (h : Micro s s') (hs : s.client.Failed) :
    s'.client.Failed ∧ s'.transmissions = s.transmissions := by
  obtain ⟨e, herror, hfinal⟩ := id hs
  cases h with
  | @pack c request packetId hprepared _ _ _ =>
      have hset := hprepared.error_eq herror hfinal.2
      have hpack := Client.tryPack_of_error hset request packetId
      simp only [Session.packs, hpack]
      exact ⟨⟨e, hset, hfinal⟩, trivial⟩
  | fill _ => exact ⟨hs, rfl⟩
  | handle _ _ => exact ⟨(Client.handle_moves _ _).failed hs, rfl⟩
  | fail hfinal _ => exact ⟨⟨_, rfl, hfinal⟩, rfl⟩
  | send hrunning _ _ => exact absurd hs.stopped hrunning

theorem run_refusing {s s' : Session} {calls : List Call}
    (hshort : ∀ call ∈ calls, call.Short) (hsendable : s.Sendable) (hs : s.client.Refusing)
    (hrun : s.run calls = some s') : s'.client.Refusing ∧ s'.published = s.published := by
  refine run_inv (I := fun t => t.client.Refusing ∧ t.published = s.published) ?_ hshort
    hsendable ⟨hs, rfl⟩ hrun
  rintro t t' hmicro ⟨ht, hpublished⟩
  obtain ⟨ht', hsame⟩ := hmicro.refusing ht
  exact ⟨ht', hsame.trans hpublished⟩

theorem run_failed {s s' : Session} {calls : List Call} (hshort : ∀ call ∈ calls, call.Short)
    (hsendable : s.Sendable) (hs : s.client.Failed) (hrun : s.run calls = some s') :
    s'.client.Failed ∧ s'.transmissions = s.transmissions := by
  refine run_inv (I := fun t => t.client.Failed ∧ t.transmissions = s.transmissions) ?_ hshort
    hsendable ⟨hs, rfl⟩ hrun
  rintro t t' hmicro ⟨ht, hsent⟩
  obtain ⟨ht', hsame⟩ := hmicro.failed ht
  exact ⟨ht', hsame.trans hsent⟩

/-- **There is no way back from an error**, apart from the one before the first
`mqtt_connect`: whatever is called afterwards in the session, no publish is accepted any more, and
unless it was the send buffer that was full, not a byte is sent.  Only `mqtt_reinit` helps, with
which another session begins. -/
theorem errors_stay {entrySize sendbufsz recvbufsz : Nat} {s s' : Session} {e : Error}
    {calls : List Call} (hs : s.Reached entrySize sendbufsz recvbufsz)
    (herror : s.client.error = some e) (hconnect : e ≠ .connectNotCalled)
    (hshort : ∀ call ∈ calls, call.Short) (hrun : s.run calls = some s') :
    s'.client.error ≠ none ∧ s'.published = s.published ∧
      (e ≠ .sendBufferIsFull → s'.transmissions = s.transmissions) := by
  obtain ⟨⟨e', herror', -⟩, hpublished⟩ :=
    run_refusing hshort hs.sendable ⟨e, herror, hconnect⟩ hrun
  refine ⟨herror' ▸ nofun, hpublished, ?_⟩
  intro hfull
  exact (run_failed hshort hs.sendable ⟨e, herror, hfull, hconnect⟩ hrun).2

theorem errors_stay_forbiddenQos :
    ∃ s s', mainRun [.publish [0x61, 0x62] [0x78] 6] = some s ∧
      s.run [.publish [0x61, 0x62] [0x78] 0, .send (fun _ => 0) [100] 0] = some s' ∧
      s'.client.error ≠ none ∧ s'.published = s.published ∧
      (Error.publishForbiddenQos ≠ .sendBufferIsFull → s'.transmissions = s.transmissions) := by
  obtain ⟨s, hs, hreached, herror, hrun⟩ :=
    exists_mainRun [.publish [0x61, 0x62] [0x78] 6]
      (fun s => s.client.error = some .publishForbiddenQos ∧
        (s.run [.publish [0x61, 0x62] [0x78] 0, .send (fun _ => 0) [100] 0]).isSome = true)
      (by decide) (by decide +kernel)
  obtain ⟨s', hs'⟩ := Option.isSome_iff_exists.mp hrun
  exact ⟨s, s', hs, hs', errors_stay hreached herror (by decide) (by decide) hs'⟩

/-! ## The wire -/

/-- A packet is as many bytes as its header announces. -/
def scanFrame (xs : List Byte) : Scan Error (List Byte) :=
  match unpackFixedHeader xs with
  | .failed e => .failed e
  | .more => .more
  | .frame h used => .frame (xs.take (used + h.remainingLength)) (used + h.remainingLength)

theorem scanFrame_used {xs packet : List Byte} {n : Nat}
    (hscan : scanFrame xs = .frame packet n) : 0 < n := by
  unfold scanFrame at hscan
  split at hscan
  · cases hscan
  · cases hscan
  · rename_i hheader
    cases hscan
    have hused := (unpackFixedHeader_used hheader).1
    omega

theorem scanFrame_settled {xs : List Byte} (h : scanFrame xs ≠ .more) (ys : List Byte) :
    scanFrame (xs ++ ys) = scanFrame xs := by
  have hheader : unpackFixedHeader xs ≠ .more := by
    intro hmore
    exact h (by rw [scanFrame, hmore])
  rw [scanFrame, scanFrame, unpackFixedHeader_settled hheader]
  cases hframe : unpackFixedHeader xs with
  | failed e => rfl
  | more => rfl
  | frame header used =>
      simp only
      rw [List.take_append_of_le_length (unpackFixedHeader_used hframe).2.1]

/-- Packets, whatever is in them. -/
def frames : Framer Byte Error (List Byte) where
  scan := scanFrame
  used_pos := scanFrame_used
  settled := scanFrame_settled

theorem IsPacket.scanFrame {h : FixedHeader} {body bytes : List Byte} (hp : IsPacket h body bytes) :
    Mqtt.scanFrame bytes = .frame bytes bytes.length := by
  have hheader := hp.unpackFixedHeader []
  rw [List.append_nil] at hheader
  have hle := hp.body_le
  rw [Mqtt.scanFrame, hheader]
  simp only [← hp.length, Nat.sub_add_cancel hle, List.take_length]

/-- **Packing is all or nothing.** The arguments of a request are no good in any buffer, or there is
one packet for them: in every buffer with room for it these bytes are written, in the others zero is
returned and no more is written than the header, as far as the buffer goes.  A reader of the stream
cuts just these bytes off it, whatever follows them. -/
theorem packed_or_refused {request : Request} (hshort : request.Short) :
    (∃ e, ∀ bufsz, request.pack bufsz = .failed e) ∨
      ∃ header body, header.length = 1 + lengthBytes body.length ∧
        (∀ bufsz, request.pack bufsz =
          if (header ++ body).length ≤ bufsz then .wrote (header ++ body)
          else .full (header.take bufsz)) ∧
        ∀ rest, Mqtt.scanFrame (header ++ body ++ rest) =
          .frame (header ++ body) (header ++ body).length := by
  rcases Request.settled hshort with hfailed | ⟨h, body, bytes, hpacket, -, hbytes⟩
  · exact .inl hfailed
  obtain ⟨header, hheader, rfl⟩ := hpacket.split
  refine .inr ⟨header, body, ?_, ?_, fun rest =>
    Framer.scan_append_frame (F := frames) hpacket.scanFrame rest⟩
  · rw [hheader.length_eq, hpacket.length]
  · intro bufsz
    rw [hbytes, FixedHeader.begun, ← hheader.length_eq, List.take_left]

/-- A publish at quality of service 1, in a buffer that is too small by one byte. -/
theorem packed_or_refused_publish :
    (Request.publish [0x61, 0x62] 7 [0x78] 2).pack 8 = .full [0x32, 7] ∧
    ((∃ e, ∀ bufsz, (Request.publish [0x61, 0x62] 7 [0x78] 2).pack bufsz = .failed e) ∨
      ∃ header body, header.length = 1 + lengthBytes body.length ∧
        (∀ bufsz, (Request.publish [0x61, 0x62] 7 [0x78] 2).pack bufsz =
          if (header ++ body).length ≤ bufsz then .wrote (header ++ body)
          else .full (header.take bufsz)) ∧
        ∀ rest, Mqtt.scanFrame (header ++ body ++ rest) =
          .frame (header ++ body) (header ++ body).length) :=
  ⟨by decide, packed_or_refused (by decide)⟩

theorem IsPacket.not_ready {h : FixedHeader} {body bytes part : List Byte}
    (hp : IsPacket h body bytes) (hbegins : part <+: bytes) (hne : part ≠ bytes) :
    ¬ frames.Ready part := by
  rintro ⟨h', n, hscan, hle⟩
  obtain ⟨rest, rfl⟩ := hbegins
  have hwhole : Mqtt.scanFrame (part ++ rest) = .frame h' n :=
    Framer.scan_append_frame (F := frames) hscan rest
  rw [hp.scanFrame] at hwhole
  cases hwhole
  rw [List.length_append] at hle
  have hnil : rest = [] := List.eq_nil_of_length_eq_zero (by omega)
  exact hne (by rw [hnil, List.append_nil])

/-- The bytes given to the socket. -/
def Session.wire (s : Session) : List Byte := s.transmissions.flatMap fun t => t.sent

/-- The packets given to the socket as a whole. -/
def whole (transmissions : List Transmission) : List Packet :=
  (transmissions.filter fun t => t.ok).map fun t => t.packet

/-- The transmissions came to the end of their packets. -/
def AllWhole (transmissions : List Transmission) : Prop :=
  ∀ t ∈ transmissions, t.ok = true ∧ t.sent = t.packet.bytes ∧ t.packet.WellFormed

/-- The last transmission may have stopped within its packet. -/
def Cut (transmissions : List Transmission) : Prop :=
  ∃ ts t, transmissions = ts ++ [t] ∧ AllWhole ts ∧ t.ok = false ∧ t.sent <+: t.packet.bytes ∧
    t.sent ≠ t.packet.bytes ∧ t.packet.WellFormed

theorem AllWhole.append {ts us : List Transmission} (hts : AllWhole ts) (hus : AllWhole us) :
    AllWhole (ts ++ us) :=
  List.forall_mem_append.mpr ⟨hts, hus⟩

theorem AllWhole.append_cut {ts us : List Transmission} (hts : AllWhole ts) (hus : Cut us) :
    Cut (ts ++ us) := by
  obtain ⟨us, t, rfl, hus, hcut⟩ := hus
  exact ⟨ts ++ us, t, (List.append_assoc ..).symm, hts.append hus, hcut⟩

theorem Outcomes.transmissions {inflight : Bool} {ms ms' : List Message}
    {out : List Transmission} {e : Option Error} (h : Outcomes inflight ms ms' out e)
    (hms : ∀ m ∈ ms, (Message.packet m).WellFormed) :
    e = none ∧ AllWhole out ∨ e = some .socketError ∧ Cut out := by
  induction h with
  | nil => exact .inl ⟨rfl, nofun⟩
  | @cons _ m m' ms ms' out outs e hone _ ih =>
      obtain ⟨hm, hms⟩ := List.forall_mem_cons.mp hms
      have hfirst : AllWhole out := by
        cases hone with
        | skip _ => exact List.forall_mem_nil _
        | sent _ _ _ => exact List.forall_mem_singleton.mpr ⟨rfl, rfl, hm⟩
      rcases ih hms with ⟨he, hrest⟩ | ⟨he, hrest⟩
      · exact .inl ⟨he, hfirst.append hrest⟩
      · exact .inr ⟨he, hfirst.append_cut hrest⟩
  | stop hone =>
      obtain ⟨hm, -⟩ := List.forall_mem_cons.mp hms
      cases hone with
      | failed _ _ hbegins hne =>
          exact .inr ⟨rfl, [], _, rfl, List.forall_mem_nil _, rfl, hbegins, hne, hm⟩

/-- What the client has sent, and what it has in its queue. -/
structure Session.Wired (s : Session) : Prop where
  wellFormed : ∀ m ∈ s.client.mq.messages, (Message.packet m).WellFormed
  transmissions : AllWhole s.transmissions ∨ (Cut s.transmissions ∧ s.client.Failed)

theorem Micro.wired {s s' : Session} (h : Micro s s') (hs : s.Wired) : s'.Wired := by
  refine ⟨h.forall_messages kept_wellFormed hs.wellFormed, ?_⟩
  rcases hs.transmissions with hall | ⟨hcut, hfailed⟩
  · cases h with
    | pack _ _ _ _ => exact .inl hall
    | fill _ => exact .inl hall
    | handle _ _ => exact .inl hall
    | fail _ _ => exact .inl hall
    | send _ _ houtcomes =>
        rcases houtcomes.transmissions hs.wellFormed with ⟨rfl, hout⟩ | ⟨rfl, hout⟩
        · exact .inl (hall.append hout)
        · exact .inr ⟨hall.append_cut hout, .socketError, rfl, by decide⟩
  · obtain ⟨hfailed', hsame⟩ := h.failed hfailed
    rw [hsame]
    exact .inr ⟨hcut, hfailed'⟩

variable {entrySize sendbufsz recvbufsz : Nat} {s : Session}

theorem Client.Starts.wired {client : Client}
    (h : client.Starts entrySize sendbufsz recvbufsz) : (Session.init client).Wired :=
  ⟨h.forall_messages, .inl (List.forall_mem_nil _)⟩

theorem Session.Reached.wired (h : s.Reached entrySize sendbufsz recvbufsz) : s.Wired :=
  h.inv (fun _ _ hmicro => hmicro.wired) fun _ hstarts => hstarts.wired

theorem Session.Reached.wellFormed (h : s.Reached entrySize sendbufsz recvbufsz) :
    ∀ p ∈ whole s.transmissions, p.WellFormed := by
  have hall : ∀ {ts}, AllWhole ts → ∀ p ∈ whole ts, p.WellFormed := by
    intro ts hts p hp
    obtain ⟨t, ht, rfl⟩ := List.mem_map.mp hp
    exact (hts t (List.mem_filter.mp ht).1).2.2
  rcases h.wired.transmissions with hts | ⟨⟨ts, t, heq, hts, hok, -⟩, -⟩
  · exact hall hts
  · have hwhole : whole s.transmissions = whole ts := by
      rw [heq]
      simp [whole, hok]
    rw [hwhole]
    exact hall hts

theorem AllWhole.parses {ts : List Transmission} (h : AllWhole ts) (rest : List Byte) :
    Parses frames (ts.flatMap (fun t => t.sent) ++ rest) ((whole ts).map Packet.bytes) rest := by
  induction ts with
  | nil => exact .nil rest
  | cons t ts ih =>
      obtain ⟨⟨hok, hsent, header, body, hpacket, htype⟩, hts⟩ := List.forall_mem_cons.mp h
      have hwhole : whole (t :: ts) = t.packet :: whole ts := by
        simp only [whole, List.filter_cons, hok, if_true, List.map_cons]
      rw [hwhole, List.map_cons, List.flatMap_cons, List.append_assoc, hsent]
      refine .cons (Framer.scan_append_frame (F := frames) hpacket.scanFrame _) ?_ ?_
      · rw [List.length_append]
        exact Nat.le_add_right _ _
      · rw [List.drop_left]
        exact ih hts

theorem Session.Reached.wire_parses (h : s.Reached entrySize sendbufsz recvbufsz) :
    ∃ part, Parses frames s.wire ((whole s.transmissions).map Packet.bytes) part ∧
      ¬ frames.Ready part ∧ (part ≠ [] → s.client.Failed) := by
  rcases h.wired.transmissions with hall | ⟨⟨ts, t, heq, hts, hok, hbegins, hne, hformed⟩, hfailed⟩
  · have hparses := hall.parses []
    rw [List.append_nil] at hparses
    refine ⟨[], hparses, ?_, fun hne => absurd rfl hne⟩
    rintro ⟨packet, n, hscan, hle⟩
    have hpos := frames.used_pos hscan
    simp only [List.length_nil] at hle
    omega
  · obtain ⟨header, body, hpacket, -⟩ := hformed
    refine ⟨t.sent, ?_, hpacket.not_ready hbegins hne, fun _ => hfailed⟩
    have hwhole : whole s.transmissions = whole ts := by
      rw [heq]
      simp [whole, hok]
    rw [hwhole, Session.wire, heq, List.flatMap_append, List.flatMap_singleton]
    exact hts.parses t.sent

end SmartHome.Mqtt
