/-
# `Mqtt.RoundTrip` — what is packed is unpacked

Every packing function writes a header and as many bytes behind it as the header says, or
writes nothing; which of the two depends on nothing but the room (`Request.settled`).  The
client reads a publish and an acknowledgement back from the bytes it would write for them.
-/
import SmartHome.Mqtt.Packets
import Mathlib.Algebra.Order.BigOperators.Group.List
import Mathlib.Data.Nat.Cast.Basic

namespace SmartHome.Mqtt

open Framing

/-! ## Integers and strings -/

@[simp] theorem length_packUint16 (integer : BitVec 16) : (packUint16 integer).length = 2 := rfl

theorem unpackUint16_packUint16 (integer : BitVec 16) (rest : List Byte) :
    unpackUint16 (packUint16 integer ++ rest) = some integer := by
  show some (((integer >>> 8).setWidth 8).setWidth 16 <<< 8 ||| (integer.setWidth 8).setWidth 16)
    = some integer
  congr 1
  ext i hi
  simp only [BitVec.getElem_or, BitVec.getElem_shiftLeft, BitVec.getElem_setWidth,
    BitVec.getLsbD_setWidth, BitVec.getLsbD_ushiftRight]
  by_cases hlow : i < 8
  · simp [hlow, BitVec.getLsbD_eq_getElem hi]
  · have hsub : 8 + (i - 8) = i := by omega
    have hlt : i - 8 < 8 := by omega
    simp [hlow, hsub, hlt, BitVec.getLsbD_eq_getElem hi]

/-- A string that the length field can count. -/
def Short (str : List Byte) : Prop := str.length < 2 ^ 16

instance (str : List Byte) : Decidable (Short str) := inferInstanceAs (Decidable (_ < _))

theorem toNat_length {str : List Byte} (h : str.length < 2 ^ 16) :
    (BitVec.ofNat 16 str.length).toNat = str.length := by
  rw [BitVec.toNat_ofNat]
  exact Nat.mod_eq_of_lt h

theorem packStr_eq {str : List Byte} (h : Short str) :
    packStr str = packUint16 (BitVec.ofNat 16 str.length) ++ str := by
  show _ ++ str.take (BitVec.ofNat 16 str.length).toNat = _
  rw [toNat_length h, List.take_length]

@[simp] theorem length_packStr {str : List Byte} (h : Short str) :
    (packStr str).length = packedCstrlen str := by
  rw [packStr_eq h, List.length_append, length_packUint16, packedCstrlen]

/-! ## Header and body -/

/-- The bytes are a whole packet: this header, and behind it what the header announces. -/
structure IsPacket (h : FixedHeader) (body bytes : List Byte) : Prop where
  length : body.length = h.remainingLength
  split : ∃ header, IsHeader h header ∧ bytes = header ++ body

theorem IsPacket.length_eq {h : FixedHeader} {body bytes : List Byte}
    (hp : IsPacket h body bytes) :
    bytes.length = 1 + lengthBytes h.remainingLength + h.remainingLength := by
  obtain ⟨header, hheader, rfl⟩ := hp.split
  rw [List.length_append, hheader.length_eq, hp.length]

theorem IsPacket.length_pos {h : FixedHeader} {body bytes : List Byte}
    (hp : IsPacket h body bytes) : 0 < bytes.length := by
  rw [hp.length_eq]
  omega

theorem IsPacket.body_le {h : FixedHeader} {body bytes : List Byte} (hp : IsPacket h body bytes) :
    body.length ≤ bytes.length := by
  obtain ⟨header, -, rfl⟩ := hp.split
  rw [List.length_append]
  exact Nat.le_add_left _ _

theorem IsPacket.unpackFixedHeader {h : FixedHeader} {body bytes : List Byte}
    (hp : IsPacket h body bytes) (rest : List Byte) :
    unpackFixedHeader (bytes ++ rest) = .frame h (bytes.length - body.length) := by
  obtain ⟨header, hheader, rfl⟩ := hp.split
  rw [List.append_assoc, hheader.unpack, if_neg, List.length_append, Nat.add_sub_cancel]
  rw [List.length_append, hp.length]
  omega

theorem IsPacket.unpackResponse {h : FixedHeader} {body bytes : List Byte}
    (hp : IsPacket h body bytes) (rest : List Byte) :
    unpackResponse (bytes ++ rest) =
      behindHeader (bytes.length - body.length) (unpackByType h body) := by
  obtain ⟨header, hheader, rfl⟩ := hp.split
  have hused : (header ++ body).length - body.length = header.length := by
    rw [List.length_append, Nat.add_sub_cancel]
  have hbody : ((header ++ body ++ rest).drop header.length).take h.remainingLength = body := by
    rw [List.append_assoc, List.drop_left, ← hp.length, List.take_left]
  rw [Mqtt.unpackResponse, hp.unpackFixedHeader, hused]
  simp only [hbody]

/-- What stands in a buffer that does not hold the packet: its header, as far as it goes. -/
def FixedHeader.begun (h : FixedHeader) (bytes : List Byte) (bufsz : Nat) : List Byte :=
  (bytes.take (1 + lengthBytes h.remainingLength)).take bufsz

/-- `mqtt_pack_fixed_header` leaves room for the rest of the packet; the checks behind it
never fail. -/
theorem packPacket_eq {h : FixedHeader} {body : List Byte}
    (hrule : fixedHeaderRuleViolation h = none) (hbound : h.remainingLength < 256 * 1024 * 1024)
    (hlength : body.length = h.remainingLength) :
    ∃ bytes, IsPacket h body bytes ∧
      ∀ bufsz, packPacket bufsz h body =
        if bytes.length ≤ bufsz then .wrote bytes else .full (h.begun bytes bufsz) := by
  obtain ⟨header, hheader⟩ := exists_isHeader hrule hbound
  refine ⟨header ++ body, ⟨hlength, header, hheader, rfl⟩, ?_⟩
  intro bufsz
  rw [FixedHeader.begun, ← hheader.length_eq, List.take_left, packPacket, hheader.pack,
    List.length_append, hlength]
  by_cases hroom : header.length + h.remainingLength ≤ bufsz
  · rw [if_pos hroom, if_pos hroom]
    exact if_neg (by omega)
  · rw [if_neg hroom, if_neg hroom]

/-! ## Every packing function -/

/-- The acknowledgements of a publish. -/
def ControlType.IsPubxxx (t : ControlType) : Prop :=
  t = .puback ∨ t = .pubrec ∨ t = .pubrel ∨ t = .pubcomp

instance (t : ControlType) : Decidable t.IsPubxxx := inferInstanceAs (Decidable (_ ∨ _))

/-- The strings of a request are short enough for their length fields. -/
def Request.Short : Request → Prop
  | .connect args =>
      Mqtt.Short (args.clientId.getD []) ∧ Mqtt.Short (args.willTopic.getD []) ∧
        Mqtt.Short (args.willMessage.getD []) ∧ Mqtt.Short (args.userName.getD []) ∧
        Mqtt.Short (args.password.getD [])
  | .publish topicName _ applicationMessage _ =>
      packedCstrlen topicName < 2 ^ 16 ∧ Mqtt.Short applicationMessage
  | .pubxxx controlType _ => controlType.IsPubxxx
  | .subscribe _ subscriptions => ∀ s ∈ subscriptions, Mqtt.Short s.1
  | .unsubscribe _ topics => ∀ topicName ∈ topics, Mqtt.Short topicName
  | .pingreq | .disconnect => True

instance : DecidablePred Request.Short
  | .connect _ => inferInstanceAs (Decidable (_ ∧ _))
  | .publish .. => inferInstanceAs (Decidable (_ ∧ _))
  | .pubxxx controlType _ => inferInstanceAs (Decidable controlType.IsPubxxx)
  | .subscribe _ subscriptions => inferInstanceAs (Decidable (∀ s ∈ subscriptions, Mqtt.Short s.1))
  | .unsubscribe _ topics =>
      inferInstanceAs (Decidable (∀ topicName ∈ topics, Mqtt.Short topicName))
  | .pingreq | .disconnect => isTrue trivial

/-- Packing fails in any buffer, or gives one packet in every buffer that holds it, and zero and
part of the header in the others. -/
def Request.Settled (r : Request) : Prop :=
  (∃ e, ∀ bufsz, r.pack bufsz = .failed e) ∨
    ∃ h body bytes, IsPacket h body bytes ∧ h.controlType = r.controlType.code ∧
      ∀ bufsz, r.pack bufsz =
        if bytes.length ≤ bufsz then .wrote bytes else .full (h.begun bytes bufsz)

theorem Request.settled_of_packPacket {r : Request} {flags : BitVec 4} {n : Nat}
    {body : List Byte}
    (hpack : ∀ bufsz, r.pack bufsz = packPacket bufsz ⟨r.controlType.code, flags, n⟩ body)
    (hflags : r.controlType.FlagsOk flags) (hbound : n < 256 * 1024 * 1024)
    (hlength : body.length = n) : r.Settled := by
  obtain ⟨bytes, hpacket, hbytes⟩ :=
    packPacket_eq (ruleViolation_eq_none hflags n) hbound hlength
  exact .inr ⟨_, body, bytes, hpacket, rfl, fun bufsz => (hpack bufsz).trans (hbytes bufsz)⟩

theorem packPacket_nil (bufsz : Nat) (c flags : BitVec 4) :
    packPacket bufsz ⟨c, flags, 0⟩ [] = packFixedHeader bufsz ⟨c, flags, 0⟩ := by
  unfold packPacket
  cases packFixedHeader bufsz ⟨c, flags, 0⟩ with
  | failed e => rfl
  | full written => rfl
  | wrote header =>
      show (if bufsz - header.length < 0 then Packed.full header else .wrote (header ++ [])) = _
      rw [if_neg (Nat.not_lt_zero _), List.append_nil]

theorem length_packOptional {str : Option (List Byte)} (h : Short (str.getD [])) :
    (packOptional str).length = packedLength str := by
  cases str with
  | none => rfl
  | some str => exact length_packStr h

theorem packedLength_le {str : Option (List Byte)} (h : Short (str.getD [])) :
    packedLength str < 2 ^ 17 := by
  cases str with
  | none => exact Nat.two_pow_pos 17
  | some str =>
      have hlt : str.length < 2 ^ 16 := h
      show 2 + str.length < 2 ^ 17
      omega

theorem sum_lt {α : Type} {f : α → Nat} {xs : List α} (hcount : ¬ requestMaxNumTopics ≤ xs.length)
    (hf : ∀ x ∈ xs, f x < 2 ^ 17) : (xs.map f).sum < 2 ^ 20 := by
  have hsum : (xs.map f).sum ≤ (xs.map f).length • 2 ^ 17 := by
    apply List.sum_le_card_nsmul
    intro n hn
    obtain ⟨x, hx, rfl⟩ := List.mem_map.mp hn
    exact Nat.le_of_lt (hf x hx)
  rw [List.length_map, nsmul_eq_mul] at hsum
  have hseven : xs.length ≤ 7 := by
    rw [requestMaxNumTopics] at hcount
    omega
  calc (xs.map f).sum ≤ xs.length * 2 ^ 17 := hsum
    _ ≤ 7 * 2 ^ 17 := Nat.mul_le_mul_right _ hseven
    _ < 2 ^ 20 := by decide

theorem ConnectArgs.length_pack {args : ConnectArgs} (h : (Request.connect args).Short) :
    args.pack.length = args.remainingLength := by
  obtain ⟨hid, htopic, -, huser, hpassword⟩ := h
  simp only [ConnectArgs.pack, ConnectArgs.remainingLength, List.length_append, List.length_cons,
    List.length_nil, length_packUint16, length_packStr hid, length_packOptional huser,
    length_packOptional hpassword]
  split
  · simp only [List.length_append, length_packOptional htopic, length_packUint16]
    omega
  · rfl

theorem ConnectArgs.remainingLength_lt {args : ConnectArgs} (h : (Request.connect args).Short) :
    args.remainingLength < 2 ^ 20 := by
  obtain ⟨hid, htopic, hmessage, huser, hpassword⟩ := h
  have hid' : (args.clientId.getD []).length < 2 ^ 16 := hid
  have hmessage' : (args.willMessage.getD []).length < 2 ^ 16 := hmessage
  have htopic' := packedLength_le htopic
  have huser' := packedLength_le huser
  have hpassword' := packedLength_le hpassword
  rw [ConnectArgs.remainingLength, packedCstrlen]
  split <;> omega

theorem settled_connect {args : ConnectArgs} (hshort : (Request.connect args).Short) :
    (Request.connect args).Settled := by
  by_cases hclean : args.clientId.getD [] = [] ∧ args.connectFlags &&& connectCleanSession = 0
  · exact .inl ⟨.cleanSessionIsRequired, fun bufsz => if_pos hclean⟩
  by_cases hnull : args.willTopic.isSome ∧ args.willMessage = none
  · exact .inl ⟨.connectNullWillMessage, fun bufsz => (if_neg hclean).trans (if_pos hnull)⟩
  by_cases hqos : args.willTopic.isSome ∧ args.connectFlags &&& connectWillQos = connectWillQos
  · exact .inl ⟨.connectForbiddenWillQos, fun bufsz =>
      (if_neg hclean).trans ((if_neg hnull).trans (if_pos hqos))⟩
  have hlt := ConnectArgs.remainingLength_lt hshort
  refine Request.settled_of_packPacket
    (fun bufsz => (if_neg hclean).trans ((if_neg hnull).trans (if_neg hqos))) (.inr rfl) ?_ ?_
  · rw [Nat.mod_eq_of_lt (by omega)]
    omega
  · rw [Nat.mod_eq_of_lt (by omega), ConnectArgs.length_pack hshort]

theorem publishRemainingLength_eq {topicName : List Byte} {n : Nat} {publishFlags : Byte}
    (htopic : packedCstrlen topicName < 2 ^ 16) (hmessage : n < 2 ^ 16) :
    publishRemainingLength topicName n publishFlags =
      2 + topicName.length + (if 0 < inspectedQos publishFlags then 2 else 0) + n := by
  rw [publishRemainingLength, Nat.mod_eq_of_lt htopic, Nat.mod_eq_of_lt hmessage, packedCstrlen]

theorem publishRemainingLength_lt {topicName : List Byte} {n : Nat} {publishFlags : Byte}
    (htopic : packedCstrlen topicName < 2 ^ 16) (hmessage : n < 2 ^ 16) :
    publishRemainingLength topicName n publishFlags < 256 * 1024 * 1024 := by
  have htopic' : 2 + topicName.length < 2 ^ 16 := htopic
  rw [publishRemainingLength_eq htopic hmessage]
  split <;> omega

/-- The flags that `mqtt_pack_publish_request` puts into the header. -/
def headerFlags (publishFlags : Byte) : BitVec 4 :=
  (if inspectedQos publishFlags = 0 then publishFlags &&& ~~~publishDup
    else publishFlags).setWidth 4

def publishHeader (topicName applicationMessage : List Byte) (publishFlags : Byte) : FixedHeader :=
  { controlType := ControlType.publish.code
    controlFlags := headerFlags publishFlags
    remainingLength := publishRemainingLength topicName applicationMessage.length publishFlags }

def publishBody (topicName : List Byte) (packetId : BitVec 16) (applicationMessage : List Byte)
    (publishFlags : Byte) : List Byte :=
  packStr topicName ++ (if 0 < inspectedQos publishFlags then packUint16 packetId else []) ++
    applicationMessage

theorem length_publishBody {topicName applicationMessage : List Byte} {packetId : BitVec 16}
    {publishFlags : Byte} (htopic : packedCstrlen topicName < 2 ^ 16)
    (hmessage : Short applicationMessage) :
    (publishBody topicName packetId applicationMessage publishFlags).length =
      publishRemainingLength topicName applicationMessage.length publishFlags := by
  have htopic' : 2 + topicName.length < 2 ^ 16 := htopic
  rw [publishRemainingLength_eq htopic hmessage, publishBody, List.length_append,
    List.length_append, length_packStr (show topicName.length < 2 ^ 16 by omega)]
  split <;> rfl

theorem packPublishRequest_eq {topicName applicationMessage : List Byte} {packetId : BitVec 16}
    {publishFlags : Byte} (htopic : packedCstrlen topicName < 2 ^ 16)
    (hmessage : Short applicationMessage) (hqos : inspectedQos publishFlags ≠ 3) :
    ∃ bytes,
      IsPacket (publishHeader topicName applicationMessage publishFlags)
        (publishBody topicName packetId applicationMessage publishFlags) bytes ∧
      ∀ bufsz, packPublishRequest bufsz topicName packetId applicationMessage publishFlags =
        if bytes.length ≤ bufsz then
          .wrote bytes
        else
          .full ((publishHeader topicName applicationMessage publishFlags).begun bytes bufsz) := by
  have hlength : (publishBody topicName packetId applicationMessage publishFlags).length =
      (publishHeader topicName applicationMessage publishFlags).remainingLength :=
    length_publishBody htopic hmessage
  have hrule : fixedHeaderRuleViolation
      (publishHeader topicName applicationMessage publishFlags) = none :=
    ruleViolation_eq_none (.inl rfl) _
  obtain ⟨bytes, hpacket, hbytes⟩ :=
    packPacket_eq hrule (publishRemainingLength_lt htopic hmessage) hlength
  exact ⟨bytes, hpacket, fun bufsz => (if_neg hqos).trans (hbytes bufsz)⟩

theorem settled_publish {topicName applicationMessage : List Byte} {packetId : BitVec 16}
    {publishFlags : Byte}
    (hshort : (Request.publish topicName packetId applicationMessage publishFlags).Short) :
    (Request.publish topicName packetId applicationMessage publishFlags).Settled := by
  obtain ⟨htopic, hmessage⟩ := hshort
  by_cases hqos : inspectedQos publishFlags = 3
  · exact .inl ⟨.publishForbiddenQos, fun bufsz => if_pos hqos⟩
  · obtain ⟨bytes, hpacket, hbytes⟩ := packPublishRequest_eq htopic hmessage hqos
    exact .inr ⟨_, _, bytes, hpacket, rfl, hbytes⟩

theorem settled_pubxxx {controlType : ControlType} {packetId : BitVec 16}
    (hack : controlType.IsPubxxx) : (Request.pubxxx controlType packetId).Settled := by
  refine Request.settled_of_packPacket (fun bufsz => rfl) (.inr ?_) (by decide) rfl
  rcases hack with rfl | rfl | rfl | rfl <;> rfl

theorem settled_subscribe {packetId : BitVec 16} {subscriptions : List (List Byte × Byte)}
    (hshort : ∀ s ∈ subscriptions, Short s.1) :
    (Request.subscribe packetId subscriptions).Settled := by
  by_cases hcount : requestMaxNumTopics ≤ subscriptions.length
  · exact .inl ⟨.subscribeTooManyTopics, fun bufsz => if_pos hcount⟩
  have hsum : (subscriptions.map fun s => packedCstrlen s.1 + 1).sum < 2 ^ 20 := by
    apply sum_lt hcount
    intro s hs
    have hlt : s.1.length < 2 ^ 16 := hshort s hs
    rw [packedCstrlen]
    omega
  refine Request.settled_of_packPacket (fun bufsz => if_neg hcount) (.inr rfl) (by omega) ?_
  rw [Nat.mod_eq_of_lt (by omega), List.length_append, length_packUint16, List.length_flatMap]
  congr 2
  apply List.map_congr_left
  intro s hs
  rw [List.length_append, length_packStr (hshort s hs), List.length_singleton]

theorem settled_unsubscribe {packetId : BitVec 16} {topics : List (List Byte)}
    (hshort : ∀ topicName ∈ topics, Short topicName) :
    (Request.unsubscribe packetId topics).Settled := by
  by_cases hcount : requestMaxNumTopics ≤ topics.length
  · exact .inl ⟨.unsubscribeTooManyTopics, fun bufsz => if_pos hcount⟩
  have hsum : (topics.map packedCstrlen).sum < 2 ^ 20 := by
    apply sum_lt hcount
    intro topicName htopic
    have hlt : topicName.length < 2 ^ 16 := hshort topicName htopic
    rw [packedCstrlen]
    omega
  refine Request.settled_of_packPacket (fun bufsz => if_neg hcount) (.inr rfl) (by omega) ?_
  rw [Nat.mod_eq_of_lt (by omega), List.length_append, length_packUint16, List.length_flatMap]
  congr 2
  apply List.map_congr_left
  intro topicName htopic
  exact length_packStr (hshort topicName htopic)

theorem Request.settled_of_packFixedHeader {r : Request} {flags : BitVec 4}
    (hpack : ∀ bufsz, r.pack bufsz = packFixedHeader bufsz ⟨r.controlType.code, flags, 0⟩)
    (hflags : r.controlType.FlagsOk flags) : r.Settled :=
  Request.settled_of_packPacket (fun bufsz => (hpack bufsz).trans (packPacket_nil ..).symm)
    hflags (by decide) rfl

/-- **Packing is all or nothing**, and what is packed is a whole packet: the bytes are the same
in every buffer that holds them, and as many as the header announces. -/
theorem Request.settled {r : Request} (hshort : r.Short) : r.Settled := by
  cases r with
  | connect args => exact settled_connect hshort
  | publish topicName packetId applicationMessage publishFlags => exact settled_publish hshort
  | pubxxx controlType packetId => exact settled_pubxxx hshort
  | subscribe packetId subscriptions => exact settled_subscribe hshort
  | unsubscribe packetId topics => exact settled_unsubscribe hshort
  | pingreq => exact settled_of_packFixedHeader (fun bufsz => rfl) (.inr rfl)
  | disconnect => exact settled_of_packFixedHeader (fun bufsz => rfl) (.inr rfl)

/-! ## A publish, read back -/

theorem inspectedQos_headerFlags (publishFlags : Byte) :
    inspectedQos ((headerFlags publishFlags).setWidth 8) = inspectedQos publishFlags := by
  revert publishFlags
  decide +kernel

theorem dup_headerFlags (publishFlags : Byte) :
    ((headerFlags publishFlags).setWidth 8 &&& publishDup) >>> 3 =
      if inspectedQos publishFlags = 0 then (0 : Byte)
      else (publishFlags &&& publishDup) >>> 3 := by
  revert publishFlags
  decide +kernel

theorem retain_headerFlags (publishFlags : Byte) :
    (headerFlags publishFlags).setWidth 8 &&& publishRetain = publishFlags &&& publishRetain := by
  revert publishFlags
  decide +kernel

/-- What the receiver of a publish gets to see. -/
def ResponsePublish.of (topicName : List Byte) (packetId : BitVec 16)
    (applicationMessage : List Byte) (publishFlags : Byte) : ResponsePublish where
  dupFlag := if inspectedQos publishFlags = 0 then 0 else (publishFlags &&& publishDup) >>> 3
  qosLevel := inspectedQos publishFlags
  retainFlag := publishFlags &&& publishRetain
  topicNameSize := topicName.length
  topicName
  packetId := if 0 < inspectedQos publishFlags then some packetId else none
  applicationMessageSize := applicationMessage.length
  applicationMessage

theorem unpackPublishResponse_publishBody {topicName applicationMessage : List Byte}
    {packetId : BitVec 16} {publishFlags : Byte} (htopic : packedCstrlen topicName < 2 ^ 16)
    (hmessage : Short applicationMessage)
    (hfour : 4 ≤ publishRemainingLength topicName applicationMessage.length publishFlags) :
    unpackPublishResponse (publishHeader topicName applicationMessage publishFlags)
      (publishBody topicName packetId applicationMessage publishFlags) =
    .ok (.publish (.of topicName packetId applicationMessage publishFlags),
      publishRemainingLength topicName applicationMessage.length publishFlags) := by
  have htopic' : topicName.length < 2 ^ 16 := by
    rw [packedCstrlen] at htopic
    omega
  have hmessage' : applicationMessage.length < 2 ^ 16 := hmessage
  let packetIdBytes := if 0 < inspectedQos publishFlags then packUint16 packetId else []
  have hbody : publishBody topicName packetId applicationMessage publishFlags =
      packUint16 (BitVec.ofNat 16 topicName.length) ++
        (topicName ++ (packetIdBytes ++ applicationMessage)) := by
    rw [publishBody, packStr_eq htopic']
    simp only [List.append_assoc, packetIdBytes]
  have hid : packetIdBytes.length = if 0 < inspectedQos publishFlags then 2 else 0 := by
    simp only [packetIdBytes]
    split <;> rfl
  have hvariable : ∀ body : List Byte,
      (packUint16 (BitVec.ofNat 16 topicName.length) ++ (topicName ++ body)).drop
        (2 + topicName.length) = body := by
    intro body
    rw [← List.append_assoc]
    exact List.drop_left' (by rw [List.length_append, length_packUint16])
  have hsize : (2 + topicName.length + packetIdBytes.length + applicationMessage.length + 2 ^ 32 -
      (2 + topicName.length + packetIdBytes.length)) % 2 ^ 32 = applicationMessage.length := by
    have hlt : packetIdBytes.length ≤ 2 := by
      rw [hid]
      split <;> omega
    omega
  rw [publishHeader, publishRemainingLength_eq htopic hmessage', ← hid]
  rw [publishRemainingLength_eq htopic hmessage', ← hid] at hfour
  have hmessageBytes : (publishBody topicName packetId applicationMessage publishFlags).drop
      (2 + topicName.length + packetIdBytes.length) = applicationMessage := by
    rw [hbody, ← List.drop_drop, hvariable, List.drop_left]
  have htopicBytes : ((publishBody topicName packetId applicationMessage publishFlags).drop 2).take
      topicName.length = topicName := by
    rw [hbody, List.drop_left' (length_packUint16 _), List.take_left]
  have htopicSize : ((unpackUint16
      (publishBody topicName packetId applicationMessage publishFlags)).getD 0).toNat =
      topicName.length := by
    rw [hbody, unpackUint16_packUint16, Option.getD_some, toNat_length htopic']
  have hpacketId : (if 0 < inspectedQos publishFlags then
      unpackUint16 ((publishBody topicName packetId applicationMessage publishFlags).drop
        (2 + topicName.length)) else none) =
      if 0 < inspectedQos publishFlags then some packetId else none := by
    split
    · rename_i hpos
      rw [hbody, hvariable]
      simp only [packetIdBytes, if_pos hpos, unpackUint16_packUint16]
    · rfl
  simp only [unpackPublishResponse, if_neg (Nat.not_lt.mpr hfour), inspectedQos_headerFlags,
    dup_headerFlags, retain_headerFlags, htopicSize, htopicBytes, hpacketId, ← hid, hsize,
    hmessageBytes, List.take_length]
  rfl

theorem isPacket_publish {bufsz : Nat} {topicName applicationMessage bytes : List Byte}
    {packetId : BitVec 16} {publishFlags : Byte} (htopic : packedCstrlen topicName < 2 ^ 16)
    (hmessage : Short applicationMessage)
    (hpack : packPublishRequest bufsz topicName packetId applicationMessage publishFlags =
      .wrote bytes) :
    IsPacket (publishHeader topicName applicationMessage publishFlags)
      (publishBody topicName packetId applicationMessage publishFlags) bytes := by
  have hqos : inspectedQos publishFlags ≠ 3 := by
    intro hqos
    rw [packPublishRequest, if_pos hqos] at hpack
    cases hpack
  obtain ⟨bytes', hpacket, heq⟩ := packPublishRequest_eq htopic hmessage hqos
  rw [heq] at hpack
  split at hpack
  · cases hpack
    exact hpacket
  · cases hpack

theorem unpackResponse_of_isPacket {topicName applicationMessage bytes : List Byte}
    {packetId : BitVec 16} {publishFlags : Byte} (htopic : packedCstrlen topicName < 2 ^ 16)
    (hmessage : Short applicationMessage)
    (hpacket : IsPacket (publishHeader topicName applicationMessage publishFlags)
      (publishBody topicName packetId applicationMessage publishFlags) bytes) (rest : List Byte) :
    unpackResponse (bytes ++ rest) =
      if publishRemainingLength topicName applicationMessage.length publishFlags < 4 then
        .failed .malformedResponse
      else
        .frame (.publish (.of topicName packetId applicationMessage publishFlags))
          bytes.length := by
  have htype : ∀ body, unpackByType (publishHeader topicName applicationMessage publishFlags) body =
      unpackPublishResponse (publishHeader topicName applicationMessage publishFlags) body :=
    fun body => rfl
  rw [hpacket.unpackResponse, htype]
  by_cases hfour : publishRemainingLength topicName applicationMessage.length publishFlags < 4
  · have hshort : unpackPublishResponse (publishHeader topicName applicationMessage publishFlags)
        (publishBody topicName packetId applicationMessage publishFlags) =
        .error .malformedResponse :=
      if_pos hfour
    rw [if_pos hfour, hshort, behindHeader]
  · rw [if_neg hfour, unpackPublishResponse_publishBody htopic hmessage (Nat.not_lt.mp hfour),
      ← length_publishBody htopic hmessage, behindHeader, Nat.sub_add_cancel]
    exact hpacket.body_le

/-- The member of `struct mqtt_response` for an acknowledgement. -/
def Response.pubxxx (controlType : ControlType) (packetId : BitVec 16) : Response :=
  match controlType with
  | .puback => .puback packetId
  | .pubrec => .pubrec packetId
  | .pubrel => .pubrel packetId
  | _ => .pubcomp packetId

theorem unpackByType_pubxxx {controlType : ControlType} (hack : controlType.IsPubxxx)
    {flags : BitVec 4} (packetId : BitVec 16) :
    unpackByType ⟨controlType.code, flags, 2⟩ (packUint16 packetId) =
      .ok (.pubxxx controlType packetId, 2) := by
  have hid : unpackUint16 (packUint16 packetId) = some packetId := by
    have hread := unpackUint16_packUint16 packetId []
    rwa [List.append_nil] at hread
  rcases hack with rfl | rfl | rfl | rfl <;>
    simp [unpackByType, unpackPubxxxResponse, unpackPacketId, hid, Response.pubxxx]

theorem packPubxxxRequest_eq {controlType : ControlType} (hack : controlType.IsPubxxx)
    (packetId : BitVec 16) :
    ∃ flags bytes, IsPacket ⟨controlType.code, flags, 2⟩ (packUint16 packetId) bytes ∧
      ∀ bufsz, packPubxxxRequest bufsz controlType packetId =
        if bytes.length ≤ bufsz then .wrote bytes
        else .full (FixedHeader.begun ⟨controlType.code, flags, 2⟩ bytes bufsz) := by
  have hflags : controlType.FlagsOk (if controlType = .pubrel then 2 else 0) := by
    rcases hack with rfl | rfl | rfl | rfl <;> exact .inr rfl
  exact ⟨_, packPacket_eq (ruleViolation_eq_none hflags 2)
    (show 2 < 256 * 1024 * 1024 by decide) (length_packUint16 packetId)⟩

/-- **An acknowledgement comes back as it went out**, whatever follows it. -/
theorem unpackResponse_packPubxxxRequest {controlType : ControlType} (hack : controlType.IsPubxxx)
    {bufsz : Nat} {packetId : BitVec 16} {bytes : List Byte}
    (hpack : packPubxxxRequest bufsz controlType packetId = .wrote bytes) (rest : List Byte) :
    unpackResponse (bytes ++ rest) = .frame (.pubxxx controlType packetId) bytes.length := by
  obtain ⟨flags, bytes', hpacket, heq⟩ := packPubxxxRequest_eq hack packetId
  have hbytes : bytes = bytes' := by
    rw [heq] at hpack
    split at hpack
    · exact (Packed.wrote.inj hpack).symm
    · cases hpack
  subst hbytes
  have hbody := hpacket.body_le
  rw [hpacket.unpackResponse, unpackByType_pubxxx hack, behindHeader]
  rw [length_packUint16] at hbody ⊢
  rw [Nat.sub_add_cancel hbody]

theorem unpackResponse_packPubxxxRequest_puback :
    unpackResponse ([0x40, 2, 0, 7] ++ [0xD0]) = .frame (.puback 7) 4 := by
  have hpack : packPubxxxRequest 2048 .puback 7 = .wrote [0x40, 2, 0, 7] := by decide
  exact unpackResponse_packPubxxxRequest (by decide) hpack [0xD0]

/-! ## Reading packets from a stream -/

theorem unpackResponse_used {xs : List Byte} {response : Response} {n : Nat}
    (h : unpackResponse xs = .frame response n) : 0 < n := by
  unfold unpackResponse at h
  split at h
  · cases h
  · cases h
  rename_i fixedHeader used hframe
  obtain ⟨hused, _⟩ := unpackFixedHeader_used hframe
  unfold behindHeader at h
  split at h
  · cases h
  · cases h
    omega

/-- What `mqtt_unpack_response` has decided does not change when more bytes arrive. -/
theorem unpackResponse_settled {xs : List Byte} (h : unpackResponse xs ≠ .more)
    (ys : List Byte) : unpackResponse (xs ++ ys) = unpackResponse xs := by
  have hheader : unpackFixedHeader xs ≠ .more := by
    intro hmore
    exact h (by rw [unpackResponse, hmore])
  simp only [unpackResponse, unpackFixedHeader_settled hheader ys]
  cases hframe : unpackFixedHeader xs with
  | failed e => rfl
  | more => rfl
  | frame fixedHeader used =>
      obtain ⟨_, hle, _⟩ := unpackFixedHeader_used hframe
      have hbody : ((xs ++ ys).drop used).take fixedHeader.remainingLength =
          (xs.drop used).take fixedHeader.remainingLength := by
        rw [List.drop_append_of_le_length (by omega), List.take_append_of_le_length]
        rw [List.length_drop]
        omega
      simp only [hbody]

/-- The client's reading of the stream from the broker. -/
def responses : Framer Byte Error Response where
  scan := unpackResponse
  used_pos := unpackResponse_used
  settled := unpackResponse_settled

end SmartHome.Mqtt
