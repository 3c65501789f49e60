/-
# `Mqtt.Accepts` — what is taken for a packet

Everything a session has handled was one whole packet of the stream, with one exception, a PINGRESP
that announces a body: only its header is taken off, and the client goes on inside of it.  No byte
is lost before the socket fails (`handled_whole`).  What the callback is given lies within the
packet it came in, as long as no publish comes with sizes that reach beyond it
(`delivered_within`).
-/
import SmartHome.Mqtt.Outgoing

namespace SmartHome.Mqtt

open Framing Entries

/-! ## A header and no more than its packet -/

theorem unpackRemainingLength_take {lshift acc n used k : Nat} {xs : List Byte}
    (h : unpackRemainingLength lshift acc xs = .frame n used) (hk : used ≤ k) :
    unpackRemainingLength lshift acc (xs.take k) = .frame n used := by
  induction xs generalizing lshift acc used k with
  | nil =>
      rw [unpackRemainingLength] at h
      split at h <;> cases h
  | cons byte xs ih =>
      have hpos := (unpackRemainingLength_used h).1
      obtain ⟨k, rfl⟩ : ∃ m, k = m + 1 := ⟨k - 1, by omega⟩
      rw [List.take_succ_cons]
      simp only [unpackRemainingLength] at h ⊢
      by_cases hlast : lshift = 28
      · rw [if_pos hlast] at h
        cases h
      rw [if_neg hlast] at h ⊢
      by_cases hgo : byte &&& 0x80 ≠ 0
      · rw [if_pos hgo] at h ⊢
        cases hrest : unpackRemainingLength (lshift + 7)
            (acc + (byte &&& 0x7F).toNat <<< lshift) xs with
        | failed e =>
            rw [hrest] at h
            cases h
        | more =>
            rw [hrest] at h
            cases h
        | frame n' used' =>
            rw [hrest] at h
            cases h
            rw [ih hrest (by omega)]
      · rw [if_neg hgo] at h ⊢
        exact h

theorem unpackFixedHeader_take {xs : List Byte} {h : FixedHeader} {used : Nat}
    (hs : unpackFixedHeader xs = .frame h used) :
    unpackFixedHeader (xs.take (used + h.remainingLength)) = .frame h used := by
  obtain ⟨hused, hle, -⟩ := unpackFixedHeader_used hs
  cases xs with
  | nil => cases hs
  | cons control rest =>
      obtain ⟨k, hk⟩ : ∃ k, used + h.remainingLength = k + 1 :=
        ⟨used + h.remainingLength - 1, by omega⟩
      rw [hk, List.take_succ_cons]
      rw [hk, List.length_cons] at hle
      unfold unpackFixedHeader at hs ⊢
      cases hlength : unpackRemainingLength 0 0 rest with
      | failed e =>
          simp only [hlength] at hs
          cases hs
      | more =>
          simp only [hlength] at hs
          cases hs
      | frame n used' =>
          simp only [hlength] at hs
          split at hs
          · cases hs
          rename_i hrule
          split at hs
          · cases hs
          · cases hs
            simp only at hk
            have hpart := unpackRemainingLength_take hlength (show used' ≤ k by omega)
            simp only [hpart, hrule]
            rw [if_neg]
            rw [List.length_take]
            omega

/-! ## The body of a packet -/

/-- The sizes are those of the bytes pointed at. -/
def ResponsePublish.Within (message : ResponsePublish) : Prop :=
  message.topicName.length = message.topicNameSize ∧
    message.applicationMessage.length = message.applicationMessageSize

/-- A publish with sizes that reach beyond its packet. -/
def Response.Overlong (response : Response) : Prop :=
  ∃ message, response = .publish message ∧ ¬ message.Within

/-- The variable header of a publish lies within the packet, or what is taken off is longer than
any buffer. -/
theorem unpackPublishResponse_spec {h : FixedHeader} {body : List Byte} {response : Response}
    {n : Nat} (hlength : body.length = h.remainingLength) (hsize : h.remainingLength < 2 ^ 32)
    (hok : unpackPublishResponse h body = .ok (response, n)) :
    (n = h.remainingLength ∧ ∀ message, response.toPublish = some message → message.Within) ∨
      (2 ^ 32 ≤ n ∧ response.Overlong) := by
  simp only [unpackPublishResponse] at hok
  split at hok
  · cases hok
  · cases hok
    have htopic : ((unpackUint16 body).getD 0).toNat < 2 ^ 16 := BitVec.isLt _
    generalize ((unpackUint16 body).getD 0).toNat = topicNameSize at htopic ⊢
    have hid : (if 0 < inspectedQos (h.controlFlags.setWidth 8) then 2 else 0) ≤ 2 := by
      split <;> omega
    generalize (if 0 < inspectedQos (h.controlFlags.setWidth 8) then 2 else 0) = idSize at hid ⊢
    by_cases hfits : 2 + topicNameSize + idSize ≤ h.remainingLength
    · have hrest : (h.remainingLength + 2 ^ 32 - (2 + topicNameSize + idSize)) % 2 ^ 32 =
          h.remainingLength - (2 + topicNameSize + idSize) := by omega
      rw [hrest]
      refine .inl ⟨by omega, ?_⟩
      intro message hmessage
      cases hmessage
      constructor
      · show ((body.drop 2).take topicNameSize).length = topicNameSize
        rw [List.length_take, List.length_drop]
        omega
      · show ((body.drop _).take (h.remainingLength - (2 + topicNameSize + idSize))).length =
          h.remainingLength - (2 + topicNameSize + idSize)
        rw [List.length_take, List.length_drop]
        omega
    · have hwrap : (h.remainingLength + 2 ^ 32 - (2 + topicNameSize + idSize)) % 2 ^ 32 =
          h.remainingLength + 2 ^ 32 - (2 + topicNameSize + idSize) :=
        Nat.mod_eq_of_lt (by omega)
      rw [hwrap]
      refine .inr ⟨by omega, _, rfl, ?_⟩
      -- nothing of the message is left in the packet
      rintro ⟨-, hmessage⟩
      simp only [List.length_take, List.length_drop] at hmessage
      omega

theorem unpackByType_spec {h : FixedHeader} {body : List Byte} {response : Response}
    {n : Nat} (hlength : body.length = h.remainingLength) (hsize : h.remainingLength < 2 ^ 32)
    (hok : unpackByType h body = .ok (response, n)) :
    (n = h.remainingLength ∧ ∀ message, response.toPublish = some message → message.Within) ∨
      (response = .pingresp ∧ h.controlType = ControlType.pingresp.code ∧ n = 0) ∨
      (2 ^ 32 ≤ n ∧ response.Overlong) := by
  have hid : ∀ {member : BitVec 16 → Response}, (∀ id, (member id).toPublish = none) →
      unpackPacketId member h body = .ok (response, n) →
      n = h.remainingLength ∧ ∀ message, response.toPublish = some message → message.Within := by
    intro member hmember hok
    simp only [unpackPacketId] at hok
    split at hok
    · cases hok
    · rename_i htwo
      cases hok
      refine ⟨(not_not.mp htwo).symm, ?_⟩
      intro message hm
      exact absurd ((hmember _).symm.trans hm).symm (Option.some_ne_none message)
  unfold unpackByType at hok
  split at hok
  · simp only [unpackConnackResponse] at hok
    split at hok
    · cases hok
    rename_i htwo
    split at hok
    · cases hok
    split at hok
    · cases hok
    · cases hok
      refine .inl ⟨(not_not.mp htwo).symm, ?_⟩
      intro message hm
      cases hm
  · rcases unpackPublishResponse_spec hlength hsize hok with hwithin | hover
    · exact .inl hwithin
    · exact .inr (.inr hover)
  · exact .inl (hid (fun _ => rfl) hok)
  · exact .inl (hid (fun _ => rfl) hok)
  · exact .inl (hid (fun _ => rfl) hok)
  · exact .inl (hid (fun _ => rfl) hok)
  · simp only [unpackSubackResponse] at hok
    split at hok
    · cases hok
    · cases hok
      refine .inl ⟨rfl, ?_⟩
      intro message hm
      cases hm
  · exact .inl (hid (fun _ => rfl) hok)
  · rename_i hcode
    cases hok
    exact .inr (.inl ⟨rfl, (ControlType.code_of_ofCode hcode).symm, rfl⟩)
  · cases hok

/-! ## Whole packets -/

/-- The bytes are one packet, and the response in it. -/
def Legal (block : List Byte × Response) : Prop :=
  unpackResponse block.1 = .frame block.2 block.1.length

/-- The bytes are the header of a PINGRESP that announces a body. -/
def IsPingHeader (bytes : List Byte) : Prop :=
  ∃ h body, unpackFixedHeader (bytes ++ body) = .frame h bytes.length ∧
    h.controlType = ControlType.pingresp.code ∧ 0 < h.remainingLength

/-- The response came in these bytes. -/
def CameIn (bytes : List Byte) (response : Response) : Prop :=
  (Legal (bytes, response) ∧
      ∀ message, response.toPublish = some message → message.Within) ∨
    (response = .pingresp ∧ IsPingHeader bytes)

theorem unpackResponse_cases {xs : List Byte} {response : Response} {n : Nat}
    (hscan : unpackResponse xs = .frame response n) :
    ∃ h used n', unpackFixedHeader xs = .frame h used ∧ used + h.remainingLength ≤ xs.length ∧
      ((xs.drop used).take h.remainingLength).length = h.remainingLength ∧
      unpackByType h ((xs.drop used).take h.remainingLength) = .ok (response, n') ∧
      n = used + n' := by
  unfold unpackResponse at hscan
  split at hscan
  · cases hscan
  · cases hscan
  rename_i h used hheader
  obtain ⟨-, hroom, -⟩ := unpackFixedHeader_used hheader
  cases hbody : unpackByType h ((xs.drop used).take h.remainingLength) with
  | error e =>
      rw [hbody] at hscan
      cases hscan
  | ok r =>
      obtain ⟨response', n'⟩ := r
      rw [hbody] at hscan
      cases hscan
      refine ⟨h, used, n', hheader, hroom, ?_, hbody, rfl⟩
      rw [List.length_take, List.length_drop]
      omega

theorem unpackResponse_le {xs : List Byte} {response : Response} {n : Nat}
    (hscan : unpackResponse xs = .frame response n) (hsize : xs.length < 2 ^ 32) :
    n ≤ xs.length ∨ (2 ^ 32 ≤ n ∧ response.Overlong) := by
  obtain ⟨h, used, n', -, hroom, hlength, hbody, rfl⟩ := unpackResponse_cases hscan
  rcases unpackByType_spec hlength (by omega) hbody with ⟨rfl, -⟩ | ⟨-, -, rfl⟩ | ⟨hmore, hover⟩
  · exact .inl hroom
  · exact .inl (by omega)
  · exact .inr ⟨by omega, hover⟩

theorem cameIn_take {xs : List Byte} {response : Response} {n : Nat}
    (hscan : unpackResponse xs = .frame response n) (hle : n ≤ xs.length)
    (hsize : xs.length < 2 ^ 32) : CameIn (xs.take n) response := by
  obtain ⟨h, used, n', hheader, hroom, hlength, hbody, rfl⟩ := unpackResponse_cases hscan
  have hpart := unpackFixedHeader_take hheader
  rcases unpackByType_spec hlength (by omega) hbody with
    ⟨rfl, hwithin⟩ | ⟨rfl, hcode, rfl⟩ | ⟨hmore, -⟩
  · refine .inl ⟨?_, hwithin⟩
    have hsame : ((xs.take (used + h.remainingLength)).drop used).take h.remainingLength =
        (xs.drop used).take h.remainingLength := by
      rw [List.drop_take, Nat.add_sub_cancel_left, List.take_take, Nat.min_self]
    show unpackResponse (xs.take _) = _
    simp only [unpackResponse, hpart, hsame, hbody, behindHeader, List.length_take,
      Nat.min_eq_left hle]
  · by_cases hempty : h.remainingLength = 0
    · rw [hempty, Nat.add_zero] at hpart
      rw [hempty, List.take_zero] at hbody
      refine .inl ⟨?_, ?_⟩
      · show unpackResponse (xs.take _) = _
        simp only [Nat.add_zero, unpackResponse, hpart, hempty, List.take_zero, hbody,
          behindHeader, List.length_take]
        rw [Nat.min_eq_left (by omega)]
      · intro message hm
        cases hm
    · refine .inr ⟨rfl, h, xs.drop used, ?_, hcode, Nat.pos_of_ne_zero hempty⟩
      rw [Nat.add_zero, List.take_append_drop, hheader, List.length_take,
        Nat.min_eq_left (by omega)]
  · omega

/-! ## What a session has taken off the stream -/

/-- What has been received is what the responses came in, and the buffer. -/
def Session.Chunked (s : Session) : Prop :=
  ∃ chunks : List (List Byte), s.received = chunks.flatten ++ s.client.recvBuffer ∧
    List.Forall₂ CameIn chunks s.handled

theorem Micro.chunked {s s' : Session} (h : Micro s s') (hs : s.Chunked)
    (hsize : s.client.recvBuffer.length < 2 ^ 32) : s'.Chunked := by
  obtain ⟨chunks, hreceived, hcame⟩ := id hs
  cases h with
  | @pack c request packetId hprepared _ hshort _ =>
      have hmove : Client.Move Request.Short (fun _ _ => False) c
          (c.tryPack request packetId).1 := Client.tryPack_move hshort packetId
      refine ⟨chunks, ?_, hcame⟩
      show _ = _ ++ (c.tryPack request packetId).1.recvBuffer
      rw [hmove.sameBut.recvBuffer, hprepared.recvBuffer]
      exact hreceived
  | @fill got _ =>
      refine ⟨chunks, ?_, hcame⟩
      show s.received ++ got = _ ++ (s.client.recvBuffer ++ got)
      rw [hreceived, List.append_assoc]
  | @handle response n hscan hle =>
      have hsame := (Client.handle_moves s.client response).sameBut.recvBuffer
      refine ⟨chunks ++ [s.client.recvBuffer.take n], ?_, ?_⟩
      · show s.received = _ ++ ((s.client.handle response).1.1.recvBuffer.drop n)
        rw [hsame, List.flatten_append, List.flatten_singleton, List.append_assoc,
          List.take_append_drop]
        exact hreceived
      · exact List.rel_append hcame (.cons (cameIn_take hscan hle hsize) .nil)
  | fail _ _ => exact hs
  | send _ _ _ => exact hs

variable {entrySize sendbufsz recvbufsz : Nat} {s : Session}

theorem Micro.recvSize {s s' : Session} (h : Micro s s') :
    s'.client.recvSize = s.client.recvSize := by
  cases h with
  | @pack c request packetId hprepared _ hshort _ =>
      have hmove : Client.Move Request.Short (fun _ _ => False) c
          (c.tryPack request packetId).1 := Client.tryPack_move hshort packetId
      exact hmove.sameBut.recvSize.trans hprepared.recvSize
  | @handle response n _ _ => exact (Client.handle_moves s.client response).sameBut.recvSize
  | _ => rfl

theorem Session.Reached.recvSize (h : s.Reached entrySize sendbufsz recvbufsz) :
    s.client.recvSize = recvbufsz :=
  h.inv (I := fun s => s.client.recvSize = recvbufsz)
    (fun _ _ hmicro hs => hmicro.recvSize.trans hs) fun _ hstarts => hstarts.recvSize

/-- How the bytes are divided, and what bounds them. -/
structure Session.Divides (recvbufsz : Nat) (s : Session) : Prop where
  reads : s.Reads
  recvSize : s.client.recvSize = recvbufsz
  chunked : s.Chunked

theorem Micro.divides {s s' : Session} (h : Micro s s') (hsize : recvbufsz < 2 ^ 32)
    (hs : s.Divides recvbufsz) : s'.Divides recvbufsz := by
  have hroom := hs.reads.room
  have hrecvSize := hs.recvSize
  exact ⟨h.reads hs.reads, h.recvSize.trans hrecvSize, h.chunked hs.chunked (by omega)⟩

theorem Session.Reached.divides (h : s.Reached entrySize sendbufsz recvbufsz)
    (hsize : recvbufsz < 2 ^ 32) : s.Divides recvbufsz := by
  refine h.inv (fun _ _ hmicro => hmicro.divides hsize) ?_
  intro client hstarts
  exact ⟨hstarts.reads, hstarts.recvSize, [], hstarts.recvBuffer.symm, .nil⟩

theorem Micro.dropped {s s' : Session} (h : Micro s s')
    (hs : s.dropped ≠ [] → s.client.Failed) (hlost : s'.dropped ≠ []) : s'.client.Failed := by
  have hsame : s'.dropped = s.dropped → s'.client.Failed := by
    intro heq
    rw [heq] at hlost
    exact (h.failed (hs hlost)).1
  cases h with
  | fail hfinal _ => exact ⟨_, rfl, hfinal⟩
  | _ => exact hsame rfl

theorem Session.Reached.dropped (h : s.Reached entrySize sendbufsz recvbufsz)
    (hlost : s.dropped ≠ []) : s.client.Failed :=
  h.inv (I := fun s => s.dropped ≠ [] → s.client.Failed) (fun _ _ hmicro => hmicro.dropped)
    (fun _ _ hne => absurd rfl hne) hlost

/-- The message lies within one packet of these bytes. -/
def ResponsePublish.Inside (message : ResponsePublish) (received : List Byte) : Prop :=
  message.Within ∧ ∃ before packet after, received = before ++ packet ++ after ∧
    Legal (packet, .publish message)

theorem Session.Divides.inside (h : s.Divides recvbufsz) {message : ResponsePublish}
    (hmem : message ∈ s.delivered) : message.Inside s.received := by
  obtain ⟨chunks, hreceived, hcame⟩ := h.chunked
  obtain ⟨response, hresponse, hpublish⟩ := List.mem_filterMap.mp (h.reads.sublist.subset hmem)
  obtain ⟨packet, hpacket, hone⟩ := exists_of_forall₂_mem_right hcame hresponse
  rcases hone with ⟨hlegal, hwithin⟩ | ⟨rfl, -⟩
  · refine ⟨hwithin message hpublish, ?_⟩
    obtain ⟨before, after, rfl⟩ := List.append_of_mem hpacket
    obtain rfl : response = .publish message := by
      cases response with
      | publish m => exact congrArg _ (Option.some.inj hpublish)
      | _ => cases hpublish
    refine ⟨before.flatten, packet, after.flatten ++ s.client.recvBuffer, ?_, hlegal⟩
    rw [hreceived, List.flatten_append, List.flatten_cons]
    simp only [List.append_assoc]
  · cases hpublish

theorem Receives.overlong {c : Client} {rets : List Recv} {r : Received} (h : Receives c rets r)
    (hover : r.ending = .overrun) (hroom : c.recvBuffer.length ≤ c.recvSize)
    (hsize : c.recvSize < 2 ^ 32) :
    ∃ response n, unpackResponse r.client.recvBuffer = .frame response n ∧ response.Overlong := by
  induction h with
  | @overrun c rets rets' got response n hrecv hscan hless =>
      have hgot : got.length ≤ c.recvSize - c.recvBuffer.length := (recvall_spec hrecv).1
      rw [List.length_append] at hless
      have hshort : (c.recvBuffer ++ got).length < 2 ^ 32 := by
        rw [List.length_append]
        omega
      rcases unpackResponse_le hscan hshort with hle | ⟨-, hlong⟩
      · rw [List.length_append] at hle
        omega
      · exact ⟨response, n, hscan, hlong⟩
  | @next c c' rets rets' got response n delivered r hrecv hscan hle hhandle _ ih =>
      have hgot : got.length ≤ c.recvSize - c.recvBuffer.length := (recvall_spec hrecv).1
      have hsame := Client.handle_sameBut hhandle
      have hbuffer : c'.recvBuffer = c.recvBuffer ++ got := hsame.recvBuffer
      have hsizes : c'.recvSize = c.recvSize := hsame.recvSize
      have hlength : (c'.consumed n).recvBuffer.length ≤ (c'.consumed n).recvSize := by
        simp only [Client.consumed, List.length_drop, hbuffer, List.length_append, hsizes]
        omega
      have hsize' : (c'.consumed n).recvSize < 2 ^ 32 := lt_of_eq_of_lt hsizes hsize
      exact ih hover hlength hsize'
  | _ => cases hover

/-- **The callback stays within the packet.** In a run, and in a call of `__mqtt_recv` after it, the
topic and the message that the callback is given are as long as it is told, and lie within one
packet of the stream, up to a publish with sizes that reach beyond its packet: such a one stands
at the front of the buffer when the call does not return. -/
theorem delivered_within {recvs : List Recv} {r : Received}
    (h : s.Reached entrySize sendbufsz recvbufsz) (hsize : recvbufsz < 2 ^ 32)
    (hrecv : s.client.recv recvs = some r) :
    (∀ message ∈ s.delivered ++ r.delivered, message.Inside (s.received ++ r.taken)) ∧
      (r.ending = .overrun → ∃ response n,
        unpackResponse r.client.recvBuffer = .frame response n ∧ response.Overlong) := by
  have hreceives := Client.recv_receives hrecv
  have hdivides := h.divides hsize
  have hafter : (s.receives r).Divides recvbufsz :=
    hreceives.micros.inv (fun _ _ hmicro => hmicro.divides hsize) hdivides
  have hrecvSize := hdivides.recvSize
  refine ⟨fun message hmem => hafter.inside hmem, ?_⟩
  intro hover
  exact hreceives.overlong hover hdivides.reads.room (by omega)

theorem delivered_within_short :
    ∃ s r, mainRun [] = some s ∧
      s.client.recv [.data [0x30, 5, 0, 2, 0x61, 0x62, 0x78, 0x30, 4, 0, 9, 0, 0]] = some r ∧
      r.delivered = [.of [0x61, 0x62] 7 [0x78] 0] ∧ r.ending = .overrun ∧
      (∀ message ∈ s.delivered ++ r.delivered, message.Inside (s.received ++ r.taken)) ∧
      (r.ending = .overrun → ∃ response n,
        unpackResponse r.client.recvBuffer = .frame response n ∧ response.Overlong) := by
  obtain ⟨s, hs, hreached, hrecv⟩ :=
    exists_mainRun [] (fun s =>
        (s.client.recv [.data [0x30, 5, 0, 2, 0x61, 0x62, 0x78, 0x30, 4, 0, 9, 0, 0]]).any
          (fun r => r.delivered = [.of [0x61, 0x62] 7 [0x78] 0] ∧ r.ending = .overrun) = true)
      (by decide) (by decide +kernel)
  obtain ⟨r, hr, hall⟩ := (Option.any_eq_true ..).mp hrecv
  obtain ⟨hdelivered, hover⟩ := of_decide_eq_true hall
  exact ⟨s, r, hs, hr, hdelivered, hover, delivered_within hreached (by decide) hr⟩

end SmartHome.Mqtt
