/-
# `Mqtt.Stream` — the broker's stream and the responses handled

However the stream from the broker comes in, in which pieces and with which other calls between
them, the responses handled are the ones that stand in it, in order (`chunking_irrelevant`).  The
publishes at quality of service 0 among them are given to the callback, all and in order.
-/
import SmartHome.Mqtt.Steps

namespace SmartHome.Mqtt

open Framing

/-! ## The callback -/

def Response.toPublish : Response → Option ResponsePublish
  | .publish message => some message
  | _ => none

def qos0 (publishes : List ResponsePublish) : List ResponsePublish :=
  publishes.filter fun message => message.qosLevel = 0

theorem qos0_append (xs ys : List ResponsePublish) : qos0 (xs ++ ys) = qos0 xs ++ qos0 ys :=
  List.filter_append ..

theorem deliver_snd (message : ResponsePublish) (r : Client.Returns) :
    (Client.deliver message r).2 = if r.2 = none then [message] else [] := rfl

theorem handle_delivered (client : Client) (response : Response) :
    (client.handle response).2.Sublist (response.toPublish.toList) ∧
      qos0 (client.handle response).2 = qos0 response.toPublish.toList := by
  cases response with
  | publish message =>
      simp only [Client.handle, Response.toPublish, Option.toList]
      by_cases hone : message.qosLevel = 1
      · have hnot : qos0 [message] = [] := by simp [qos0, hone]
        rw [if_pos hone, deliver_snd, hnot]
        split
        · exact ⟨.refl _, hnot⟩
        · exact ⟨List.nil_sublist _, rfl⟩
      rw [if_neg hone]
      by_cases htwo : message.qosLevel = 2
      · have hnot : qos0 [message] = [] := by simp [qos0, htwo]
        rw [if_pos htwo, hnot]
        split
        · exact ⟨List.nil_sublist _, rfl⟩
        · rw [deliver_snd]
          split
          · exact ⟨.refl _, hnot⟩
          · exact ⟨List.nil_sublist _, rfl⟩
      · rw [if_neg htwo, deliver_snd, if_pos rfl]
        exact ⟨.refl _, rfl⟩
  | pubrec packetId =>
      simp only [Client.handle]
      split <;> exact ⟨.refl _, rfl⟩
  | _ => exact ⟨.refl _, rfl⟩

/-! ## The invariant -/

/-- What a session has received and what it has done with it. -/
structure Session.Reads (s : Session) : Prop where
  parses : Parses responses s.received s.handled s.client.recvBuffer
  sublist : s.delivered.Sublist (s.handled.filterMap Response.toPublish)
  delivered : qos0 s.delivered = qos0 (s.handled.filterMap Response.toPublish)
  room : s.client.recvBuffer.length ≤ s.client.recvSize

theorem Session.Reads.handles {s : Session} (hs : s.Reads) {response : Response} {n : Nat}
    (hscan : unpackResponse s.client.recvBuffer = .frame response n)
    (hlen : n ≤ s.client.recvBuffer.length) : (s.handles response n).Reads := by
  have hsame := (Client.handle_moves s.client response).sameBut
  obtain ⟨hsublist, hqos0⟩ := handle_delivered s.client response
  have hmap : (s.handled ++ [response]).filterMap Response.toPublish =
      s.handled.filterMap Response.toPublish ++ response.toPublish.toList := by
    rw [List.filterMap_append]
    cases h : response.toPublish <;> simp [h]
  refine ⟨?_, ?_, ?_, ?_⟩
  · show Parses _ _ _ ((s.client.handle response).1.1.recvBuffer.drop n)
    rw [hsame.recvBuffer]
    exact hs.parses.trans (.single hscan hlen)
  · show (s.delivered ++ _).Sublist ((s.handled ++ [response]).filterMap Response.toPublish)
    rw [hmap]
    exact hs.sublist.append hsublist
  · show qos0 (s.delivered ++ _) = qos0 ((s.handled ++ [response]).filterMap Response.toPublish)
    rw [hmap, qos0_append, qos0_append, hs.delivered, hqos0]
  · show ((s.client.handle response).1.1.recvBuffer.drop n).length ≤
      (s.client.handle response).1.1.recvSize
    rw [List.length_drop, hsame.recvBuffer, hsame.recvSize]
    exact Nat.le_trans (Nat.sub_le _ _) hs.room

theorem Micro.reads {s s' : Session} (h : Micro s s') (hs : s.Reads) : s'.Reads := by
  cases h with
  | @pack c request packetId hprepared _ hshort _ =>
      have hmove : Client.Move Request.Short (fun _ _ => False) c
          (c.tryPack request packetId).1 := Client.tryPack_move hshort packetId
      refine ⟨?_, hs.sublist, hs.delivered, ?_⟩
      · show Parses _ _ _ (c.tryPack request packetId).1.recvBuffer
        rw [hmove.sameBut.recvBuffer, hprepared.recvBuffer]
        exact hs.parses
      · show (c.tryPack request packetId).1.recvBuffer.length ≤
          (c.tryPack request packetId).1.recvSize
        rw [hmove.sameBut.recvBuffer, hmove.sameBut.recvSize, hprepared.recvBuffer,
          hprepared.recvSize]
        exact hs.room
  | @fill got hgot =>
      refine ⟨hs.parses.append_right got, hs.sublist, hs.delivered, ?_⟩
      have hroom := hs.room
      rw [Client.room] at hgot
      show (s.client.recvBuffer ++ got).length ≤ s.client.recvSize
      rw [List.length_append]
      omega
  | handle hscan hlen => exact hs.handles hscan hlen
  | fail _ _ => exact ⟨hs.parses, hs.sublist, hs.delivered, hs.room⟩
  | send _ _ _ => exact ⟨hs.parses, hs.sublist, hs.delivered, hs.room⟩

/-! ## A session that has caught up -/

namespace Client

/-- An error that is returned is the client's. -/
def Sound (r : Returns) : Prop := ∀ e, r.2 = some e → r.1.error = some e

theorem sound_release (client : Client) (controlType : ControlType)
    (packetId : Option (BitVec 16)) : Sound (client.release controlType packetId) := by
  intro e he
  unfold release at he ⊢
  cases hfind : client.mq.find controlType packetId with
  | none =>
      rw [hfind] at he
      exact he
  | some i =>
      rw [hfind] at he
      cases he

theorem sound_keepError (r : Returns) : Sound (keepError r) := by
  obtain ⟨c, ret⟩ := r
  intro e he
  cases ret with
  | none => cases he
  | some e' => exact he

theorem sound_andThen {r : Returns} {next : Client → Returns} (hr : Sound r)
    (hnext : ∀ c, Sound (next c)) : Sound (andThen r next) := by
  obtain ⟨c, ret⟩ := r
  cases ret with
  | none => exact hnext c
  | some e => exact hr

theorem sound_handle (client : Client) (response : Response) :
    Sound (client.handle response).1 := by
  cases response with
  | connack sessionPresentFlag returnCode =>
      refine sound_andThen (sound_release _ _ _) ?_
      intro c e he
      split at he
      · cases he
      · rename_i hcode
        rw [if_neg hcode]
        split at he
        · rename_i hrefused
          rw [if_pos hrefused]
          exact he
        · rename_i hrefused
          rw [if_neg hrefused]
          exact he
  | publish message =>
      simp only [handle]
      split
      · exact sound_keepError _
      split
      · split
        · intro e he
          cases he
        · exact sound_keepError _
      · intro e he
        cases he
  | puback packetId => exact sound_release _ _ _
  | pubrec packetId =>
      simp only [handle]
      split
      · intro e he
        cases he
      · exact sound_andThen (sound_release _ _ _) fun c => sound_keepError _
  | pubrel packetId => exact sound_andThen (sound_release _ _ _) fun c => sound_keepError _
  | pubcomp packetId => exact sound_release _ _ _
  | suback packetId returnCodes =>
      refine sound_andThen (sound_release _ _ _) ?_
      intro c e he
      split at he
      · rename_i hfailed
        rw [if_pos hfailed]
        exact he
      · cases he
  | unsuback packetId => exact sound_release _ _ _
  | pingresp => exact sound_release _ _ _

end Client

theorem Receives.error_eq {c : Client} {rets : List Recv} {r : Received} {e : Error}
    (h : Receives c rets r) (herror : r.ending = .returned (some e)) :
    r.client.error = some e := by
  induction h with
  | stop _ _ _ hhandle =>
      cases herror
      have hsound := Client.sound_handle _ _ _ (congrArg (fun x => x.1.2) hhandle)
      rw [hhandle] at hsound
      exact hsound
  | next _ _ _ _ _ ih => exact ih herror
  | wait _ _ _ => cases herror
  | overrun _ _ _ => cases herror
  | _ =>
      cases herror
      rfl

/-- Nothing in the buffer is left to be handled. -/
def Session.CaughtUp (s : Session) : Prop := ¬ responses.Ready s.client.recvBuffer

theorem Sent.recvBuffer {c c' : Client} {out : List Transmission} {ret : Option Error}
    (h : Sent c c' out ret) : c'.recvBuffer = c.recvBuffer := by
  cases h with
  | @ping t messages out c' ret junk _ _ _ hping =>
      have hmove : Client.Move (fun _ => True) (fun _ _ => False) (c.sent t messages)
          ((c.sent t messages).ping junk).1 := Client.tryPack_move trivial junk
      rw [hping] at hmove
      exact hmove.sameBut.recvBuffer
  | _ => rfl

/-- `__mqtt_recv` without an error leaves nothing to be handled. -/
theorem recv_caughtUp {s s' : Session} {recvs : List Recv} (h : s.step (.recv recvs) = some s')
    (herror : s'.client.error = none) : s'.CaughtUp := by
  simp only [Session.step] at h
  split at h
  · cases h
  rename_i r hr
  have hreceives := Client.recv_receives hr
  split at h
  · cases h
  rename_i ret hending
  cases h
  cases ret with
  | none => exact hreceives.not_ready hending
  | some e =>
      have hset : r.client.error = some e := hreceives.error_eq hending
      exact absurd (hset.symm.trans herror) (Option.some_ne_none e)

/-- What `mqtt_sync` without an error has done: received without one, and sent without one. -/
theorem sync_cases {s s' : Session} {recvs : List Recv} {clock : Nat → Nat} {sends : List Nat}
    {junk : BitVec 16} (h : s.sync recvs clock sends junk = some s')
    (herror : s'.client.error = none) :
    ∃ r, s.client.recv recvs = some r ∧ r.ending = .returned none ∧
      (s.receives r).step (.send clock sends junk) = some s' := by
  simp only [Session.sync] at h
  split at h
  · cases h
  rename_i r hr
  split at h
  · cases h
  · rename_i e hending
    cases h
    have hset : r.client.error = some e := (Client.recv_receives hr).error_eq hending
    exact absurd (hset.symm.trans herror) (Option.some_ne_none e)
  · rename_i hending
    exact ⟨r, hr, hending, h⟩

theorem sync_caughtUp {s s' : Session} {recvs : List Recv} {clock : Nat → Nat} {sends : List Nat}
    {junk : BitVec 16} (hs : s.Sendable) (h : s.sync recvs clock sends junk = some s')
    (herror : s'.client.error = none) : s'.CaughtUp := by
  obtain ⟨r, hr, hending, hsend⟩ := sync_cases h herror
  have hreceives := Client.recv_receives hr
  have hmid := hreceives.micros.sendable hs
  cases hsend
  rw [Session.CaughtUp]
  show ¬ responses.Ready ((s.receives r).client.send clock sends junk).1.recvBuffer
  rw [(send_sent hmid.isSent hmid.sendOffset clock sends junk).recvBuffer]
  exact hreceives.not_ready hending

/-! ## Whole runs -/

variable {entrySize sendbufsz recvbufsz : Nat} {s s' : Session}

theorem Client.Starts.reads {client : Client}
    (h : client.Starts entrySize sendbufsz recvbufsz) : (Session.init client).Reads := by
  refine ⟨?_, List.nil_sublist _, rfl, ?_⟩
  · show Parses responses [] [] client.recvBuffer
    rw [h.recvBuffer]
    exact .nil []
  · show client.recvBuffer.length ≤ client.recvSize
    rw [h.recvBuffer]
    exact Nat.zero_le _

theorem Session.Reached.reads (h : s.Reached entrySize sendbufsz recvbufsz) : s.Reads :=
  h.inv (fun _ _ hmicro => hmicro.reads) fun _ hstarts => hstarts.reads

theorem qos0_mono {xs ys : List Response} (h : xs <+: ys) :
    qos0 (xs.filterMap Response.toPublish) <+: qos0 (ys.filterMap Response.toPublish) :=
  (h.filterMap _).filter _

/-- **Chunking does not matter.** A session that has received less than another one, for which
`__mqtt_recv` has just returned without an error, has handled a first part of what that one has, and
given the callback a first part of its publishes at quality of service 0.  The pieces in which
the stream came and the calls made in between make no difference, and the stream may be
anything. -/
theorem chunking_irrelevant {entrySize' sendbufsz' recvbufsz' : Nat} {t : Session}
    {recvs : List Recv} (h : s.Reached entrySize sendbufsz recvbufsz)
    (ht : t.Reached entrySize' sendbufsz' recvbufsz') (hstep : t.step (.recv recvs) = some s')
    (herror : s'.client.error = none) (hreceived : s.received <+: s'.received) :
    s.handled <+: s'.handled ∧ qos0 s.delivered <+: qos0 s'.delivered := by
  have hs' := (ht.step (show Call.Short (.recv recvs) from trivial) hstep).reads
  have hhandled : s.handled <+: s'.handled := by
    obtain ⟨more, hmore⟩ := hreceived
    have hparses := h.reads.parses.append_right more
    rw [hmore] at hparses
    rcases hparses.prefix_total hs'.parses with ⟨rest, heq, -⟩ | ⟨rest, heq, hrest⟩
    · rw [heq]
      exact List.prefix_append _ _
    · obtain ⟨rfl, -⟩ := hrest.eq_nil_of_not_ready (recv_caughtUp hstep herror)
      rw [heq, List.append_nil]
  refine ⟨hhandled, ?_⟩
  rw [h.reads.delivered, hs'.delivered]
  exact qos0_mono hhandled

theorem chunking_irrelevant_connack :
    ∃ s t s', mainRun [.recv [.data [0x20, 2, 0, 0, 0x30]]] = some s ∧
      mainRun [.recv [.data [0x20, 2]]] = some t ∧
      t.step (.recv [.data [0, 0, 0x30], .data [5, 0, 2, 0x61, 0x62, 0x78]]) = some s' ∧
      s.handled <+: s'.handled ∧ qos0 s.delivered <+: qos0 s'.delivered := by
  obtain ⟨s, hs, hreached, hreceived⟩ :=
    exists_mainRun [.recv [.data [0x20, 2, 0, 0, 0x30]]]
      (fun s => s.received = [0x20, 2, 0, 0, 0x30]) (by decide) (by decide +kernel)
  obtain ⟨t, ht, hreached', hstep⟩ :=
    exists_mainRun [.recv [.data [0x20, 2]]]
      (fun t => (t.step (.recv [.data [0, 0, 0x30], .data [5, 0, 2, 0x61, 0x62, 0x78]])).any
        (fun s' => s'.client.error = none ∧
          s'.received = [0x20, 2, 0, 0, 0x30, 5, 0, 2, 0x61, 0x62, 0x78]) = true)
      (by decide) (by decide +kernel)
  obtain ⟨s', hs', hall⟩ := (Option.any_eq_true ..).mp hstep
  obtain ⟨herror, hreceived'⟩ := of_decide_eq_true hall
  refine ⟨s, t, s', hs, ht, hs', chunking_irrelevant hreached hreached' hs' herror ?_⟩
  rw [hreceived, hreceived']
  exact ⟨[5, 0, 2, 0x61, 0x62, 0x78], rfl⟩

end SmartHome.Mqtt
