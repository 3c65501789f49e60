/-
# `Mqtt.Receive` — from the socket to the callback

`__mqtt_recv` reads pieces of the broker's stream into a buffer and cuts responses off it.
`Receives` is its loop as a relation, one rule for each way round.

**Rules proved here.**

    recvLoop_receives     the loop is the relation
    recv_returns          it always comes to an end
    Receives.not_ready    without an error it leaves no packet in the buffer
-/
import SmartHome.Mqtt.Session
import SmartHome.Mqtt.RoundTrip

namespace SmartHome.Mqtt

open Framing

/-! ## Reading from the socket -/

theorem recvall_spec {rets rets' : List Recv} {bufsz : Nat} {got : List Byte} {ok : Bool}
    (h : recvall rets bufsz = (got, ok, rets')) :
    got.length ≤ bufsz ∧ Client.pending rets = got ++ Client.pending rets' := by
  induction rets generalizing bufsz got ok rets' with
  | nil =>
      cases h
      exact ⟨Nat.zero_le _, rfl⟩
  | cons event rets ih =>
      cases event with
      | nothing =>
          cases h
          exact ⟨Nat.zero_le _, rfl⟩
      | failed =>
          cases h
          exact ⟨Nat.zero_le _, rfl⟩
      | data bytes =>
          cases bytes with
          | nil =>
              cases h
              exact ⟨Nat.zero_le _, rfl⟩
          | cons byte bytes =>
              simp only [recvall] at h
              split at h
              · cases h
                refine ⟨?_, ?_⟩
                · rw [List.length_take]
                  exact Nat.min_le_left _ _
                · simp only [Client.pending, List.flatMap_cons, ← List.append_assoc,
                    List.take_append_drop]
              · rename_i hroom
                cases hrest : recvall rets (bufsz - (byte :: bytes).length) with
                | mk got' tail =>
                    obtain ⟨ok', rets''⟩ := tail
                    rw [hrest] at h
                    cases h
                    obtain ⟨hlen, hpending⟩ := ih hrest
                    refine ⟨?_, ?_⟩
                    · show (byte :: bytes ++ got').length ≤ bufsz
                      rw [List.length_append]
                      omega
                    · simp only [Client.pending, List.flatMap_cons] at hpending ⊢
                      rw [hpending, List.append_assoc]

/-! ## The errors of a malformed packet -/

theorem unpackRemainingLength_failed {lshift acc : Nat} {xs : List Byte} {e : Error}
    (h : unpackRemainingLength lshift acc xs = .failed e) : e.Final := by
  induction xs generalizing lshift acc with
  | nil =>
      rw [unpackRemainingLength] at h
      split at h <;> cases h
      decide
  | cons byte xs ih =>
      simp only [unpackRemainingLength] at h
      split at h
      · cases h
        decide
      split at h
      · split at h
        · rename_i hrest
          cases h
          exact ih hrest
        · cases h
        · cases h
      · cases h

theorem fixedHeaderRuleViolation_final {h : FixedHeader} {e : Error}
    (hrule : fixedHeaderRuleViolation h = some e) : e.Final := by
  simp only [fixedHeaderRuleViolation] at hrule
  split at hrule
  · cases hrule
    decide
  split at hrule
  · cases hrule
    decide
  · cases hrule

theorem unpackFixedHeader_failed {xs : List Byte} {e : Error}
    (h : unpackFixedHeader xs = .failed e) : e.Final := by
  unfold unpackFixedHeader at h
  split at h
  · cases h
  split at h
  · rename_i hrest
    cases h
    exact unpackRemainingLength_failed hrest
  · cases h
  simp only at h
  split at h
  · rename_i hrule
    cases h
    exact fixedHeaderRuleViolation_final hrule
  · split at h <;> cases h

theorem unpackPacketId_error {response : BitVec 16 → Response} {h : FixedHeader}
    {body : List Byte} {e : Error} (herror : unpackPacketId response h body = .error e) :
    e.Final := by
  simp only [unpackPacketId] at herror
  split at herror <;> cases herror
  decide

theorem unpackByType_error {h : FixedHeader} {body : List Byte} {e : Error}
    (herror : unpackByType h body = .error e) : e.Final := by
  unfold unpackByType at herror
  split at herror
  · simp only [unpackConnackResponse] at herror
    split at herror
    · cases herror
      decide
    split at herror
    · cases herror
      decide
    split at herror <;> cases herror
    decide
  · simp only [unpackPublishResponse] at herror
    split at herror <;> cases herror
    decide
  · exact unpackPacketId_error herror
  · exact unpackPacketId_error herror
  · exact unpackPacketId_error herror
  · exact unpackPacketId_error herror
  · simp only [unpackSubackResponse] at herror
    split at herror <;> cases herror
    decide
  · exact unpackPacketId_error herror
  · cases herror
  · cases herror
    decide

theorem unpackResponse_failed {xs : List Byte} {e : Error} (h : unpackResponse xs = .failed e) :
    e.Final := by
  unfold unpackResponse at h
  split at h
  · rename_i hheader
    cases h
    exact unpackFixedHeader_failed hheader
  · cases h
  · rename_i fixedHeader used hheader
    cases hbody : unpackByType fixedHeader
        ((xs.drop used).take fixedHeader.remainingLength) with
    | error e' =>
        rw [hbody] at h
        cases h
        exact unpackByType_error hbody
    | ok r =>
        rw [hbody] at h
        cases h

/-! ## The loop, as a relation -/

namespace Client

def filled (client : Client) (got : List Byte) : Client :=
  { client with recvBuffer := client.recvBuffer ++ got }

def consumed (client : Client) (n : Nat) : Client :=
  { client with recvBuffer := client.recvBuffer.drop n }

end Client

/-- What `recv` can be asked for. -/
def Client.room (client : Client) : Nat := client.recvSize - client.recvBuffer.length

inductive Receives : Client → List Recv → Received → Prop where
  | socketError {c : Client} {rets rets' : List Recv} {got : List Byte} :
      recvall rets c.room = (got, false, rets') →
        Receives c rets ⟨{ c with error := some .socketError }, [], [], [], got, rets',
          .returned (some .socketError)⟩
  | malformed {c : Client} {rets rets' : List Recv} {got : List Byte} {e : Error} :
      recvall rets c.room = (got, true, rets') →
      unpackResponse (c.recvBuffer ++ got) = .failed e →
        Receives c rets ⟨{ c.filled got with error := some e }, [], [], got, [], rets',
          .returned (some e)⟩
  | tooSmall {c : Client} {rets rets' : List Recv} {got : List Byte} :
      recvall rets c.room = (got, true, rets') →
      unpackResponse (c.recvBuffer ++ got) = .more →
      (c.filled got).room = 0 →
        Receives c rets ⟨{ c.filled got with error := some .recvBufferTooSmall }, [], [], got,
          [], rets', .returned (some .recvBufferTooSmall)⟩
  | wait {c : Client} {rets rets' : List Recv} {got : List Byte} :
      recvall rets c.room = (got, true, rets') →
      unpackResponse (c.recvBuffer ++ got) = .more →
      (c.filled got).room ≠ 0 →
        Receives c rets ⟨c.filled got, [], [], got, [], rets', .returned none⟩
  | overrun {c : Client} {rets rets' : List Recv} {got : List Byte} {response : Response}
      {n : Nat} :
      recvall rets c.room = (got, true, rets') →
      unpackResponse (c.recvBuffer ++ got) = .frame response n →
      (c.recvBuffer ++ got).length < n →
        Receives c rets ⟨c.filled got, [], [], got, [], rets', .overrun⟩
  | stop {c c' : Client} {rets rets' : List Recv} {got : List Byte} {response : Response}
      {n : Nat} {e : Error} {delivered : List ResponsePublish} :
      recvall rets c.room = (got, true, rets') →
      unpackResponse (c.recvBuffer ++ got) = .frame response n →
      n ≤ (c.recvBuffer ++ got).length →
      (c.filled got).handle response = ((c', some e), delivered) →
        Receives c rets ⟨c'.consumed n, [response], delivered, got, [], rets',
          .returned (some e)⟩
  | next {c c' : Client} {rets rets' : List Recv} {got : List Byte} {response : Response}
      {n : Nat} {delivered : List ResponsePublish} {r : Received} :
      recvall rets c.room = (got, true, rets') →
      unpackResponse (c.recvBuffer ++ got) = .frame response n →
      n ≤ (c.recvBuffer ++ got).length →
      (c.filled got).handle response = ((c', none), delivered) →
      Receives (c'.consumed n) rets' r →
        Receives c rets
          { r with
            handled := response :: r.handled
            delivered := delivered ++ r.delivered
            taken := got ++ r.taken }

namespace Client

theorem recvLoop_receives {fuel : Nat} {c : Client} {rets : List Recv} {r : Received}
    (h : c.recvLoop fuel rets = some r) : Receives c rets r := by
  induction fuel generalizing c rets r with
  | zero => cases h
  | succ fuel ih =>
      simp only [recvLoop] at h
      split at h
      · rename_i got rets' hrecv
        cases h
        exact .socketError hrecv
      · rename_i got rets' hrecv
        split at h
        · rename_i e hscan
          cases h
          exact .malformed hrecv hscan
        · rename_i hscan
          split at h
          · rename_i hroom
            cases h
            exact .tooSmall hrecv hscan hroom
          · rename_i hroom
            cases h
            exact .wait hrecv hscan hroom
        · rename_i response n hscan
          split at h
          · rename_i hlen
            cases h
            exact .overrun hrecv hscan hlen
          · rename_i hlen
            cases hhandle : (c.filled got).handle response with
            | mk ret delivered =>
                obtain ⟨c', ret⟩ := ret
                simp only [filled] at hhandle
                rw [hhandle] at h
                cases ret with
                | some e =>
                    cases h
                    exact .stop hrecv hscan (Nat.not_lt.mp hlen) hhandle
                | none =>
                    obtain ⟨r', hr', rfl⟩ := Option.map_eq_some_iff.mp h
                    exact .next hrecv hscan (Nat.not_lt.mp hlen) hhandle (ih hr')

/-- `__mqtt_recv` comes to an end: every time round takes a packet off what the buffer and the
socket hold. -/
theorem recvLoop_returns {fuel : Nat} {c : Client} {rets : List Recv}
    (hfuel : c.recvBuffer.length + (pending rets).length < fuel) :
    ∃ r, c.recvLoop fuel rets = some r := by
  induction fuel generalizing c rets with
  | zero => exact absurd hfuel (Nat.not_lt_zero _)
  | succ fuel ih =>
      simp only [recvLoop]
      split
      · exact ⟨_, rfl⟩
      · rename_i got rets' hrecv
        have hpending := congrArg List.length ((recvall_spec hrecv).2)
        rw [List.length_append] at hpending
        split
        · exact ⟨_, rfl⟩
        · split <;> exact ⟨_, rfl⟩
        · rename_i response n hscan
          have hpos := unpackResponse_used hscan
          split
          · exact ⟨_, rfl⟩
          · rename_i hlen
            cases hhandle : (c.filled got).handle response with
            | mk ret delivered =>
                obtain ⟨c', ret⟩ := ret
                have hsame := (handle_sameBut hhandle).recvBuffer
                simp only [filled] at hhandle hsame
                rw [hhandle]
                cases ret with
                | some e => exact ⟨_, rfl⟩
                | none =>
                    have hless : (c'.consumed n).recvBuffer.length + (pending rets').length <
                        fuel := by
                      simp only [consumed, hsame, List.length_drop, List.length_append] at hlen ⊢
                      omega
                    obtain ⟨r, hr⟩ := ih hless
                    exact ⟨_, congrArg (Option.map _) hr⟩

theorem recv_returns (c : Client) (rets : List Recv) : ∃ r, c.recv rets = some r :=
  recvLoop_returns (Nat.lt_succ_self _)

theorem recv_receives {c : Client} {rets : List Recv} {r : Received} (h : c.recv rets = some r) :
    Receives c rets r :=
  recvLoop_receives h

end Client

/-! ## What is left -/

namespace Receives

variable {c : Client} {rets : List Recv} {r : Received}

/-- When `__mqtt_recv` returns without an error it has left no packet in the buffer. -/
theorem not_ready (h : Receives c rets r) (hok : r.ending = .returned none) :
    ¬ responses.Ready r.client.recvBuffer := by
  induction h with
  | wait _ hscan _ =>
      rintro ⟨response, n, hframe, _⟩
      exact nomatch hscan.symm.trans hframe
  | next _ _ _ _ _ ih => exact ih hok
  | _ => cases hok

theorem pending (h : Receives c rets r) :
    Client.pending rets = r.taken ++ r.dropped ++ Client.pending r.rets ∧
      (r.dropped ≠ [] → r.ending = .returned (some .socketError)) := by
  induction h with
  | socketError hrecv => exact ⟨(recvall_spec hrecv).2, fun _ => rfl⟩
  | next hrecv _ _ _ _ ih =>
      obtain ⟨hrest, hdropped⟩ := ih
      refine ⟨?_, hdropped⟩
      rw [(recvall_spec hrecv).2, hrest]
      simp only [List.append_assoc]
  | malformed hrecv _ | tooSmall hrecv _ _ | wait hrecv _ _ | overrun hrecv _ _
  | stop hrecv _ _ _ =>
      refine ⟨?_, fun hne => absurd rfl hne⟩
      rw [(recvall_spec hrecv).2, List.append_nil]

end Receives

end SmartHome.Mqtt
