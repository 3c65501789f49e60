/-
# `Mqtt.Send` — from the queue to the socket

The loop of `__mqtt_send` passes over the messages in the queue, and `mqtt_pal_sendall` gives a
whole packet to the socket or fails.  The offset for a packet sent in part is therefore always
zero, and each message is left as it is, or sent whole, or is the last one (`Outcome`).  A client
never has a message in its queue whose type it cannot send (`ControlType.IsSent`).

**Rules proved here.**

    sendMessages_outcomes   the loop, message by message
    send_sent               everything one call of `__mqtt_send` can do
-/
import SmartHome.Mqtt.Session

namespace SmartHome.Mqtt

/-! ## Writing to the socket -/

/-- `mqtt_pal_sendall` gives everything to the socket, or fails after a first part of it. -/
theorem sendall_spec {rets rets' : List Nat} {bytes sent : List Byte} {ok : Bool}
    (h : sendall rets bytes = (sent, ok, rets')) :
    if ok then sent = bytes else sent <+: bytes ∧ sent ≠ bytes := by
  induction rets generalizing bytes sent ok with
  | nil =>
      cases bytes with
      | nil =>
          cases h
          rfl
      | cons byte buf =>
          cases h
          exact ⟨List.nil_prefix, nofun⟩
  | cons tmp rets ih =>
      cases bytes with
      | nil =>
          cases h
          rfl
      | cons byte buf =>
          simp only [sendall] at h
          split at h
          · cases h
            exact ⟨List.nil_prefix, nofun⟩
          · rename_i hpos
            cases hrest : sendall rets ((byte :: buf).drop tmp) with
            | mk sent' tail =>
                obtain ⟨ok', rets''⟩ := tail
                rw [hrest] at h
                cases h
                have hsplit := List.take_append_drop tmp (byte :: buf)
                have hsent := ih hrest
                cases ok' with
                | true =>
                    have hall : sent' = (byte :: buf).drop tmp := hsent
                    show _ ++ sent' = _
                    rw [hall, hsplit]
                | false =>
                    obtain ⟨hbegins, hne⟩ := hsent
                    show _ ++ sent' <+: _ ∧ _ ++ sent' ≠ _
                    refine ⟨?_, ?_⟩
                    · conv_rhs => rw [← hsplit]
                      exact (List.prefix_append_right_inj _).mpr hbegins
                    · intro heq
                      exact hne (List.append_cancel_left (heq.trans hsplit.symm))

/-! ## One message -/

/-- The types that the client sends. -/
def ControlType.IsSent (t : ControlType) : Prop :=
  t ≠ .connack ∧ t ≠ .suback ∧ t ≠ .unsuback ∧ t ≠ .pingresp

instance (t : ControlType) : Decidable t.IsSent := inferInstanceAs (Decidable (_ ∧ _))

theorem sentState_ne_none {m : Message} (hsends : m.tag.controlType.IsSent) :
    sentState m ≠ none := by
  obtain ⟨hconnack, hsuback, hunsuback, hpingresp⟩ := hsends
  unfold sentState
  split
  · exact nofun
  · exact nofun
  · exact nofun
  · dsimp only
    split
    · exact nofun
    split <;> exact nofun
  · exact nofun
  · exact nofun
  · exact nofun
  · exact nofun
  · exact nofun
  · exact nofun
  · contradiction
  · contradiction
  · contradiction
  · contradiction

def Message.packet (m : Message) : Packet := ⟨m.tag.controlType, m.bytes⟩

/-- What the loop does with one message; `inflight` is whether a QoS 2 publish stands before it. -/
inductive Outcome (inflight : Bool) (m : Message) :
    Message → List Transmission → Option Error → Prop where
  | skip :
      m.tag.state ≠ .unsent ∨ (Message.Inflight m ∧ inflight = true) →
        Outcome inflight m m [] none
  | sent {bytes : List Byte} {state : MessageState} {now : Nat} :
      m.tag.state ≠ .complete → ¬ (Message.Inflight m ∧ inflight = true) →
      sentState m = some (bytes, state) →
        Outcome inflight m ⟨bytes, { m.tag with timeSent := now, state }⟩
          [⟨Message.packet m, decide (m.tag.state = .unsent), m.bytes, true⟩] none
  | failed {sent : List Byte} :
      m.tag.state ≠ .complete → ¬ (Message.Inflight m ∧ inflight = true) →
      sent <+: m.bytes → sent ≠ m.bytes →
        Outcome inflight m m
          [⟨Message.packet m, decide (m.tag.state = .unsent), sent, false⟩] (some .socketError)

/-- How the loop goes on after an outcome. -/
def Next.of : Option Error → Next
  | none => .continue
  | some e => .return e

variable {clock : Nat → Nat} {responseTimeout : Nat} {s s' : Sending} {m m' : Message}
  {out : List Transmission} {next : Next}

theorem transmit_outcome {inflight : Bool} (hsends : m.tag.controlType.IsSent)
    (hoffset : s.sendOffset = 0)
    (hstate : m.tag.state ≠ .complete) (hheld : ¬ (Message.Inflight m ∧ inflight = true))
    (h : transmit clock s m = (s', m', out, next)) :
    s'.sendOffset = 0 ∧ s'.inflightQos2 = s.inflightQos2 ∧
      ∃ e, next = .of e ∧ Outcome inflight m m' out e := by
  simp only [transmit, hoffset, List.drop_zero, Nat.zero_add] at h
  cases hsend : sendall s.rets m.bytes with
  | mk sent tail =>
      obtain ⟨ok, rets⟩ := tail
      have hspec := sendall_spec hsend
      rw [hsend] at h
      cases ok with
      | false =>
          cases h
          exact ⟨rfl, rfl, some .socketError, rfl, .failed hstate hheld hspec.1 hspec.2⟩
      | true =>
          have hall : sent = m.bytes := hspec
          subst hall
          simp only [Bool.true_eq_false, if_false, Nat.lt_irrefl] at h
          cases hsent : sentState m with
          | none => exact absurd hsent (sentState_ne_none hsends)
          | some after =>
              obtain ⟨bytes, state⟩ := after
              rw [hsent] at h
              cases h
              exact ⟨rfl, rfl, none, rfl, .sent hstate hheld hsent⟩

theorem sendMessage_outcome (hsends : m.tag.controlType.IsSent) (hoffset : s.sendOffset = 0)
    (h : sendMessage clock responseTimeout s m = (s', m', out, next)) :
    s'.sendOffset = 0 ∧ s'.inflightQos2 = (s.inflightQos2 || decide (Message.Inflight m)) ∧
      ∃ e, next = .of e ∧ Outcome s.inflightQos2 m m' out e := by
  have hoffset' : ∀ timedOut, (s.watch m timedOut).sendOffset = 0 := by
    intro timedOut
    show (if timedOut then 0 else s.sendOffset) = 0
    rw [hoffset, ite_self]
  simp only [sendMessage] at h
  split at h
  · rename_i hcond
    obtain ⟨hresend, hheld⟩ := hcond
    have hstate : m.tag.state ≠ .complete := by
      rcases hresend with hstate | hstate
      · rw [hstate]
        decide
      · rw [(of_decide_eq_true hstate).1]
        decide
    exact transmit_outcome hsends (hoffset' _) hstate hheld h
  · rename_i hcond
    cases h
    refine ⟨hoffset' _, rfl, none, rfl, .skip ?_⟩
    by_cases hunsent : m.tag.state = .unsent
    · exact .inr (not_not.mp fun hheld => hcond ⟨.inl hunsent, hheld⟩)
    · exact .inl hunsent

/-! ## All messages -/

/-- What the loop does with the messages, from first to last. -/
inductive Outcomes : (inflight : Bool) → List Message → List Message → List Transmission →
    Option Error → Prop where
  | nil {inflight : Bool} : Outcomes inflight [] [] [] none
  | cons {inflight : Bool} {m m' : Message} {ms ms' : List Message}
      {out outs : List Transmission} {e : Option Error} :
      Outcome inflight m m' out none →
      Outcomes (inflight || decide (Message.Inflight m)) ms ms' outs e →
        Outcomes inflight (m :: ms) (m' :: ms') (out ++ outs) e
  | stop {inflight : Bool} {m m' : Message} {ms : List Message} {out : List Transmission}
      {e : Error} :
      Outcome inflight m m' out (some e) → Outcomes inflight (m :: ms) (m' :: ms) out (some e)

theorem sendMessages_outcomes {ms ms' : List Message} {outs : List Transmission}
    (hsends : ∀ m ∈ ms, m.tag.controlType.IsSent) (hoffset : s.sendOffset = 0)
    (h : sendMessages clock responseTimeout s ms = (s', ms', outs, next)) :
    s'.sendOffset = 0 ∧ ∃ e, next = .of e ∧ Outcomes s.inflightQos2 ms ms' outs e := by
  induction ms generalizing s s' ms' outs next with
  | nil =>
      cases h
      exact ⟨hoffset, none, rfl, .nil⟩
  | cons m ms ih =>
      obtain ⟨hm, hms⟩ := List.forall_mem_cons.mp hsends
      cases hone : sendMessage clock responseTimeout s m with
      | mk t rest =>
          obtain ⟨m', out, next'⟩ := rest
          obtain ⟨hoffset', hinflight, e, rfl, houtcome⟩ := sendMessage_outcome hm hoffset hone
          simp only [sendMessages, hone] at h
          cases e with
          | some e =>
              cases h
              exact ⟨hoffset', some e, rfl, .stop houtcome⟩
          | none =>
              simp only [Next.of] at h
              cases hmore : sendMessages clock responseTimeout t ms with
              | mk t' rest =>
                  obtain ⟨ms'', outs', next''⟩ := rest
                  rw [hmore] at h
                  cases h
                  obtain ⟨hoffset'', e, rfl, houtcomes⟩ := ih hms hoffset' hmore
                  rw [hinflight] at houtcomes
                  exact ⟨hoffset'', e, rfl, .cons houtcome houtcomes⟩

/-! ## One call -/

/-- Everything one call of `__mqtt_send` can do. -/
inductive Sent (client : Client) : Client → List Transmission → Option Error → Prop where
  | stopped : client.Stopped → Sent client client [] client.error
  | failed {s : Sending} {messages : List Message} {out : List Transmission} {e : Error} :
      ¬ client.Stopped → s.sendOffset = 0 →
      Outcomes false client.mq.messages messages out (some e) →
        Sent client { client.sent s messages with error := some e } out (some e)
  | done {s : Sending} {messages : List Message} {out : List Transmission} :
      ¬ client.Stopped → s.sendOffset = 0 →
      Outcomes false client.mq.messages messages out none →
        Sent client (client.sent s messages) out none
  | ping {s : Sending} {messages : List Message} {out : List Transmission} {c : Client}
      {ret : Option Error} {junk : BitVec 16} :
      ¬ client.Stopped → s.sendOffset = 0 →
      Outcomes false client.mq.messages messages out none →
      (client.sent s messages).ping junk = (c, ret) →
        Sent client c out ret

theorem send_sent {client : Client} (hsends : ∀ m ∈ client.mq.messages, m.tag.controlType.IsSent)
    (hoffset : client.sendOffset = 0) (clock : Nat → Nat) (rets : List Nat) (junk : BitVec 16) :
    Sent client (client.send clock rets junk).1 (client.send clock rets junk).2.1
      (client.send clock rets junk).2.2 := by
  by_cases hstopped : client.Stopped
  · simp only [Client.send, if_pos hstopped]
    exact .stopped hstopped
  simp only [Client.send, if_neg hstopped]
  cases hloop : sendMessages clock client.responseTimeout (client.sending rets)
      client.mq.messages with
  | mk s rest =>
      obtain ⟨messages, out, next⟩ := rest
      obtain ⟨hoffset', e, rfl, houtcomes⟩ := sendMessages_outcomes hsends hoffset hloop
      cases e with
      | some e => exact .failed hstopped hoffset' houtcomes
      | none =>
          simp only [Next.of]
          split
          · cases hping : (client.sent s messages).ping junk with
            | mk c ret =>
                cases ret with
                | none => exact .ping hstopped hoffset' houtcomes hping
                | some e =>
                    -- the error is set already
                    have herror : { c with error := some e } = c := by
                      rw [← Client.tryPack_error hping]
                    simp only [herror]
                    exact .ping hstopped hoffset' houtcomes hping
          · exact .done hstopped hoffset' houtcomes

end SmartHome.Mqtt
