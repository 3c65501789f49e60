/-
# `Overwrite` — the one `callback_packet` every handler reads

A node keeps the last message it received in one global and starts a thread for
each; the thread reads the global when it runs.  `distribute_pub_message` of the
Pis splits the global in place; the controller's splits a copy.
`publish_no_device` does not read it.
-/
import SmartHome.Pi
import SmartHome.System
import SmartHome.Lib.Slot

namespace SmartHome

open Traced Kontroler

def returned {α : Type} (x : Exec α) : Option α := (completed x).map Prod.fst

/-- The controller: `publishCallback` decides whether the thread is one that reads. -/
def Kontroler.slotMachine : Slot.Machine (List Device) Msg CallbackPacket CStr where
  receive devices m := (returned (publishCallback devices m.topic m.payload)).map fun started =>
    (started.1, started.2 = .distributePubMessage)
  act devices stale packet := returned (distributePubMessage stale devices packet)
  cut packet := packet

/-- A Pi: after `str_split` the packet's payload reads as its first token. -/
def Pi.slotMachine : Slot.Machine (List Device) Msg CallbackPacket CStr where
  receive _ m := some (Pi.publishCallback m.topic m.payload, true)
  act devices _ packet := returned (Pi.distributePubMessage devices packet)
  cut packet := ⟨packet.topic, strtokCut delimiter packet.mes⟩

def Node.slotMachine : Node → Slot.Machine (List Device) Msg CallbackPacket CStr
  | .kontroler => Kontroler.slotMachine
  | .senzorski | .aktuatorski => Pi.slotMachine
  | .commandLine => { receive := fun _ _ => none, act := fun _ _ _ => none, cut := id }

/-- From any table: along every run in which no message arrives while a handler has yet to
read its own, every handler acts on the message it was started for, and what has been acted
on, with what is still pending, is what arrived, each message once.  After any run, if a
different message does arrive over a handler that has yet to read and the handler then runs,
that is over. -/
theorem messages_kept (n : Node) (devices : List Device) (es : List (Slot.Event Msg CStr))
    (s : Slot.State (List Device) CallbackPacket)
    (hrun : Slot.run n.slotMachine (.start devices) es = some s) :
    (Slot.TimelyRun n.slotMachine (.start devices) es → Slot.Kept s) ∧
    ∀ (m : Msg) (packet own : CallbackPacket) (reads : Bool) (k : Nat) (stale : CStr)
      (s' : Slot.State (List Device) CallbackPacket),
      n.slotMachine.receive s.node m = some (packet, reads) → s.pending[k]? = some (own, true) →
        packet ≠ own → Slot.run n.slotMachine s [.arrive m, .run k stale] = some s' →
          ¬ Slot.Kept s' := by
  refine ⟨fun ht => ?_, fun m packet own reads k stale s' hm hk hne hrun' => ?_⟩
  · obtain ⟨hk, hi⟩ := Slot.kept_start n.slotMachine devices
    exact (ht.kept hk hi hrun).1
  · exact Slot.not_kept_of_untimely hm hk hne hrun'

/-! ## Two announcements -/

def doorMessage : Msg := ⟨Topic.controler, "PropertyChanged.door_opener.Value.ON".toList⟩
def bulbMessage : Msg := ⟨Topic.controler, "PropertyChanged.light_bulb.Value.ON".toList⟩

def inTurn : List (Slot.Event Msg CStr) :=
  [.arrive doorMessage, .run 0 [], .arrive bulbMessage, .run 0 []]

def backToBack : List (Slot.Event Msg CStr) :=
  [.arrive doorMessage, .arrive bulbMessage, .run 0 [], .run 0 []]

def afterEvents (es : List (Slot.Event Msg CStr)) :
    Slot.State (List Device) CallbackPacket :=
  (Slot.run Node.kontroler.slotMachine (.start (Kontroler.main ⟨0, 0⟩)) es).getD
    (.start (Kontroler.main ⟨0, 0⟩))

theorem run_afterEvents {es : List (Slot.Event Msg CStr)}
    (h : (Slot.run Node.kontroler.slotMachine (.start (Kontroler.main ⟨0, 0⟩)) es).isSome = true) :
    Slot.run Node.kontroler.slotMachine (.start (Kontroler.main ⟨0, 0⟩)) es =
      some (afterEvents es) := by
  obtain ⟨s, hs⟩ := Option.isSome_iff_exists.mp h
  rw [afterEvents, hs]
  rfl

theorem messages_kept_inTurn : Slot.Kept (afterEvents inTurn) :=
  (messages_kept .kontroler (Kontroler.main ⟨0, 0⟩) inTurn (afterEvents inTurn)
    (run_afterEvents (by decide +kernel))).1 (by decide +kernel)

/-- Both handlers act on the second message, and nobody on the first. -/
theorem messages_lost : ¬ ∀ (n : Node) (devices : List Device) (es : List (Slot.Event Msg CStr))
    (s : Slot.State (List Device) CallbackPacket),
      Slot.run n.slotMachine (.start devices) es = some s → s.pending = [] →
        (s.acted.map Prod.snd).Perm s.arrived := by
  intro h
  have hperm := h .kontroler (Kontroler.main ⟨0, 0⟩) backToBack (afterEvents backToBack)
    (run_afterEvents (by decide +kernel)) (by decide +kernel)
  have harrived : ⟨doorMessage.topic, doorMessage.payload⟩ ∈ (afterEvents backToBack).arrived := by
    decide +kernel
  have hacted : ⟨doorMessage.topic, doorMessage.payload⟩ ∉
      (afterEvents backToBack).acted.map Prod.snd := by
    decide +kernel
  exact hacted (hperm.mem_iff.mpr harrived)

end SmartHome
