/-
# `System` — the closed system: the command line, the controller and the two Pis

The four programs around the broker of `Lib.PubSub`, with the subscriptions
their mains make and one local state each, the device table.  An event is the
delivery of one message, which the receiving node handles to the end, or an
action of a node on its own: a command published on `controler` by the command
line, or one pass of the sensor loop's body.
-/
import SmartHome.Pi
import SmartHome.CommandLine
import SmartHome.Lib.PubSub

namespace SmartHome

open Traced PubSub

inductive Node where
  | commandLine
  | kontroler
  | senzorski
  | aktuatorski
  deriving DecidableEq, Repr

/-- What a node does unprompted. -/
inductive Action where
  /-- a client publishes the payload on `controler` -/
  | command (payload : CStr)
  /-- the sensor loop reaches index `i` and reads `reading` -/
  | sense (reading : Int32) (i : Nat)
  deriving DecidableEq, Repr

/-- What the mains leave unassigned in the two tables that hold `bathroom_temp_sensor`. -/
structure Boot where
  kontroler : Uninit
  senzorski : Uninit

/-- The boot at which every unassigned field happens to be zero. -/
def Boot.zero : Boot := ⟨⟨0, 0⟩, ⟨0, 0⟩⟩

/-- The tables the mains build; the command line keeps an empty one. -/
def Boot.table (b : Boot) : Node → List Device
  | .commandLine => []
  | .kontroler => Kontroler.main b.kontroler
  | .senzorski => Senzorski.main b.senzorski
  | .aktuatorski => Aktuatorski.main

def Boot.subscriptions (b : Boot) : Node → List CStr
  | .commandLine => [Topic.ui]
  | .kontroler => [Topic.controler]
  | .senzorski => Senzorski.subscriptions (b.table .senzorski)
  | .aktuatorski => Aktuatorski.subscriptions (b.table .aktuatorski)

/-- The handler a node runs for one message; `stale` is what its stack holds.  The command
line prints what it receives. -/
def Node.handle : Node → CStr → List Device → Msg → Exec (List Device)
  | .commandLine, _, devices, _ => pure devices
  | .kontroler, stale, devices, m => Kontroler.handle stale devices m.topic m.payload
  | .senzorski, _, devices, m => Pi.handle devices m.topic m.payload
  | .aktuatorski, _, devices, m => Pi.handle devices m.topic m.payload

/-- The code behind an action, where the node has it. -/
def Node.act : Node → Action → List Device → Option (Exec (List Device))
  | .commandLine, .command payload, devices => some do
      publish Topic.controler payload
      pure devices
  | .senzorski, .sense reading i, devices => some (Pi.sensorsValuePublish reading i devices)
  | .aktuatorski, .sense reading i, devices => some (Pi.sensorsValuePublish reading i devices)
  | _, _, _ => none

def protocol (b : Boot) : Protocol Node Msg (List Device) CStr Action where
  subscribed n m := decide (m.topic ∈ b.subscriptions n)
  handle n stale devices m := completed (n.handle stale devices m)
  act n a devices := (n.act a devices).bind completed

abbrev Sys := Config Node Msg (List Device)

abbrev SysEvent := PubSub.Event Node CStr Action

def Boot.start (b : Boot) : Sys := Config.start b.table

/-- Events whose commands all satisfy `P`. -/
def CommandsIn (P : CStr → Prop) : SysEvent → Prop
  | .act _ (.command payload) => P payload
  | _ => True

/-- Events whose handlers find their stack buffers empty. -/
def CleanStack : SysEvent → Prop
  | .deliver _ _ stale => stale = []
  | .act _ _ => True

def Quiescent (c : Sys) : Prop := ∀ p n, c.link p n = []

/-- The configuration after a run, or the start when an event of it is not enabled. -/
def Boot.after (b : Boot) (es : List SysEvent) : Sys :=
  (run (protocol b) b.start es).getD b.start

theorem Boot.reachable_after {b : Boot} {es : List SysEvent} {ok : SysEvent → Prop}
    (hrun : (run (protocol b) b.start es).isSome = true) (hok : es.Forall ok) :
    Reachable (protocol b) ok b.start (b.after es) := by
  obtain ⟨c, hc⟩ := Option.isSome_iff_exists.mp hrun
  refine ⟨es, List.forall_iff_forall_mem.mp hok, ?_⟩
  rw [Boot.after, hc]
  rfl

theorem Boot.step_after {b : Boot} {es : List SysEvent} {e : SysEvent}
    (hrun : (run (protocol b) b.start (es ++ [e])).isSome = true) :
    PubSub.step (protocol b) (b.after es) e = some (b.after (es ++ [e])) := by
  obtain ⟨c', hc'⟩ := Option.isSome_iff_exists.mp hrun
  rw [Boot.after, Boot.after, hc']
  rw [run_append] at hc'
  obtain ⟨c, hc, hstep⟩ := Option.bind_eq_some_iff.mp hc'
  rw [hc]
  obtain ⟨d, hd, hlast⟩ := Option.bind_eq_some_iff.mp hstep
  cases hlast
  exact hd

end SmartHome
