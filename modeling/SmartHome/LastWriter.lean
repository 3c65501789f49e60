/-
# `LastWriter` — an owner's table is two last-writer-wins registers per device

Whatever the table, and whatever it is handed one event at a time, an owner
ends with the table whose texts are read off the registers of `Lib.Register`:
an event writes a device's value or info if it addresses the device, by id, by
topic and group, or by index.  What it publishes on the way is decided by the
same registers: a `Set` is always announced, the other writes only when they
change what the register holds.
-/
import SmartHome.Log

namespace SmartHome

open Traced Register

/-! ## Events -/

/-- A message of a type the owners have no branch for, which `str_split` accepts. -/
def OtherType (payload : List Char) : Prop :=
  ∃ t ts, strSplit (stringCpy payload) delimiter = pure (t :: ts) ∧
    t ≠ MesType.sensorMes ∧ t ≠ MesType.setDevInfo ∧ t ≠ MesType.setDevValue

/-- What an owner is handed. -/
inductive OwnerEvent where
  /-- `Set_Dev_<property>.id.v` -/
  | set (topic : List Char) (p : Property) (id v : Word)
      (short : id.text.length ≤ 99 ∧ v.text.length ≤ 99)
  /-- `Sensor_Mes.<n>lr` -/
  | reading (topic : List Char) (n : Int32)
  | other (topic payload : List Char) (h : OtherType payload)
  /-- `update_sensors_value` of an entry of the table -/
  | update (n : Int32) (i : Nat)

namespace OwnerEvent

def run : OwnerEvent → List Device → Exec (List Device)
  | set topic p id v _, devices => Pi.handle devices topic (Mes.set p id v).text
  | reading topic n, devices => Pi.handle devices topic (Mes.reading n).text
  | other topic payload _, devices => Pi.handle devices topic payload
  | update n i, devices => updateSensorsValue n i devices

def runs : List OwnerEvent → List Device → Exec (List Device)
  | [], devices => pure devices
  | e :: es, devices => e.run devices >>= runs es

def InTable (len : Nat) : OwnerEvent → Prop
  | update _ i => i < len
  | set _ _ _ _ _ | reading _ _ | other _ _ _ => True

/-- What an event demands of the device at index `i`. -/
def demand (i : Nat) (d : Device) : OwnerEvent → Option Demand
  | set _ p id v _ => if d.id = id.text then some ⟨p, v, true⟩ else none
  | reading topic n =>
      if d.topic = stringCpy topic ∧ d.group = actuators then
        some ⟨.value, checkWord d.condition n, false⟩
      else none
  | other _ _ _ => none
  | update n j => if j = i then some ⟨.value, readingWord n, false⟩ else none

/-! ## The registers -/

/-- What an event writes to a property of the device at index `i`. -/
def writes (p : Property) (i : Nat) (d : Device) (e : OwnerEvent) : Option CStr :=
  (e.demand i d).bind (Demand.on p)

/-- The device at index `i` after the events. -/
def registers (es : List OwnerEvent) (i : Nat) (d : Device) : Device where
  id := d.id
  group := d.group
  value := read d.value (writes .value i d) es
  gpio_pin := d.gpio_pin
  topic := d.topic
  info := read d.info (writes .info i d) es
  condition := d.condition

/-- What the owner publishes for `es`, when `past` has happened before. -/
def announcements (devices : List Device) : List OwnerEvent → List OwnerEvent → List Msg
  | _, [] => []
  | past, e :: es =>
      (devices.mapIdx fun i d => (registers past i d).announce (e.demand i d)).flatten ++
        announcements devices (past ++ [e]) es

@[simp] theorem registers_frame (es : List OwnerEvent) (i : Nat) (d : Device) :
    (registers es i d).frame = d.frame := rfl

theorem get_registers (es : List OwnerEvent) (i : Nat) (d : Device) (p : Property) :
    p.get (registers es i d) = read (p.get d) (writes p i d) es := by cases p <;> rfl

theorem demand_congr {d d' : Device} (h : d.frame = d'.frame) (i : Nat) (e : OwnerEvent) :
    e.demand i d = e.demand i d' := by
  simp only [Device.frame, Frame.mk.injEq] at h
  obtain ⟨hid, hgroup, -, htopic, hcond⟩ := h
  cases e with
  | set _ _ _ _ _ => simp only [demand, hid]
  | reading _ _ => simp only [demand, hgroup, htopic, hcond]
  | other _ _ _ | update _ _ => rfl

theorem eq_of_frame {d d' : Device} (h : d.frame = d'.frame)
    (hget : ∀ p : Property, p.get d = p.get d') : d = d' := by
  have hvalue := hget .value
  have hinfo := hget .info
  cases d
  cases d'
  simp_all [Device.frame, Property.get]

theorem meet_registers (past : List OwnerEvent) (i : Nat) (d : Device) (e : OwnerEvent) :
    (registers past i d).meet (e.demand i d) = registers (past ++ [e]) i d := by
  apply eq_of_frame
  · rw [Device.meet_frame, registers_frame, registers_frame]
  · intro p
    rw [get_meet, get_registers, get_registers, read_concat]
    rfl

/-! ## One event -/

theorem set_eq_mapIdx {devices : List Device} {i : Nat} {d : Device} (h : devices[i]? = some d)
    (r : Option Demand) :
    devices.set i (d.meet r) =
      devices.mapIdx fun k e => e.meet (if i = k then r else none) := by
  apply List.ext_getElem?
  intro k
  rw [List.getElem?_mapIdx]
  by_cases hk : i = k
  · subst hk
    rw [List.getElem?_set_self (List.getElem?_eq_some_iff.mp h).1, h, if_pos rfl]
    rfl
  · rw [List.getElem?_set_ne hk, if_neg hk]
    cases devices[k]? <;> rfl

theorem announce_eq_mapIdx (r : Option Demand) {d : Device} : ∀ {devices : List Device} {i : Nat},
    devices[i]? = some d →
      d.announce r =
        (devices.mapIdx fun k e => e.announce (if i = k then r else none)).flatten := by
  intro devices
  induction devices with
  | nil => intro i h; cases h
  | cons e es ih =>
      intro i h
      rw [List.mapIdx_cons, List.flatten_cons]
      cases i with
      | zero =>
          cases h
          have hrest : (es.mapIdx fun k e => e.announce (if 0 = k + 1 then r else none)).flatten
              = [] := by
            simp
          rw [if_pos rfl, hrest, List.append_nil]
      | succ i =>
          have hskip : e.announce (if i + 1 = 0 then r else none) = [] := by simp
          rw [hskip, List.nil_append, ih h]
          simp only [Nat.add_right_cancel_iff]

theorem mapIdx_const {α β : Type} (f : α → β) (as : List α) :
    as.mapIdx (fun _ a => f a) = as.map f := by
  apply List.ext_getElem?
  intro i
  rw [List.getElem?_mapIdx, List.getElem?_map]

theorem completed_run {devices : List Device} {e : OwnerEvent} (h : e.InTable devices.length) :
    completed (e.run devices) =
      some (devices.mapIdx fun i d => d.meet (e.demand i d),
        (devices.mapIdx fun i d => d.announce (e.demand i d)).flatten) := by
  have hall : ∀ f : Device → Option Demand,
      (devices.map fun d => d.meet (f d), devices.flatMap fun d => d.announce (f d)) =
        (devices.mapIdx fun _ d => d.meet (f d),
          (devices.mapIdx fun _ d => d.announce (f d)).flatten) := by
    intro f
    rw [mapIdx_const, mapIdx_const, List.flatMap_def]
  cases e with
  | set topic p id v _ =>
      show completed (Pi.handle devices topic (Mes.set p id v).text) = _
      rw [Pi.handle_carried (Mes.carried_text _), hall]
      rfl
  | reading topic n =>
      show completed (Pi.handle devices topic (Mes.reading n).text) = _
      rw [Pi.handle_carried (Mes.carried_text _), hall]
      rfl
  | other topic payload hother =>
      obtain ⟨t, ts, hsplit, h₁, h₂, h₃⟩ := hother
      have hsplit' : strSplit (Pi.publishCallback topic payload).mes delimiter = pure (t :: ts) :=
        hsplit
      show completed (Pi.handle devices topic payload) = _
      rw [Pi.handle, Pi.distributePubMessage_of_split hsplit', if_neg h₁, if_neg h₂, if_neg h₃,
        completed_pure]
      have hnone := hall fun _ => none
      have hquiet : (devices.flatMap fun _ => ([] : List Msg)) = [] := by simp
      simp only [Device.meet_none, Device.announce_none, List.map_id'] at hnone
      rw [hquiet] at hnone
      exact congrArg some hnone
  | update n i =>
      have hd : devices[i]? = some devices[i] := List.getElem?_eq_getElem h
      show completed (updateSensorsValue n i devices) = _
      rw [completed_updateSensorsValue hd, set_eq_mapIdx hd, announce_eq_mapIdx _ hd]
      rfl

/-! ## Any number of events -/

theorem completed_runs {devices : List Device} : ∀ {es : List OwnerEvent},
    (∀ e ∈ es, e.InTable devices.length) → ∀ past : List OwnerEvent,
      completed (runs es (devices.mapIdx (registers past))) =
        some (devices.mapIdx (registers (past ++ es)), announcements devices past es) := by
  intro es
  induction es with
  | nil =>
      intro _ past
      rw [List.append_nil]
      rfl
  | cons e es ih =>
      intro h past
      obtain ⟨he, hes⟩ := List.forall_mem_cons.mp h
      have hstep : completed (e.run (devices.mapIdx (registers past))) =
          some (devices.mapIdx (registers (past ++ [e])),
            (devices.mapIdx fun i d => (registers past i d).announce (e.demand i d)).flatten) := by
        rw [completed_run (by rwa [List.length_mapIdx])]
        simp only [List.mapIdx_mapIdx, Function.comp_def, demand_congr (registers_frame past _ _),
          meet_registers]
      rw [runs, completed_bind hstep, ih hes, Option.map_some, List.append_assoc]
      rfl

end OwnerEvent

/-- From any table and through any events on it, the code returns; the table it leaves and the
messages it has published on `controler` are those of the registers. -/
theorem owner_refines_registers (devices : List Device) (es : List OwnerEvent)
    (h : ∀ e ∈ es, e.InTable devices.length) :
    completed (OwnerEvent.runs es devices) =
      some (devices.mapIdx (OwnerEvent.registers es), OwnerEvent.announcements devices [] es) := by
  have hstart : devices.mapIdx (OwnerEvent.registers []) = devices := by
    have hid : OwnerEvent.registers [] = fun _ d => d := rfl
    rw [hid, OwnerEvent.mapIdx_const (fun d : Device => d), List.map_id']
  have hruns := OwnerEvent.completed_runs h []
  rw [hstart] at hruns
  exact hruns

def lightBulb : Device := actuator "light_bulb" "home/hallway/fingerprint"

theorem isWord_lightBulb : IsWord lightBulb.id := by decide

/-- A `Set` for the bulb, a reading on its topic, and an update of the first entry. -/
def bulbEvents : List OwnerEvent :=
  [.set Topic.devicesFunc .value ⟨lightBulb.id, isWord_lightBulb⟩ ⟨"dim".toList, by decide⟩
    (by decide),
   .reading "home/hallway/fingerprint".toList 30, .update 30 0]

theorem owner_refines_registers_bulbs :
    completed (OwnerEvent.runs bulbEvents [lightBulb, lightBulb]) =
      some ([lightBulb, lightBulb].mapIdx (OwnerEvent.registers bulbEvents),
        OwnerEvent.announcements [lightBulb, lightBulb] [] bulbEvents) :=
  owner_refines_registers _ _ (by simp [bulbEvents, OwnerEvent.InTable])

example : (OwnerEvent.announcements [lightBulb, lightBulb] [] bulbEvents).map Msg.payload =
    ["PropertyChanged.light_bulb.Value.dim", "PropertyChanged.light_bulb.Value.dim",
     "PropertyChanged.light_bulb.Value.ON", "PropertyChanged.light_bulb.Value.ON",
     "PropertyChanged.light_bulb.Value.30lr"].map String.toList := by
  decide +kernel

end SmartHome
