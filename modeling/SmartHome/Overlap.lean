/-
# `Overlap` — handlers of the actuator Pi that overlap

Every message is handled in a thread of its own, and a handler that changes a
device takes three steps to do it: it stores the value, formats the announcement
from the table, publishes it.  Here each handler has its message to itself, and
the handlers move in any order.

`Handler.step` is one such step.  Alone, a handler does what its function does
in one go (`run_alone`).  Overlapping, they leave the controller with the truth
about a device as long as nobody stores another value over an announcement that
is formatted and not yet published; and where somebody does, the run can be
finished with the controller believing the wrong value.
-/
import SmartHome.Owner
import SmartHome.Lib.Interleave
import SmartHome.Lib.Register

namespace SmartHome

open Traced Interleave Register

/-! ## Handlers -/

/-- What a message asks of the table: the arguments of `set_dev_value`, or those of
`automation_control` once `strtok` and `atoi` have read the value. -/
inductive Task where
  | setDevValue (id newValue : CStr)
  | automationControl (topic : CStr) (value : Int32)
  deriving DecidableEq

/-- `distribute_pub_message` up to the loop over the table; none if it does not get to one of
the two loops that change values. -/
def Task.ofMessage (m : Msg) : Option Task :=
  match (strSplit (Pi.publishCallback m.topic m.payload).mes delimiter).outcome with
  | .ok (mesType :: arg :: tokens) =>
      if mesType = MesType.sensorMes then
        (strtok 'l' arg).map fun valueToken =>
          .automationControl (stringCpy m.topic) (atoi valueToken.1)
      else if mesType = MesType.setDevValue then
        tokens.head?.map fun newValue => .setDevValue arg newValue
      else none
  | _ => none

def Task.body : Task → Device → Exec Device
  | .setDevValue id newValue => setDevBody .value (some id) (some newValue)
  | .automationControl topic value => automationBody topic value

/-- The value the body goes on to store, if it selects the device. -/
def Task.selects : Task → Device → Option CStr
  | .setDevValue id newValue, d => if d.id = id then some newValue else none
  | .automationControl topic value, d =>
      if d.topic = topic ∧ d.group = actuators then
        if d.value ≠ checkDeviceCondition d.condition value then
          some (checkDeviceCondition d.condition value)
        else none
      else none

/-- Where a handler is in the body of its loop. -/
inductive Stage where
  /-- about to compare -/
  | select
  /-- about to store this value -/
  | store (newValue : CStr)
  /-- about to format the message from the table -/
  | format
  /-- about to publish this message -/
  | publish (message : CStr)
  deriving DecidableEq

/-- A handler at entry `index` of the table. -/
structure Handler where
  task : Task
  index : Nat
  stage : Stage

def Handler.start (task : Task) : Handler := ⟨task, 0, .select⟩

structure Shared where
  devices : List Device
  published : List Msg

/-- One atomic step; none once the loop has left the table. -/
def Handler.step (s : Shared) (h : Handler) : Option (Shared × Handler) :=
  match s.devices[h.index]? with
  | none => none
  | some d =>
      match h.stage with
      | .select =>
          match h.task.selects d with
          | some newValue => some (s, { h with stage := .store newValue })
          | none => some (s, { h with index := h.index + 1 })
      | .store newValue =>
          some ({ s with devices := s.devices.set h.index (Property.value.put newValue d) },
            { h with stage := .format })
      | .format => some (s, { h with stage := .publish (d.announcement .value) })
      | .publish message =>
          some ({ s with published := s.published ++ [⟨Topic.controler, message⟩] },
            { h with index := h.index + 1, stage := .select })

/-- A handler for each message that asks for something, nothing published yet. -/
def overlapping (devices : List Device) (ms : List Msg) : State Shared Handler :=
  ⟨⟨devices, []⟩, (ms.filterMap Task.ofMessage).map Handler.start⟩

/-! ## A handler alone -/

theorem Task.completed_body (task : Task) (d : Device) :
    completed (task.body d) = some (match task.selects d with
      | some v =>
          (Property.value.put v d, [⟨Topic.controler, sprintfChanged d.id "Value".toList v⟩])
      | none => (d, [])) := by
  cases task with
  | setDevValue id newValue =>
      by_cases hid : d.id = id
      · simp [Task.body, Task.selects, setDevBody, hid, completed_storeAndPublish, Property.name]
      · simp [Task.body, Task.selects, setDevBody, hid]
  | automationControl topic value =>
      by_cases hsel : d.topic = topic ∧ d.group = actuators
      · by_cases hv : d.value = checkDeviceCondition d.condition value
        · simp [Task.body, Task.selects, automationBody, hsel, hv]
        · simp [Task.body, Task.selects, automationBody, hsel, hv, completed_storeAndPublish,
            Property.name]
      · simp [Task.body, Task.selects, automationBody, hsel]

theorem Pi.completed_handle_task {m : Msg} {task : Task} (h : Task.ofMessage m = some task)
    (devices : List Device) :
    completed (Pi.handle devices m.topic m.payload) = completed (sweep task.body devices) := by
  unfold Task.ofMessage at h
  split at h
  · rename_i mesType arg tokens hsplit
    have hpure : strSplit (Pi.publishCallback m.topic m.payload).mes delimiter =
        pure (mesType :: arg :: tokens) := by
      rw [strSplit_eq] at hsplit ⊢
      split at hsplit
      · rename_i hc
        rw [if_pos hc]
        exact congrArg pure (Except.ok.inj hsplit)
      · cases hsplit
    have harg : load (mesType :: arg :: tokens) 1 = pure (some arg) := load_of_lt rfl
    rw [Pi.handle, Pi.distributePubMessage_of_split hpure]
    split at h
    · rename_i htype
      obtain ⟨valueToken, hv, rfl⟩ := Option.map_eq_some_iff.mp h
      rw [if_pos htype]
      simp only [automationControl, harg, pure_bind, use_some, hv, Option.map_some]
      rfl
    · rename_i hne
      rw [if_neg hne]
      split at h
      · rename_i htype
        obtain ⟨newValue, hv, rfl⟩ := Option.map_eq_some_iff.mp h
        have hnew : load (mesType :: arg :: tokens) 2 = pure (some newValue) := by
          refine load_of_lt ?_
          rw [← hv, List.head?_eq_getElem?]
          rfl
        rw [if_neg (by rw [htype]; decide), if_pos htype]
        simp only [SmartHome.setDevValue, setDev, harg, hnew, pure_bind]
        rfl
      · cases h
  · cases h

section Step

variable {devices : List Device} {ms : List Msg} {task : Task} {i : Nat} {d : Device}

theorem Handler.step_skip (hd : devices[i]? = some d) (hsel : task.selects d = none) :
    Handler.step ⟨devices, ms⟩ ⟨task, i, .select⟩ =
      some (⟨devices, ms⟩, ⟨task, i + 1, .select⟩) := by
  simp [Handler.step, hd, hsel]

theorem Handler.step_select {v : CStr} (hd : devices[i]? = some d)
    (hsel : task.selects d = some v) :
    Handler.step ⟨devices, ms⟩ ⟨task, i, .select⟩ = some (⟨devices, ms⟩, ⟨task, i, .store v⟩) := by
  simp [Handler.step, hd, hsel]

theorem Handler.step_store (v : CStr) (hd : devices[i]? = some d) :
    Handler.step ⟨devices, ms⟩ ⟨task, i, .store v⟩ =
      some (⟨devices.set i (Property.value.put v d), ms⟩, ⟨task, i, .format⟩) := by
  simp [Handler.step, hd]

theorem Handler.step_format (hd : devices[i]? = some d) :
    Handler.step ⟨devices, ms⟩ ⟨task, i, .format⟩ =
      some (⟨devices, ms⟩, ⟨task, i, .publish (d.announcement .value)⟩) := by
  simp [Handler.step, hd]

theorem Handler.step_publish (message : CStr) (hd : devices[i]? = some d) :
    Handler.step ⟨devices, ms⟩ ⟨task, i, .publish message⟩ =
      some (⟨devices, ms ++ [⟨Topic.controler, message⟩]⟩, ⟨task, i + 1, .select⟩) := by
  simp [Handler.step, hd]

end Step

/-- Alone, the handler does what the loop does, from any entry of the table on. -/
theorem run_alone_from (task : Task) : ∀ (rest done : List Device) (ms : List Msg),
    ∃ n rest' ms', completed (sweep task.body rest) = some (rest', ms') ∧
      run Handler.step ⟨⟨done ++ rest, ms⟩, [⟨task, done.length, .select⟩]⟩ (List.replicate n 0) =
        some ⟨⟨done ++ rest', ms ++ ms'⟩, [⟨task, (done ++ rest').length, .select⟩]⟩ := by
  intro rest
  induction rest with
  | nil =>
      intro done ms
      refine ⟨0, [], [], rfl, ?_⟩
      simp [run]
  | cons d rest ih =>
      intro done ms
      have hd : (done ++ d :: rest)[done.length]? = some d := by simp
      have hbody := task.completed_body d
      cases hsel : task.selects d with
      | none =>
          rw [hsel] at hbody
          obtain ⟨n, rest', ms', hloop, hrun⟩ := ih (done ++ [d]) ms
          refine ⟨n + 1, d :: rest', ms', ?_, ?_⟩
          · rw [sweep, completed_bind hbody, completed_bind hloop]
            simp
          · rw [run_single (Handler.step_skip hd hsel)]
            simpa using hrun
      | some v =>
          rw [hsel] at hbody
          obtain ⟨d', hd'⟩ : ∃ d', d' = Property.value.put v d := ⟨_, rfl⟩
          have hmes : d'.announcement .value = sprintfChanged d.id "Value".toList v := by
            rw [hd']
            rfl
          have hset : (done ++ d :: rest).set done.length (Property.value.put v d) =
              done ++ d' :: rest := by
            rw [hd']
            simp
          have hget : (done ++ d' :: rest)[done.length]? = some d' := by simp
          obtain ⟨n, rest', ms', hloop, hrun⟩ :=
            ih (done ++ [d']) (ms ++ [⟨Topic.controler, d'.announcement .value⟩])
          refine ⟨n + 4, d' :: rest', ⟨Topic.controler, d'.announcement .value⟩ :: ms', ?_, ?_⟩
          · rw [sweep, completed_bind hbody, completed_bind hloop, ← hd', hmes]
            simp
          · rw [run_single (Handler.step_select hd hsel), run_single (Handler.step_store v hd),
              hset, run_single (Handler.step_format hget),
              run_single (Handler.step_publish _ hget)]
            simpa using hrun

/-- Alone, a handler does what its function does: some number of steps takes it to its end,
with the table and the messages of the sequential handler. -/
theorem run_alone {m : Msg} {task : Task} (h : Task.ofMessage m = some task)
    (devices : List Device) :
    ∃ n s, run Handler.step (overlapping devices [m]) (List.replicate n 0) = some s ∧
      Finished Handler.step s ∧
      completed (Pi.handle devices m.topic m.payload) =
        some (s.shared.devices, s.shared.published) := by
  obtain ⟨n, devices', ms, hloop, hrun⟩ := run_alone_from task devices [] []
  have hstart : overlapping devices [m] = ⟨⟨devices, []⟩, [⟨task, 0, .select⟩]⟩ := by
    simp [overlapping, h, Handler.start]
  refine ⟨n, ⟨⟨devices', ms⟩, [⟨task, devices'.length, .select⟩]⟩, ?_, ?_, ?_⟩
  · rw [hstart]
    exact hrun
  · intro t ht
    obtain rfl := List.mem_singleton.mp ht
    simp [Handler.step]
  · rw [Pi.completed_handle_task h, hloop]

theorem Handler.step_cases {s s' : Shared} {h h' : Handler}
    (hs : Handler.step s h = some (s', h')) : ∃ d, s.devices[h.index]? = some d ∧
      ((h.stage = .select ∧ s' = s ∧ h' = ⟨h.task, h.index + 1, .select⟩) ∨
       (∃ v, h.stage = .select ∧ s' = s ∧ h' = ⟨h.task, h.index, .store v⟩) ∨
       (∃ v, h.stage = .store v ∧ h' = ⟨h.task, h.index, .format⟩ ∧
        s' = ⟨s.devices.set h.index (Property.value.put v d), s.published⟩) ∨
       (h.stage = .format ∧ s' = s ∧ h' = ⟨h.task, h.index, .publish (d.announcement .value)⟩) ∨
       (∃ message, h.stage = .publish message ∧ h' = ⟨h.task, h.index + 1, .select⟩ ∧
        s' = ⟨s.devices, s.published ++ [⟨Topic.controler, message⟩]⟩)) := by
  obtain ⟨task, i, stage⟩ := h
  cases hd : s.devices[i]? with
  | none => simp [Handler.step, hd] at hs
  | some d =>
      refine ⟨d, rfl, ?_⟩
      cases stage with
      | select =>
          cases hsel : task.selects d with
          | none =>
              rw [Handler.step_skip hd hsel] at hs
              cases hs
              exact Or.inl ⟨rfl, rfl, rfl⟩
          | some v =>
              rw [Handler.step_select hd hsel] at hs
              cases hs
              exact Or.inr (Or.inl ⟨v, rfl, rfl, rfl⟩)
      | store v =>
          rw [Handler.step_store v hd] at hs
          cases hs
          exact Or.inr (Or.inr (Or.inl ⟨v, rfl, rfl, rfl⟩))
      | format =>
          rw [Handler.step_format hd] at hs
          cases hs
          exact Or.inr (Or.inr (Or.inr (Or.inl ⟨rfl, rfl, rfl⟩)))
      | publish message =>
          rw [Handler.step_publish message hd] at hs
          cases hs
          exact Or.inr (Or.inr (Or.inr (Or.inr ⟨message, rfl, rfl, rfl⟩)))

/-! ## What the controller is told -/

/-- The value a message announces for a device: what follows `PropertyChanged.<id>.Value.`. -/
def valueFor (id : CStr) (m : Msg) : Option CStr :=
  if m.topic = Topic.controler then
    m.payload.dropPrefix? (sprintfChanged id "Value".toList [])
  else none

/-- The last value announced for entry `i`, if one was, is the value it has. -/
def Truthful (i : Nat) (s : State Shared Handler) : Prop :=
  ∀ d ∈ s.shared.devices[i]?, ∀ v ∈ last (valueFor d.id) s.shared.published, v = d.value

/-- The table of the actuator Pi, whatever its handlers have stored. -/
def IsTable (devices : List Device) : Prop :=
  devices.map Device.frame = Aktuatorski.main.map Device.frame

theorem IsTable.ids {devices : List Device} (h : IsTable devices) :
    devices.map Device.id = Aktuatorski.main.map Device.id := by
  have hids := congrArg (List.map Frame.id) h
  rwa [List.map_map, List.map_map] at hids

theorem IsTable.dotless {devices : List Device} (h : IsTable devices) {d : Device}
    (hd : d ∈ devices) : delimiter ∉ d.id := by
  have hmain : ∀ id ∈ Aktuatorski.main.map Device.id, delimiter ∉ id := by decide
  refine hmain d.id ?_
  rw [← h.ids]
  exact List.mem_map_of_mem hd

theorem IsTable.id_inj {devices : List Device} (h : IsTable devices) {i j : Nat} {d e : Device}
    (hd : devices[i]? = some d) (he : devices[j]? = some e) (hid : d.id = e.id) : i = j := by
  have hmain : (Aktuatorski.main.map Device.id).Nodup := by decide
  have hi : i < (devices.map Device.id).length := by
    rw [List.length_map]
    exact (List.getElem?_eq_some_iff.mp hd).1
  refine (List.getElem?_inj hi (h.ids ▸ hmain)).mp ?_
  rw [List.getElem?_map, List.getElem?_map, hd, he, Option.map_some, Option.map_some, hid]

theorem IsTable.entry {devices devices' : List Device} (h : IsTable devices) (h' : IsTable devices')
    {i : Nat} {d : Device} (hd : devices[i]? = some d) :
    ∃ e, devices'[i]? = some e ∧ e.id = d.id := by
  have hids : (devices'.map Device.id)[i]? = some d.id := by
    rw [h'.ids, ← h.ids, List.getElem?_map, hd]
    rfl
  rw [List.getElem?_map] at hids
  exact Option.map_eq_some_iff.mp hids

theorem IsTable.set {devices : List Device} (h : IsTable devices) {i : Nat} {d : Device}
    (hd : devices[i]? = some d) (v : CStr) : IsTable (devices.set i (Property.value.put v d)) := by
  have hd' : (devices.map Device.frame)[i]? = some d.frame := by rw [List.getElem?_map, hd]; rfl
  rw [IsTable, List.map_set, Property.frame_put, set_eq_self hd']
  exact h

theorem takeWhile_append_cons {d : Char} {f : CStr} (h : d ∉ f) (s : CStr) :
    (f ++ d :: s).takeWhile (· ≠ d) = f := by
  rw [List.takeWhile_append_of_pos (forall_ne_of_not_mem h), List.takeWhile_cons_of_neg (by simp),
    List.append_nil]

theorem valueFor_changed {x id : CStr} (hx : delimiter ∉ x) (hid : delimiter ∉ id) (v : CStr) :
    valueFor x ⟨Topic.controler, sprintfChanged id "Value".toList v⟩ =
      if id = x then some v else none := by
  have hsplit : ∀ y w : CStr, sprintfChanged y "Value".toList w =
      MesType.propertyChanged ++ '.' :: (y ++ '.' :: ("Value".toList ++ '.' :: w)) := by
    intro y w
    simp [sprintfChanged]
  rw [valueFor, if_pos rfl]
  split
  · rename_i heq
    rw [List.dropPrefix?_eq_some_iff]
    refine ⟨sprintfChanged x "Value".toList [], ?_, by simp⟩
    rw [hsplit, hsplit, heq]
    simp
  · rename_i hne
    rw [Option.eq_none_iff_forall_ne_some]
    intro w hw
    obtain ⟨p, hp, hpx⟩ := List.dropPrefix?_eq_some_iff.mp hw
    rw [eq_of_beq hpx, hsplit, hsplit] at hp
    simp only [List.append_assoc, List.cons_append, List.append_cancel_left_eq, List.cons.injEq,
      true_and] at hp
    have htake := congrArg (List.takeWhile (· ≠ '.')) hp
    rw [takeWhile_append_cons (show '.' ∉ id from hid),
      takeWhile_append_cons (show '.' ∉ x from hx)] at htake
    exact hne htake

/-! ## The condition -/

def Stage.storing : Stage → Option CStr
  | .store v => some v
  | .select | .format | .publish _ => none

def Stage.formatted : Stage → Option CStr
  | .publish message => some message
  | .select | .store _ | .format => none

/-- If handler `k` is about to store in entry `i`, it stores what every message says that is
formatted for the entry and not yet published. -/
def Harmless (i : Nat) (s : State Shared Handler) (k : Nat) : Prop :=
  ∀ h ∈ s.threads[k]?, h.index = i → ∀ v ∈ h.stage.storing, ∀ d ∈ s.shared.devices[i]?,
    ∀ h' ∈ s.threads, h'.index = i → ∀ message ∈ h'.stage.formatted,
      message = sprintfChanged d.id "Value".toList v

instance (i : Nat) (s : State Shared Handler) (k : Nat) : Decidable (Harmless i s k) :=
  inferInstanceAs (Decidable (∀ h ∈ s.threads[k]?, h.index = i → ∀ v ∈ h.stage.storing,
    ∀ d ∈ s.shared.devices[i]?, ∀ h' ∈ s.threads, h'.index = i →
      ∀ message ∈ h'.stage.formatted, message = sprintfChanged d.id "Value".toList v))

/-! ## What every step keeps -/

/-- A formatted message announces some value of the entry its handler is at. -/
structure Formed (s : State Shared Handler) : Prop where
  table : IsTable s.shared.devices
  formatted : ∀ h ∈ s.threads, ∀ message ∈ h.stage.formatted,
    ∃ d ∈ s.shared.devices[h.index]?, ∃ v, message = sprintfChanged d.id "Value".toList v

theorem formed_overlapping {devices : List Device} (h : IsTable devices) (ms : List Msg) :
    Formed (overlapping devices ms) where
  table := h
  formatted t ht message hm := by
    obtain ⟨task, -, rfl⟩ := List.mem_map.mp ht
    cases hm

theorem getElem?_store {devices : List Device} {i j : Nat} {d e : Device}
    (hd : devices[i]? = some d) (he : devices[j]? = some e) (v : CStr) :
    ∃ e', (devices.set i (Property.value.put v d))[j]? = some e' ∧ e'.id = e.id := by
  by_cases hij : i = j
  · subst hij
    cases hd.symm.trans he
    refine ⟨_, List.getElem?_set_self (List.getElem?_eq_some_iff.mp hd).1, ?_⟩
    exact Property.id_put .value v d
  · rw [List.getElem?_set_ne hij]
    exact ⟨e, he, rfl⟩

theorem Formed.move {s : State Shared Handler} (hf : Formed s) {devices : List Device}
    {ms : List Msg} {k : Nat} {h' : Handler} (htable : IsTable devices)
    (hids : ∀ (j : Nat) (e : Device), s.shared.devices[j]? = some e →
      ∃ e' : Device, devices[j]? = some e' ∧ e'.id = e.id)
    (hnew : ∀ message ∈ h'.stage.formatted,
      ∃ d ∈ devices[h'.index]?, ∃ v, message = sprintfChanged d.id "Value".toList v) :
    Formed ⟨⟨devices, ms⟩, s.threads.set k h'⟩ where
  table := htable
  formatted t ht message hm := by
    rcases List.mem_or_eq_of_mem_set ht with ht | rfl
    · obtain ⟨e, he, v, rfl⟩ := hf.formatted t ht message hm
      obtain ⟨e', he', hid⟩ := hids _ e he
      exact ⟨e', he', v, by rw [hid]⟩
    · exact hnew message hm

theorem formed_step {s s' : State Shared Handler} {k : Nat} (hf : Formed s)
    (hs : Interleave.step Handler.step s k = some s') : Formed s' := by
  obtain ⟨h, a, h', hk, hn, rfl⟩ := step_eq_some.mp hs
  obtain ⟨d, hd, hcase⟩ := Handler.step_cases hn
  have hsame : ∀ (j : Nat) (e : Device), s.shared.devices[j]? = some e →
      ∃ e' : Device, s.shared.devices[j]? = some e' ∧ e'.id = e.id := fun j e he => ⟨e, he, rfl⟩
  rcases hcase with ⟨-, rfl, rfl⟩ | ⟨v, -, rfl, rfl⟩ | ⟨v, -, rfl, rfl⟩ | ⟨-, rfl, rfl⟩ |
    ⟨message, -, rfl, rfl⟩
  · exact hf.move hf.table hsame fun m hm => by cases hm
  · exact hf.move hf.table hsame fun m hm => by cases hm
  · refine hf.move (hf.table.set hd v) (fun j e he => getElem?_store hd he v) fun m hm => ?_
    cases hm
  · refine hf.move hf.table hsame fun m hm => ?_
    cases hm
    exact ⟨d, hd, d.value, rfl⟩
  · exact hf.move hf.table hsame fun m hm => by cases hm

theorem formed_run {devices : List Device} (h : IsTable devices) {ms : List Msg} {es : List Nat}
    {s : State Shared Handler} (hrun : run Handler.step (overlapping devices ms) es = some s) :
    Formed s :=
  run_invariant (fun _ _ _ _ hf hs => formed_step hf hs) (formed_overlapping h ms) hrun

theorem Formed.valueFor_other {s : State Shared Handler} (hf : Formed s) {h : Handler}
    (hh : h ∈ s.threads) {message : CStr} (hm : message ∈ h.stage.formatted) {i : Nat}
    (hne : h.index ≠ i) {d : Device} (hd : s.shared.devices[i]? = some d) :
    valueFor d.id ⟨Topic.controler, message⟩ = none := by
  obtain ⟨e, he, v, rfl⟩ := hf.formatted h hh message hm
  rw [valueFor_changed (hf.table.dotless (List.mem_of_getElem? hd))
    (hf.table.dotless (List.mem_of_getElem? he)), if_neg]
  exact fun hid => hne (hf.table.id_inj he hd hid)

/-! ## What a harmless step keeps -/

/-- Stored, and not yet published. -/
def Handler.Changing (i : Nat) (h : Handler) : Prop :=
  h.index = i ∧ (h.stage = .format ∨ ∃ message, h.stage = .publish message)

/-- The messages formatted for entry `i` announce its value; and so does the last published
one, unless a handler has stored and is yet to publish. -/
structure Current (i : Nat) (s : State Shared Handler) : Prop where
  formatted : ∀ d ∈ s.shared.devices[i]?, ∀ h ∈ s.threads, h.index = i →
    ∀ message ∈ h.stage.formatted, message = d.announcement .value
  last : ∀ d ∈ s.shared.devices[i]?, (∀ v ∈ last (valueFor d.id) s.shared.published, v = d.value) ∨
    ∃ h ∈ s.threads, h.Changing i

theorem current_overlapping (i : Nat) (devices : List Device) (ms : List Msg) :
    Current i (overlapping devices ms) where
  formatted d _ h hh _ message hm := by
    obtain ⟨task, -, rfl⟩ := List.mem_map.mp hh
    cases hm
  last d _ := Or.inl fun v hv => by cases hv

theorem Current.move {i : Nat} {s : State Shared Handler} (hc : Current i s) {a : Shared} {k : Nat}
    {h h' : Handler} (hk : s.threads[k]? = some h) (hdev : a.devices[i]? = s.shared.devices[i]?)
    (hlast : ∀ d ∈ s.shared.devices[i]?,
      Register.last (valueFor d.id) a.published = Register.last (valueFor d.id) s.shared.published)
    (hnew : ∀ d ∈ s.shared.devices[i]?, h'.index = i →
      ∀ message ∈ h'.stage.formatted, message = d.announcement .value)
    (hkeep : h.Changing i → h'.Changing i) : Current i ⟨a, s.threads.set k h'⟩ where
  formatted d hd t ht hi message hm := by
    rw [hdev] at hd
    rcases List.mem_or_eq_of_mem_set ht with ht | rfl
    · exact hc.formatted d hd t ht hi message hm
    · exact hnew d hd hi message hm
  last d hd := by
    rw [hdev] at hd
    rcases hc.last d hd with hl | ⟨t, ht, htc⟩
    · refine Or.inl fun v hv => hl v ?_
      rw [← hlast d hd]
      exact hv
    · rcases mem_of_mem_set hk ht with ht' | rfl
      · exact Or.inr ⟨t, ht', htc⟩
      · exact Or.inr ⟨h', mem_set_self hk h', hkeep htc⟩

theorem current_step {i : Nat} {s s' : State Shared Handler} {k : Nat} (hf : Formed s)
    (hc : Current i s) (hp : Harmless i s k)
    (hs : Interleave.step Handler.step s k = some s') : Current i s' := by
  obtain ⟨h, a, h', hk, hn, rfl⟩ := step_eq_some.mp hs
  obtain ⟨d, hd, hcase⟩ := Handler.step_cases hn
  have hmem : h ∈ s.threads := List.mem_of_getElem? hk
  rcases hcase with ⟨hst, rfl, rfl⟩ | ⟨v, hst, rfl, rfl⟩ | ⟨v, hst, rfl, rfl⟩ | ⟨hst, rfl, rfl⟩ |
    ⟨message, hst, rfl, rfl⟩
  · refine hc.move hk rfl (fun _ _ => rfl) (fun _ _ _ m hm => by cases hm) fun hch => ?_
    rcases hch.2 with h | ⟨m, h⟩ <;> exact absurd (hst.symm.trans h) (by simp)
  · refine hc.move hk rfl (fun _ _ => rfl) (fun _ _ _ m hm => by cases hm) fun hch => ?_
    rcases hch.2 with h | ⟨m, h⟩ <;> exact absurd (hst.symm.trans h) (by simp)
  · by_cases hi : h.index = i
    · -- a store in entry `i`: what is formatted for it says the same
      subst hi
      have hd' : (s.shared.devices.set h.index (Property.value.put v d))[h.index]? =
          some (Property.value.put v d) :=
        List.getElem?_set_self (List.getElem?_eq_some_iff.mp hd).1
      refine ⟨?_, fun e he => Or.inr ⟨_, mem_set_self hk _, rfl, Or.inl rfl⟩⟩
      intro e he t ht hti m hm
      cases hd'.symm.trans he
      rcases List.mem_or_eq_of_mem_set ht with ht | rfl
      · exact hp h hk rfl v (by rw [hst]; rfl) d hd t ht hti m hm
      · cases hm
    · refine hc.move hk (List.getElem?_set_ne hi) (fun _ _ => rfl) (fun _ _ _ m hm => by cases hm)
        fun hch => absurd hch.1 hi
  · refine hc.move hk rfl (fun _ _ => rfl) ?_ fun hch => ⟨hch.1, Or.inr ⟨_, rfl⟩⟩
    intro e he hi m hm
    cases hm
    subst hi
    cases hd.symm.trans he
    rfl
  · by_cases hi : h.index = i
    · -- published from what was formatted for entry `i`: its value
      subst hi
      have hm := hc.formatted d hd h hmem rfl message (by rw [hst]; rfl)
      refine ⟨fun e he t ht hti m hm' => ?_, fun e he => Or.inl fun v hv => ?_⟩
      · rcases List.mem_or_eq_of_mem_set ht with ht | rfl
        · exact hc.formatted e he t ht hti m hm'
        · cases hm'
      · cases hd.symm.trans he
        have hdot := hf.table.dotless (List.mem_of_getElem? hd)
        have hval : valueFor d.id ⟨Topic.controler, message⟩ = some d.value := by
          rw [hm]
          exact (valueFor_changed hdot hdot d.value).trans (if_pos rfl)
        rw [last_concat, hval] at hv
        cases hv
        rfl
    · refine hc.move hk rfl (fun e he => ?_) (fun _ _ _ m hm => by cases hm)
        fun hch => absurd hch.1 hi
      have hform : message ∈ h.stage.formatted := by rw [hst]; rfl
      rw [last_concat, hf.valueFor_other hmem hform hi he]
      rfl

/-- With all handlers finished, nobody is changing anything. -/
theorem Current.truthful {i : Nat} {s : State Shared Handler} (hc : Current i s)
    (hdone : Finished Handler.step s) : Truthful i s := by
  intro d hd v hv
  rcases hc.last d hd with hl | ⟨h, hh, hi, hch⟩
  · exact hl v hv
  · have hnone := hdone h hh
    obtain ⟨task, j, stage⟩ := h
    subst hi
    rcases hch with hst | ⟨m, hst⟩
    · cases hst
      rw [Handler.step_format hd] at hnone
      cases hnone
    · cases hst
      rw [Handler.step_publish m hd] at hnone
      cases hnone

/-! ## Where a harmful step leads -/

theorem Handler.step_eq_none {s : Shared} {h : Handler} :
    Handler.step s h = none ↔ s.devices.length ≤ h.index := by
  obtain ⟨task, i, stage⟩ := h
  constructor
  · intro hn
    by_contra hlt
    obtain ⟨d, hd⟩ : ∃ d, s.devices[i]? = some d :=
      ⟨_, List.getElem?_eq_getElem (Nat.lt_of_not_le hlt)⟩
    cases stage with
    | select => cases hsel : task.selects d <;> simp [Handler.step, hd, hsel] at hn
    | store v => simp [Handler.step, hd] at hn
    | format => simp [Handler.step, hd] at hn
    | publish m => simp [Handler.step, hd] at hn
  · intro hle
    have hd : s.devices[i]? = none := List.getElem?_eq_none hle
    simp [Handler.step, hd]

theorem Handler.length_step {s s' : Shared} {h h' : Handler}
    (hs : Handler.step s h = some (s', h')) :
    s'.devices.length = s.devices.length := by
  obtain ⟨d, -, hcase⟩ := Handler.step_cases hs
  rcases hcase with ⟨-, rfl, -⟩ | ⟨v, -, rfl, -⟩ | ⟨v, -, -, rfl⟩ | ⟨-, rfl, -⟩ | ⟨m, -, -, rfl⟩
  · rfl
  · rfl
  · exact List.length_set
  · rfl
  · rfl

def Stage.rank : Stage → Nat
  | .select => 3
  | .store _ => 2
  | .format => 1
  | .publish _ => 0

/-- The steps a handler may still have to take. -/
def Handler.remaining (s : Shared) (h : Handler) : Nat :=
  4 * (s.devices.length - h.index) + h.stage.rank

theorem Handler.remaining_step (s : Shared) (h : Handler) (s' : Shared) (h' : Handler)
    (hs : Handler.step s h = some (s', h')) : h'.remaining s' < h.remaining s := by
  obtain ⟨task, i, stage⟩ := h
  have hlen := Handler.length_step hs
  obtain ⟨d, hd, hcase⟩ := Handler.step_cases hs
  have hi : i < s.devices.length := (List.getElem?_eq_some_iff.mp hd).1
  rcases hcase with ⟨hst, -, rfl⟩ | ⟨v, hst, -, rfl⟩ | ⟨v, hst, rfl, -⟩ | ⟨hst, -, rfl⟩ |
    ⟨m, hst, rfl, -⟩
  all_goals
    cases hst
    simp only [Handler.remaining, Stage.rank, hlen]
    omega

theorem Handler.stays_done (s : Shared) (h h₁ : Handler) (s' : Shared) (h' : Handler)
    (hn : Handler.step s h = none) (hs : Handler.step s h₁ = some (s', h')) :
    Handler.step s' h = none := by
  rw [Handler.step_eq_none] at hn ⊢
  rw [Handler.length_step hs]
  exact hn

/-- Handler `k` has left entry `i` behind, whose device is `d` and last announced with `v`. -/
structure Past (i : Nat) (d : Device) (v : CStr) (k : Nat) (s : State Shared Handler) : Prop where
  formed : Formed s
  device : s.shared.devices[i]? = some d
  last : last (valueFor d.id) s.shared.published = some v
  beyond : ∀ h ∈ s.threads[k]?, i < h.index

theorem past_step {i : Nat} {d : Device} {v : CStr} {k : Nat} {s s' : State Shared Handler}
    (hp : Past i d v k s) (hs : Interleave.step Handler.step s k = some s') : Past i d v k s' := by
  have hformed := formed_step hp.formed hs
  obtain ⟨h, a, h', hk, hn, rfl⟩ := step_eq_some.mp hs
  have hlt := hp.beyond h hk
  have hself : (s.threads.set k h')[k]? = some h' :=
    List.getElem?_set_self (List.getElem?_eq_some_iff.mp hk).1
  obtain ⟨e, -, hcase⟩ := Handler.step_cases hn
  rcases hcase with ⟨-, rfl, rfl⟩ | ⟨w, -, rfl, rfl⟩ | ⟨w, -, rfl, rfl⟩ | ⟨-, rfl, rfl⟩ |
    ⟨m, hst, rfl, rfl⟩
  · refine ⟨hformed, hp.device, hp.last, fun t ht => ?_⟩
    cases hself.symm.trans ht
    exact Nat.lt_succ_of_lt hlt
  · refine ⟨hformed, hp.device, hp.last, fun t ht => ?_⟩
    cases hself.symm.trans ht
    exact hlt
  · refine ⟨hformed, ?_, hp.last, fun t ht => ?_⟩
    · exact (List.getElem?_set_ne (Nat.ne_of_gt hlt)).trans hp.device
    · cases hself.symm.trans ht
      exact hlt
  · refine ⟨hformed, hp.device, hp.last, fun t ht => ?_⟩
    cases hself.symm.trans ht
    exact hlt
  · refine ⟨hformed, hp.device, ?_, fun t ht => ?_⟩
    · have hform : m ∈ h.stage.formatted := by rw [hst]; rfl
      have hmem : h ∈ s.threads := List.mem_of_getElem? hk
      rw [last_concat, hp.formed.valueFor_other hmem hform (Nat.ne_of_gt hlt) hp.device]
      exact hp.last
    · cases hself.symm.trans ht
      exact Nat.lt_succ_of_lt hlt

/-- A handler that has formatted its message for entry `i` can run to its end, and the
message is then the last one about the device, whatever the device's value. -/
theorem has_the_last_word {i : Nat} {d : Device} {v : CStr} {k : Nat} {task : Task}
    {s : State Shared Handler} (hf : Formed s) (hd : s.shared.devices[i]? = some d)
    (hk : s.threads[k]? = some ⟨task, i, .publish (sprintfChanged d.id "Value".toList v)⟩) :
    ∃ n s', run Handler.step s (List.replicate n k) = some s' ∧ Past i d v k s' ∧
      ∃ h, s'.threads[k]? = some h ∧ Handler.step s'.shared h = none := by
  obtain ⟨s₁, hs₁⟩ : ∃ s₁, Interleave.step Handler.step s k = some s₁ :=
    ⟨_, step_eq_some.mpr ⟨_, _, _, hk, Handler.step_publish _ hd, rfl⟩⟩
  have hp₁ : Past i d v k s₁ := by
    have hf₁ := formed_step hf hs₁
    obtain ⟨h, a, h', hk', hn, rfl⟩ := step_eq_some.mp hs₁
    cases hk.symm.trans hk'
    have hpub : Handler.step s.shared
        ⟨task, i, .publish (sprintfChanged d.id "Value".toList v)⟩ = _ :=
      Handler.step_publish _ hd
    cases hpub.symm.trans hn
    have hdot := hf.table.dotless (List.mem_of_getElem? hd)
    refine ⟨hf₁, hd, ?_, fun t ht => ?_⟩
    · rw [last_concat, valueFor_changed hdot hdot, if_pos rfl]
      rfl
    · have hself : (s.threads.set k ⟨task, i + 1, .select⟩)[k]? = some ⟨task, i + 1, .select⟩ :=
        List.getElem?_set_self (List.getElem?_eq_some_iff.mp hk).1
      cases hself.symm.trans ht
      exact Nat.lt_succ_self i
  obtain ⟨h₁, hk₁⟩ : ∃ h₁, s₁.threads[k]? = some h₁ := by
    have hlt : k < s₁.threads.length := by
      rw [length_step hs₁]
      exact (List.getElem?_eq_some_iff.mp hk).1
    exact ⟨_, List.getElem?_eq_getElem hlt⟩
  obtain ⟨n, s', h', hrun, hk', hdone⟩ :=
    runs_out Handler.remaining Handler.remaining_step _ s₁ h₁ hk₁ (Nat.le_refl _)
  refine ⟨n + 1, s', ?_, ?_, h', hk', hdone⟩
  · rw [List.replicate_succ, run, hs₁]
    exact hrun
  · refine run_invariant (fun s₂ l hl s₃ hp hs => ?_) hp₁ hrun
    cases List.eq_of_mem_replicate hl
    exact past_step hp hs

/-- Two handlers have formatted for entry `i` and the rest have finished: the one whose message
is not the device's value publishes last. -/
theorem ends_wrong {i a b : Nat} {d : Device} {v w : CStr} {ta tb : Task}
    {s : State Shared Handler} (hf : Formed s) (hd : s.shared.devices[i]? = some d) (hab : a ≠ b)
    (ha : s.threads[a]? = some ⟨ta, i, .publish (sprintfChanged d.id "Value".toList v)⟩)
    (hb : s.threads[b]? = some ⟨tb, i, .publish (sprintfChanged d.id "Value".toList w)⟩)
    (hothers : ∀ e h, e ≠ a → e ≠ b → s.threads[e]? = some h → Handler.step s.shared h = none)
    (hw : w ≠ d.value) : ∃ es s', run Handler.step s es = some s' ∧
      Finished Handler.step s' ∧ ¬ Truthful i s' := by
  obtain ⟨n, s₁, hrun₁, hp₁, h₁, hk₁, hdone₁⟩ := has_the_last_word hf hd ha
  have hb₁ : s₁.threads[b]? = some ⟨tb, i, .publish (sprintfChanged d.id "Value".toList w)⟩ := by
    rw [run_frame hrun₁ fun hb => hab (List.eq_of_mem_replicate hb).symm]
    exact hb
  obtain ⟨m, s₂, hrun₂, hp₂, h₂, hk₂, hdone₂⟩ := has_the_last_word hp₁.formed hp₁.device hb₁
  refine ⟨_, s₂, run_trans hrun₁ hrun₂, ?_, ?_⟩
  · intro t ht
    obtain ⟨e, he⟩ := List.getElem?_of_mem ht
    rw [Option.isNone_iff_eq_none]
    by_cases hea : e = a
    · subst hea
      obtain ⟨he₂, hdone⟩ := done_run Handler.stays_done hrun₂ hk₁ hdone₁
      cases he₂.symm.trans he
      exact hdone
    · by_cases heb : e = b
      · subst heb
        cases hk₂.symm.trans he
        exact hdone₂
      · have he₁ := run_frame hrun₁ fun hea' => hea (List.eq_of_mem_replicate hea')
        have he₂ := run_frame hrun₂ fun heb' => heb (List.eq_of_mem_replicate heb')
        have het : s.threads[e]? = some t := by rw [← he₁, ← he₂]; exact he
        obtain ⟨-, hdone⟩ := done_run Handler.stays_done (run_trans hrun₁ hrun₂) het
          (hothers e t hea heb het)
        exact hdone
  · intro htrue
    exact hw (htrue d hp₂.device w hp₂.last)

/-- A handler stores, and formats at once: its message announces what it has stored. -/
theorem store_then_format {i k : Nat} {d : Device} {v : CStr} {task : Task}
    {s : State Shared Handler} (hd : s.shared.devices[i]? = some d)
    (hk : s.threads[k]? = some ⟨task, i, .store v⟩) :
    ∃ s', run Handler.step s [k, k] = some s' ∧
      s'.threads[k]? = some ⟨task, i, .publish (sprintfChanged d.id "Value".toList v)⟩ ∧
      ∀ j, j ≠ k → s'.threads[j]? = s.threads[j]? := by
  have hi : i < s.shared.devices.length := (List.getElem?_eq_some_iff.mp hd).1
  have hlt : k < s.threads.length := (List.getElem?_eq_some_iff.mp hk).1
  obtain ⟨s₁, hs₁⟩ : ∃ s₁ : State Shared Handler, s₁ =
      ⟨⟨s.shared.devices.set i (Property.value.put v d), s.shared.published⟩,
        s.threads.set k ⟨task, i, .format⟩⟩ := ⟨_, rfl⟩
  have hstore : Interleave.step Handler.step s k = some s₁ :=
    step_eq_some.mpr ⟨_, _, _, hk, Handler.step_store v hd, hs₁⟩
  have hd₁ : s₁.shared.devices[i]? = some (Property.value.put v d) := by
    rw [hs₁]
    exact List.getElem?_set_self hi
  have hk₁ : s₁.threads[k]? = some ⟨task, i, .format⟩ := by
    rw [hs₁]
    exact List.getElem?_set_self hlt
  refine ⟨_, run_trans (run_one hstore)
    (run_one (step_eq_some.mpr ⟨_, _, _, hk₁, Handler.step_format hd₁, rfl⟩)), ?_, ?_⟩
  · exact List.getElem?_set_self (List.getElem?_eq_some_iff.mp hk₁).1
  · intro j hj
    rw [List.getElem?_set_ne (Ne.symm hj), hs₁]
    exact List.getElem?_set_ne (Ne.symm hj)

/-- One handler has formatted for entry `i`, another is about to store another value there:
once that has formatted too, the rest can finish, and then one of the two is wrong. -/
theorem store_ends_wrong {i j k : Nat} {d : Device} {v w : CStr} {task task' : Task}
    {s : State Shared Handler} (hf : Formed s) (hd : s.shared.devices[i]? = some d)
    (hk : s.threads[k]? = some ⟨task, i, .store v⟩)
    (hj : s.threads[j]? = some ⟨task', i, .publish (sprintfChanged d.id "Value".toList w)⟩)
    (hne : w ≠ v) : ∃ es s', run Handler.step s (k :: es) = some s' ∧
      Finished Handler.step s' ∧ ¬ Truthful i s' := by
  have hkj : k ≠ j := by
    rintro rfl
    cases hk.symm.trans hj
  obtain ⟨s₁, hrun₁, hk₁, hsame⟩ := store_then_format hd hk
  obtain ⟨es, s₂, hrun₂, hstay, hdone⟩ := all_but_finish Handler.remaining
    Handler.remaining_step Handler.stays_done [k, j] s₁
  have hf₂ : Formed s₂ :=
    run_invariant (fun _ _ _ _ hf hs => formed_step hf hs) hf (run_trans hrun₁ hrun₂)
  have hk₂ := (hstay k List.mem_cons_self).trans hk₁
  have hj₂ := (hstay j (List.mem_cons_of_mem _ (List.mem_singleton_self _))).trans
    ((hsame j hkj.symm).trans hj)
  have hothers : ∀ e h, e ≠ k → e ≠ j → s₂.threads[e]? = some h →
      Handler.step s₂.shared h = none := by
    intro e h hek hej he
    exact hdone e h (by simp [hek, hej]) he
  obtain ⟨f, hf', hid⟩ := hf.table.entry hf₂.table hd
  rw [← hid] at hk₂ hj₂
  -- the device ends with some value; not both messages announce it
  have hend : ∃ es' s', run Handler.step s₂ es' = some s' ∧ Finished Handler.step s' ∧
      ¬ Truthful i s' := by
    by_cases hw : w = f.value
    · have hv : v ≠ f.value := fun hv => hne (hw.trans hv.symm)
      exact ends_wrong hf₂ hf' hkj.symm hj₂ hk₂ (fun e h hej hek => hothers e h hek hej) hv
    · exact ends_wrong hf₂ hf' hkj hk₂ hj₂ hothers hw
  obtain ⟨es', s', hrun', hfin, hfalse⟩ := hend
  exact ⟨k :: (es ++ es'), s', run_trans hrun₁ (run_trans hrun₂ hrun'), hfin, hfalse⟩

/-- A step that is not harmless, and the run can be finished with the last announcement wrong. -/
theorem harmful_ends_wrong {i k : Nat} {s : State Shared Handler} (hf : Formed s)
    (hk : ¬ Harmless i s k) : ∃ es s', run Handler.step s (k :: es) = some s' ∧
      Finished Handler.step s' ∧ ¬ Truthful i s' := by
  simp only [Harmless, not_forall] at hk
  obtain ⟨⟨task, x, stage⟩, hk, hi, v, hv, d, hd, hk'⟩ := hk
  obtain ⟨⟨task', y, stage'⟩, hj, hi', message, hm, hne⟩ := hk'
  subst hi
  cases hi'
  cases stage with
  | select | format | publish _ => cases hv
  | store v' =>
  cases stage' with
  | select | store _ | format => cases hm
  | publish message' =>
  cases hv
  cases hm
  obtain ⟨j, hj⟩ := List.getElem?_of_mem hj
  obtain ⟨e, he, w, rfl⟩ := hf.formatted _ (List.mem_of_getElem? hj) _ rfl
  cases hd.symm.trans he
  exact store_ends_wrong hf hd hk hj fun hw => hne (by rw [hw])

/-- From any state of the actuator Pi's table, with any messages: a run whose steps are all
harmless to an entry ends with the last announcement for it true; and after any run, a step
that is not harmless can be followed by others that end with it false. -/
theorem last_announced_true {devices : List Device} (htable : IsTable devices) {ms : List Msg}
    {es : List Nat} {s : State Shared Handler}
    (hrun : run Handler.step (overlapping devices ms) es = some s) (i : Nat) :
    (Throughout Handler.step (Harmless i) (overlapping devices ms) es → Finished Handler.step s →
      Truthful i s) ∧
    ∀ k, ¬ Harmless i s k → ∃ es' s', run Handler.step s (k :: es') = some s' ∧
      Finished Handler.step s' ∧ ¬ Truthful i s' := by
  refine ⟨fun ht hdone => ?_, fun k hk => harmful_ends_wrong (formed_run htable hrun) hk⟩
  have hstart : Formed (overlapping devices ms) ∧ Current i (overlapping devices ms) :=
    ⟨formed_overlapping htable ms, current_overlapping i devices ms⟩
  have hend : Formed s ∧ Current i s := by
    refine ht.invariant (I := fun s => Formed s ∧ Current i s) ?_ hstart hrun
    rintro s k s' ⟨hf, hc⟩ hp hs
    exact ⟨formed_step hf hs, current_step hf hc hp hs⟩
  exact hend.2.truthful hdone

/-! ## Two requests for the door -/

def openDoor : Msg := ⟨Topic.devicesFunc, "Set_Dev_Value.door_opener.ON".toList⟩
def closeDoor : Msg := ⟨Topic.devicesFunc, "Set_Dev_Value.door_opener.OFF".toList⟩

def oneByOne : List Nat := List.replicate 9 0 ++ List.replicate 9 1

/-- The second handler runs between the first one's `sprintf` and its `mqtt_publish`. -/
def inBetween : List Nat := List.replicate 7 0 ++ List.replicate 9 1 ++ List.replicate 2 0

def afterSchedule (es : List Nat) : State Shared Handler :=
  (run Handler.step (overlapping Aktuatorski.main [openDoor, closeDoor]) es).getD
    (overlapping Aktuatorski.main [openDoor, closeDoor])

theorem run_afterSchedule {es : List Nat}
    (h : (run Handler.step (overlapping Aktuatorski.main [openDoor, closeDoor]) es).isSome = true) :
    run Handler.step (overlapping Aktuatorski.main [openDoor, closeDoor]) es =
      some (afterSchedule es) := by
  obtain ⟨s, hs⟩ := Option.isSome_iff_exists.mp h
  rw [afterSchedule, hs]
  rfl

theorem last_announced_oneByOne : Truthful 4 (afterSchedule oneByOne) :=
  (last_announced_true rfl (run_afterSchedule (by decide +kernel)) 4).1
    (by decide +kernel) (by decide +kernel)

/-- The door is shut, and the last message says it is open. -/
theorem last_announced_false : ¬ ∀ (devices : List Device), IsTable devices →
    ∀ (ms : List Msg) (es : List Nat) (s : State Shared Handler),
      run Handler.step (overlapping devices ms) es = some s → Finished Handler.step s →
        ∀ i, Truthful i s := by
  intro h
  have htrue := h Aktuatorski.main rfl [openDoor, closeDoor] inBetween (afterSchedule inBetween)
    (run_afterSchedule (by decide +kernel)) (by decide +kernel) 4
  have hshut : (afterSchedule inBetween).shared.devices[4]? =
      some { actuator "door_opener" "home/hallway/fingerprint" with value := off } := by
    decide +kernel
  have hopen : last (valueFor "door_opener".toList) (afterSchedule inBetween).shared.published =
      some on := by
    decide +kernel
  exact absurd (htrue _ hshut on hopen) (by decide)

end SmartHome
