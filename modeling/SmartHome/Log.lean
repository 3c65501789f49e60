/-
# `Log` — an owner's table is its main's table and what it has handled since

Per device and property the owner is a last-writer-wins register: a `Set` with
the device's id writes both properties, a reading on its topic writes an
actuator's value.  In the closed system the register's log is the list of
messages the node has handled; a sensor's value, which no message writes, is
read off the readings its node has published.
-/
import SmartHome.Commands
import SmartHome.Lib.Register

namespace SmartHome

open Traced PubSub Fields Register

/-! ## What a message writes -/

/-- The text a message demands for a property of a device. -/
def demanded (p : Property) (d : Device) (m : Msg) : Option CStr :=
  match fields delimiter (stringCpy m.payload) with
  | [t, arg] =>
      if p = .value ∧ t = MesType.sensorMes ∧ d.topic = stringCpy m.topic ∧ d.group = actuators then
        (strtok 'l' arg).map fun token => checkDeviceCondition d.condition (atoi token.1)
      else none
  | [t, id, v] => if t = p.setType.text ∧ d.id = id then some v else none
  | _ => none

theorem demanded_congr {p : Property} {d e : Device} (h : d.frame = e.frame) (m : Msg) :
    demanded p d m = demanded p e m := by
  simp only [Device.frame, Frame.mk.injEq] at h
  obtain ⟨hid, hgroup, -, htopic, hcond⟩ := h
  simp only [demanded, hid, hgroup, htopic, hcond]

/-- The demand of a message on one property. -/
def Demand.on (p : Property) (r : Demand) : Option CStr :=
  if r.property = p then some r.text.text else none

theorem get_meet (p : Property) (d : Device) (r : Option Demand) :
    p.get (d.meet r) = (r.bind (Demand.on p)).getD (p.get d) := by
  cases r with
  | none => rfl
  | some r =>
      rw [Device.meet, Option.bind_some, Demand.on]
      by_cases hp : r.property = p
      · rw [if_pos hp, hp, Property.get_put]
        rfl
      · rw [if_neg hp, Property.get_put_of_ne (Ne.symm hp)]
        rfl

theorem fields_stringCpy {mes : Mes} {payload : CStr} (h : mes.Carried payload) :
    fields delimiter (stringCpy payload) = mes.tokens := by
  rw [h.stringCpy, h.fields_eq]

theorem demanded_carried {mes : Mes} {m : Msg} (h : mes.Carried m.payload) (p : Property)
    (d : Device) : demanded p d m = (mes.demand (stringCpy m.topic) d).bind (Demand.on p) := by
  unfold demanded
  rw [fields_stringCpy h]
  cases mes with
  | get q id =>
      have hne : ¬ (p = .value ∧ q.getType.text = MesType.sensorMes ∧
          d.topic = stringCpy m.topic ∧ d.group = actuators) := fun h => by
        cases q <;> exact absurd h.2.1 (by decide)
      exact if_neg hne
  | changed q id v => rfl
  | set q id v =>
      simp only [Mes.tokens, Mes.words, List.map_cons, List.map_nil, Mes.demand]
      by_cases hid : d.id = id.text
      · simp [Property.setType_eq_iff, hid, Demand.on]
      · simp [hid]
  | reading n =>
      simp only [Mes.tokens, Mes.words, List.map_cons, List.map_nil, Mes.demand, readingType,
        readingWord, true_and, strtok_readingText, Option.map_some, atoi_sprintfD]
      by_cases hsel : d.topic = stringCpy m.topic ∧ d.group = actuators
      · cases p
        · simp [hsel, Demand.on]
        · simp [hsel, Demand.on]
      · simp [hsel]

theorem get_meet_carried {mes : Mes} {m : Msg} (h : mes.Carried m.payload) (p : Property)
    (d : Device) :
    p.get (d.meet (mes.demand (stringCpy m.topic) d)) = (demanded p d m).getD (p.get d) := by
  rw [get_meet, demanded_carried h]

/-! ## The log of an owner -/

theorem Sound.frame_eq {b : Boot} {n : Node} {devices : List Device} (h : Sound b n devices)
    {i : Nat} {d d₀ : Device} (hd : devices[i]? = some d) (hd₀ : (b.table n)[i]? = some d₀) :
    d.frame = d₀.frame := by
  have hi := congrArg (fun fs => fs[i]?) h.frames
  simp only [List.getElem?_map, hd, hd₀, Option.map_some] at hi
  exact Option.some.inj hi

theorem Sound.entry {b : Boot} {n : Node} {devices : List Device} (h : Sound b n devices)
    {i : Nat} {d : Device} (hd : devices[i]? = some d) : ∃ d₀, (b.table n)[i]? = some d₀ := by
  have hi := (List.getElem?_eq_some_iff.mp hd).1
  rw [h.length] at hi
  exact ⟨_, List.getElem?_eq_getElem hi⟩

/-- Every entry of an owner's table is `register` of the entry its main built. -/
def Logged (b : Boot) (o : Node) (register : Device → CStr) (get : Device → CStr)
    (devices : List Device) : Prop :=
  ∀ (i : Nat) (d₀ d : Device), (b.table o)[i]? = some d₀ → devices[i]? = some d →
    get d = register d₀

theorem logged_handle {b : Boot} {o p : Node} (ho : Owns o) {q : Property} {stale : CStr}
    {s s' : List Device} {m : Msg} {ms : List Msg} {log : List Msg} (hs : Sound b o s)
    (hm : Shape b p o m) (hh : completed (o.handle stale s m) = some (s', ms))
    (hlog : Logged b o (fun d₀ => read (q.get d₀) (demanded q d₀) log) q.get s) :
    Logged b o (fun d₀ => read (q.get d₀) (demanded q d₀) (log ++ [m])) q.get s' := by
  obtain ⟨mes, hcar, -, -⟩ := Shape.owner ho hm
  rw [ho.handle, Pi.handle_carried hcar] at hh
  cases hh
  intro i d₀ d hd₀ hd
  rw [List.getElem?_map] at hd
  obtain ⟨e, he, rfl⟩ := Option.map_eq_some_iff.mp hd
  change q.get (e.meet _) = read (q.get d₀) (demanded q d₀) (log ++ [m])
  rw [get_meet_carried hcar, read_concat, demanded_congr (hs.frame_eq he hd₀), hlog i d₀ e hd₀ he]

theorem logged_sense {b : Boot} {o : Node} {q : Property} (hq : o = .senzorski → q = .info)
    (ho : Owns o) {r : Int32} {k : Nat} {s s' : List Device} {ms : List Msg} (hs : Sound b o s)
    (hh : completed (Pi.sensorsValuePublish r k s) = some (s', ms)) {register : Device → CStr}
    (hlog : Logged b o register q.get s) : Logged b o register q.get s' := by
  cases hd : s[k]? with
  | none => rw [Pi.completed_sensorsValuePublish_none hd] at hh; cases hh
  | some e =>
      by_cases hg : e.group = sensors
      · rw [Pi.completed_sensorsValuePublish hd hg] at hh
        cases hh
        have hinfo : q = .info := by
          rcases ho with rfl | rfl
          · exact hq rfl
          · obtain ⟨e₀, he₀, hf⟩ := hs.mem_frame (List.mem_of_getElem? hd)
            exact absurd ((congrArg Frame.group hf).trans hg) (group_aktuatorski e₀ he₀)
        subst hinfo
        intro i d₀ d hd₀ hdi
        by_cases hik : k = i
        · subst hik
          rw [List.getElem?_set_self (List.getElem?_eq_some_iff.mp hd).1] at hdi
          cases hdi
          exact hlog k d₀ e hd₀ hd
        · rw [List.getElem?_set_ne hik] at hdi
          exact hlog i d₀ d hd₀ hdi
      · rw [Pi.completed_sensorsValuePublish_of_ne hd hg] at hh
        cases hh
        exact hlog

/-- In every reachable configuration: what an owner has handled decides the descriptions of
its devices, and on the actuator Pi their values. -/
theorem owner_logged {b : Boot} {c : Sys}
    (h : Reachable (protocol b) (CommandsIn UserCommand) b.start c) {o : Node} (ho : Owns o)
    {q : Property} (hq : o = .senzorski → q = .info) :
    Logged b o (fun d₀ => read (q.get d₀) (demanded q d₀) ((c.handled o).map Prod.snd)) q.get
      (c.node o) := by
  refine (contract b).node_induct (fun s done _ => Logged b o
    (fun d₀ => read (q.get d₀) (demanded q d₀) (done.map Prod.snd)) q.get s) (sound_table b)
    ?_ ?_ ?_ h
  · intro i d₀ d hd₀ hd
    cases Option.some.inj (hd₀.symm.trans hd)
    rfl
  · intro p stale s m s' ms done _ _ hs hm hh hlog
    rw [List.map_append]
    exact logged_handle ho hs hm hh hlog
  · intro a s s' ms done _ _ hs ha hlog
    obtain ⟨r, k, hh⟩ : ∃ r k, completed (Pi.sensorsValuePublish r k s) = some (s', ms) := by
      rcases ho with rfl | rfl <;> cases a with
      | command payload => cases ha
      | sense r k => exact ⟨r, k, ha⟩
    exact logged_sense hq ho hs hh hlog

end SmartHome
