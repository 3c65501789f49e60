/-
# `Invariant` — what holds of every table and every message of the closed system

Every node relies on the shape of what arrives on its links and guarantees the
shape of what it publishes (`contract`).  A table keeps the frames its main gave
it, every text in it is a short word, and the sensor Pi's values are readings;
a user's command is short and is passed on as it came, a Pi announces only
devices of its own table, and only the sensor Pi publishes readings.
-/
import SmartHome.Owner
import SmartHome.Controller

namespace SmartHome

open Traced PubSub

/-! ## Tables -/

/-- The texts of a device are words, short enough for every buffer they are copied to. -/
structure Device.Stored (d : Device) : Prop where
  id : IsWord d.id
  id_length : d.id.length ≤ 24
  text : ∀ p : Property, IsWord (p.get d)
  length : ∀ p : Property, (p.get d).length ≤ 80

def Device.Stored.name {d : Device} (h : d.Stored) : Word := ⟨d.id, h.id⟩

/-- A demand whose text fits the table. -/
def Short (r : Option Demand) : Prop := ∀ x ∈ r, x.text.text.length ≤ 80

theorem Device.meet_id (d : Device) (r : Option Demand) : (d.meet r).id = d.id :=
  congrArg Frame.id (d.meet_frame r)

theorem Device.Stored.put {d : Device} (h : d.Stored) (p : Property) {v : Word}
    (hv : v.text.length ≤ 80) : (p.put v.text d).Stored where
  id := by rw [Property.id_put]; exact h.id
  id_length := by rw [Property.id_put]; exact h.id_length
  text q := by
    by_cases hq : q = p
    · subst hq; rw [Property.get_put]; exact v.isWord
    · rw [Property.get_put_of_ne hq]; exact h.text q
  length q := by
    by_cases hq : q = p
    · subst hq; rw [Property.get_put]; exact hv
    · rw [Property.get_put_of_ne hq]; exact h.length q

theorem Device.Stored.meet {d : Device} (h : d.Stored) {r : Option Demand} (hr : Short r) :
    (d.meet r).Stored := by
  cases r with
  | none => exact h
  | some x => exact h.put x.property (hr x rfl)

/-- What a node's table keeps. -/
structure Sound (b : Boot) (n : Node) (devices : List Device) : Prop where
  frames : devices.map Device.frame = (b.table n).map Device.frame
  stored : ∀ d ∈ devices, d.Stored
  readings : n = .senzorski → ∀ d ∈ devices, ∃ r, d.value = readingText r

theorem stored_of_dec {d : Device}
    (h : IsWord d.id ∧ d.id.length ≤ 24 ∧ (IsWord d.value ∧ IsWord d.info) ∧
      d.value.length ≤ 80 ∧ d.info.length ≤ 80) : d.Stored where
  id := h.1
  id_length := h.2.1
  text p := by cases p; exacts [h.2.2.1.1, h.2.2.1.2]
  length p := by cases p; exacts [h.2.2.2.1, h.2.2.2.2]

theorem readings_main (u : Uninit) : ∀ d ∈ Senzorski.main u, ∃ r, d.value = readingText r := by
  have h : ∀ d ∈ Senzorski.main u, d.value ∈ [23, 22, 24, 11].map readingText :=
    of_decide_eq_true rfl
  intro d hd
  obtain ⟨r, -, hr⟩ := List.mem_map.mp (h d hd)
  exact ⟨r, hr.symm⟩

theorem sound_table (b : Boot) (n : Node) : Sound b n (b.table n) where
  frames := rfl
  stored d hd := by
    cases n with
    | commandLine => exact absurd hd List.not_mem_nil
    | kontroler =>
        have h : ∀ d ∈ Kontroler.main b.kontroler, IsWord d.id ∧ d.id.length ≤ 24 ∧
            (IsWord d.value ∧ IsWord d.info) ∧ d.value.length ≤ 80 ∧ d.info.length ≤ 80 :=
          of_decide_eq_true rfl
        exact stored_of_dec (h d hd)
    | senzorski =>
        have h : ∀ d ∈ Senzorski.main b.senzorski, IsWord d.id ∧ d.id.length ≤ 24 ∧
            (IsWord d.value ∧ IsWord d.info) ∧ d.value.length ≤ 80 ∧ d.info.length ≤ 80 :=
          of_decide_eq_true rfl
        exact stored_of_dec (h d hd)
    | aktuatorski =>
        have h : ∀ d ∈ Aktuatorski.main, IsWord d.id ∧ d.id.length ≤ 24 ∧
            (IsWord d.value ∧ IsWord d.info) ∧ d.value.length ≤ 80 ∧ d.info.length ≤ 80 :=
          of_decide_eq_true rfl
        exact stored_of_dec (h d hd)
  readings hn d hd := by subst hn; exact readings_main b.senzorski d hd

theorem Sound.mem_frame {b : Boot} {n : Node} {devices : List Device} (h : Sound b n devices)
    {d : Device} (hd : d ∈ devices) : ∃ e ∈ b.table n, e.frame = d.frame := by
  have hf : d.frame ∈ (b.table n).map Device.frame := h.frames ▸ List.mem_map_of_mem hd
  obtain ⟨e, he, hef⟩ := List.mem_map.mp hf
  exact ⟨e, he, hef⟩

theorem Sound.mem_frame' {b : Boot} {n : Node} {devices : List Device} (h : Sound b n devices)
    {e : Device} (he : e ∈ b.table n) : ∃ d ∈ devices, d.frame = e.frame := by
  have hf : e.frame ∈ devices.map Device.frame := h.frames ▸ List.mem_map_of_mem he
  obtain ⟨d, hd, hde⟩ := List.mem_map.mp hf
  exact ⟨d, hd, hde⟩

theorem Sound.ids {b : Boot} {n : Node} {devices : List Device} (h : Sound b n devices) :
    devices.map Device.id = (b.table n).map Device.id := by
  have := congrArg (List.map Frame.id) h.frames
  simpa only [List.map_map, Function.comp_def, Device.frame] using this

theorem Sound.length {b : Boot} {n : Node} {devices : List Device} (hs : Sound b n devices) :
    devices.length = (b.table n).length := by
  simpa using congrArg List.length hs.ids

/-! ## Messages -/

/-- A command as a user may publish it. -/
def UserCommand (payload : CStr) : Prop :=
  payload.length ≤ 39 ∧ ∃ m : Mes, m.IsCommand ∧ m.Carried payload

/-- What the owner of a table tells the controller. -/
def Announced (owned : List Device) (m : Msg) : Prop :=
  m.topic = Topic.controler ∧ ∃ (p : Property) (id v : Word),
    m.payload = (Mes.changed p id v).text ∧ (∃ d ∈ owned, d.id = id.text) ∧ v.text.length ≤ 80

def Forwarded (p : Property) (m : Msg) : Prop :=
  m.topic = Kontroler.forwardTopic p ∧ m.payload.length ≤ 39 ∧
    ∃ id v : Word, (Mes.set p id v).Carried m.payload

/-- A reading of one of the sensors, on that sensor's topic. -/
def Sensed (owned : List Device) (m : Msg) : Prop :=
  ∃ d ∈ owned, ∃ r, m = ⟨d.topic, (Mes.reading r).text⟩

/-- What the first node may have published for the second. -/
def Shape (b : Boot) : Node → Node → Msg → Prop
  | .commandLine, .kontroler, m => m.topic = Topic.controler ∧ UserCommand m.payload
  | .senzorski, .kontroler, m => Announced (b.table .senzorski) m
  | .aktuatorski, .kontroler, m => Announced (b.table .aktuatorski) m
  | .kontroler, .senzorski, m => Forwarded .info m
  | .kontroler, .aktuatorski, m => ∃ p, Forwarded p m
  | .senzorski, .aktuatorski, m => Sensed (b.table .senzorski) m
  | .kontroler, .commandLine, m => m.topic = Topic.ui
  | _, _, _ => False

theorem length_text_reading_le (r : Int32) : (Mes.reading r).text.length ≤ 80 := by
  have h := length_readingText_le r
  have htype : MesType.sensorMes.length = 10 := rfl
  rw [Mes.text_reading, List.length_append, List.length_cons]
  omega

def Owns (n : Node) : Prop := n = .senzorski ∨ n = .aktuatorski

theorem Owns.handle {n : Node} (hn : Owns n) (stale : CStr) (devices : List Device) (m : Msg) :
    n.handle stale devices m = Pi.handle devices m.topic m.payload := by
  rcases hn with rfl | rfl <;> rfl

/-- What reaches an owner is a short message of the protocol; the sensor Pi is only ever told
to change a description. -/
theorem Shape.owner {b : Boot} {p n : Node} (hn : Owns n) {m : Msg} (hm : Shape b p n m) :
    ∃ mes : Mes, mes.Carried m.payload ∧ m.payload.length ≤ 80 ∧
      (n = .senzorski → ∃ id v, mes = .set .info id v) := by
  have hlong : ∀ {k : Nat}, k ≤ 39 → k ≤ 80 := fun h => h.trans (by decide)
  rcases hn with rfl | rfl
  · cases p with
    | commandLine | senzorski | aktuatorski => exact absurd hm not_false
    | kontroler =>
        obtain ⟨-, hlen, id, v, hcar⟩ := hm
        exact ⟨_, hcar, hlong hlen, fun _ => ⟨id, v, rfl⟩⟩
  · cases p with
    | commandLine | aktuatorski => exact absurd hm not_false
    | kontroler =>
        obtain ⟨p, -, hlen, id, v, hcar⟩ := hm
        exact ⟨_, hcar, hlong hlen, fun h => by cases h⟩
    | senzorski =>
        obtain ⟨d, -, r, rfl⟩ := hm
        exact ⟨_, Mes.carried_text _, length_text_reading_le r, fun h => by cases h⟩

/-! ## What the handlers guarantee -/

theorem length_on_le : on.length ≤ 80 := by decide

theorem length_off_le : off.length ≤ 80 := by decide

theorem Mes.Carried.short_demand {m : Mes} {payload : CStr} (h : m.Carried payload)
    (hlen : payload.length ≤ 80) (topic : CStr) (d : Device) : Short (m.demand topic d) := by
  intro x hx
  cases m with
  | get _ _ | changed _ _ _ => cases hx
  | set p id v =>
      rw [Mes.demand] at hx
      split at hx
      · cases hx
        exact (h.length_word_le (w := v) (by simp [words])).trans hlen
      · cases hx
  | reading n =>
      rw [Mes.demand] at hx
      split at hx
      · cases hx
        rw [checkWord_text, checkDeviceCondition]
        split
        exacts [length_on_le, length_off_le]
      · cases hx

theorem short_senseDemand (r : Int32) : Short (senseDemand r) := by
  intro x hx
  cases hx
  exact (length_readingText_le r).trans (by decide)

theorem Device.Stored.mem_announce {d : Device} (h : d.Stored) {r : Option Demand} {m : Msg}
    (hm : m ∈ d.announce r) :
    ∃ x ∈ r, m = ⟨Topic.controler, (Mes.changed x.property h.name x.text).text⟩ := by
  cases r with
  | none => exact absurd hm List.not_mem_nil
  | some x =>
      refine ⟨x, rfl, ?_⟩
      rw [announce] at hm
      split at hm
      · rw [Mes.text_changed]
        exact List.mem_singleton.mp hm
      · exact absurd hm List.not_mem_nil

theorem Sound.announced {b : Boot} {n : Node} {devices : List Device} (h : Sound b n devices)
    {d : Device} (hd : d ∈ devices) {r : Option Demand} (hr : Short r) {m : Msg}
    (hm : m ∈ d.announce r) : Announced (b.table n) m := by
  obtain ⟨x, hx, rfl⟩ := (h.stored d hd).mem_announce hm
  obtain ⟨e, he, hed⟩ := h.mem_frame hd
  exact ⟨rfl, x.property, (h.stored d hd).name, x.text, rfl,
    ⟨e, he, congrArg Frame.id hed⟩, hr x hx⟩

/-- Where the demands are short, and a sensor's value is asked to be a reading, every device
can meet them. -/
theorem Sound.meet {b : Boot} {n : Node} {devices : List Device} (h : Sound b n devices)
    {f : Device → Option Demand} (hshort : ∀ d, Short (f d))
    (hsense : n = .senzorski → ∀ d, ∀ x ∈ f d, x.property = .value →
      ∃ r, x.text.text = readingText r) :
    Sound b n (devices.map fun d => d.meet (f d)) where
  frames := by
    rw [List.map_map, ← h.frames]
    exact List.map_congr_left fun d _ => d.meet_frame (f d)
  stored := by
    intro e he
    obtain ⟨d, hd, rfl⟩ := List.mem_map.mp he
    exact (h.stored d hd).meet (hshort d)
  readings := by
    intro hn e he
    obtain ⟨d, hd, rfl⟩ := List.mem_map.mp he
    cases hf : f d with
    | none => exact h.readings hn d hd
    | some x =>
        cases hp : x.property with
        | info =>
            have hval : (d.meet (some x)).value = d.value := by
              rw [Device.meet, hp]; rfl
            rw [hval]
            exact h.readings hn d hd
        | value =>
            have hval : (d.meet (some x)).value = x.text.text := by
              rw [Device.meet, hp]; rfl
            rw [hval]
            exact hsense hn d x hf hp

theorem Sound.set {b : Boot} {n : Node} {devices : List Device} (h : Sound b n devices)
    {i : Nat} {d : Device} (hd : devices[i]? = some d) (r : Int32) :
    Sound b n (devices.set i (d.meet (senseDemand r))) where
  frames := by
    rw [List.map_set, Device.meet_frame, ← h.frames]
    exact set_eq_self (by rw [List.getElem?_map, hd]; rfl)
  stored := by
    intro e he
    rcases List.mem_or_eq_of_mem_set he with he | rfl
    · exact h.stored e he
    · exact (h.stored d (List.mem_of_getElem? hd)).meet (short_senseDemand r)
  readings := by
    intro hn e he
    rcases List.mem_or_eq_of_mem_set he with he | rfl
    · exact h.readings hn e he
    · exact ⟨r, rfl⟩

/-! ## What each handler relies on and guarantees -/

/-- An owner announces on `controler`, whatever it handles. -/
theorem Sound.owner_handle {b : Boot} {p n : Node} (hn : Owns n) {devices devices' : List Device}
    {stale : CStr} {m : Msg} {ms : List Msg} (h : Sound b n devices) (hm : Shape b p n m)
    (hh : completed (n.handle stale devices m) = some (devices', ms)) :
    Sound b n devices' ∧ ∀ m' ∈ ms, Announced (b.table n) m' := by
  obtain ⟨mes, hcar, hlen, hinfo⟩ := Shape.owner hn hm
  rw [hn.handle, Pi.handle_carried hcar] at hh
  cases hh
  refine ⟨h.meet (fun d => hcar.short_demand hlen _ d) ?_, ?_⟩
  · intro hsenz d x hx hp
    obtain ⟨id, v, rfl⟩ := hinfo hsenz
    rw [Mes.demand] at hx
    split at hx
    · cases hx; cases hp
    · cases hx
  · intro m' hm'
    obtain ⟨d, hd, hm'⟩ := List.mem_flatMap.mp hm'
    exact h.announced hd (hcar.short_demand hlen _ d) hm'

/-- The sensor loop: it announces on `controler` and publishes the reading. -/
theorem Sound.owner_sense {b : Boot} {n : Node} {devices devices' : List Device} {r : Int32}
    {i : Nat} {ms : List Msg} (h : Sound b n devices)
    (hh : completed (Pi.sensorsValuePublish r i devices) = some (devices', ms)) :
    Sound b n devices' ∧ ∀ m' ∈ ms, Announced (b.table n) m' ∨
      (∃ d ∈ b.table n, d.group = sensors ∧ m' = ⟨d.topic, (Mes.reading r).text⟩) := by
  cases hd : devices[i]? with
  | none => simp [Pi.completed_sensorsValuePublish_none hd] at hh
  | some d =>
      have hmem : d ∈ devices := List.mem_of_getElem? hd
      by_cases hs : d.group = sensors
      · rw [Pi.completed_sensorsValuePublish hd hs] at hh
        cases hh
        refine ⟨h.set hd r, fun m' hm' => ?_⟩
        rcases List.mem_append.mp hm' with hm' | hm'
        · exact Or.inl (h.announced hmem (short_senseDemand r) hm')
        · obtain ⟨e, he, hed⟩ := h.mem_frame hmem
          refine Or.inr ⟨e, he, (congrArg Frame.group hed).trans hs, ?_⟩
          rw [List.mem_singleton.mp hm']
          exact congrArg (fun f : Frame => (⟨f.topic, _⟩ : Msg)) hed.symm
      · rw [Pi.completed_sensorsValuePublish_of_ne hd hs] at hh
        cases hh
        exact ⟨h, fun m' hm' => absurd hm' List.not_mem_nil⟩

/-! ## The ids -/

theorem nodup_ids (b : Boot) : ∀ n, ((b.table n).map Device.id).Nodup
  | .commandLine => List.nodup_nil
  | .kontroler => of_decide_eq_true rfl
  | .senzorski => of_decide_eq_true rfl
  | .aktuatorski => of_decide_eq_true rfl

theorem Sound.nodup {b : Boot} {n : Node} {devices : List Device} (h : Sound b n devices) :
    (devices.map Device.id).Nodup := h.ids ▸ nodup_ids b n

theorem ids_disjoint (b : Boot) : ∀ d ∈ b.table .senzorski, ∀ e ∈ b.table .aktuatorski,
    d.id ≠ e.id := of_decide_eq_true rfl

theorem ids_subset (b : Boot) : ∀ n, ∀ d ∈ b.table n, d.id ∈ (b.table .kontroler).map Device.id
  | .commandLine => fun _ hd => absurd hd List.not_mem_nil
  | .kontroler => fun _ hd => List.mem_map_of_mem hd
  | .senzorski => of_decide_eq_true rfl
  | .aktuatorski => of_decide_eq_true rfl

theorem Sound.lookup_announced {b : Boot} {devices : List Device} (h : Sound b .kontroler devices)
    {n : Node} {x : CStr} (hx : ∃ d ∈ b.table n, d.id = x) : ∃ e, lookup x devices = some e := by
  obtain ⟨d, hd, rfl⟩ := hx
  have hid : d.id ∈ devices.map Device.id := h.ids ▸ ids_subset b n d hd
  obtain ⟨e, he, hed⟩ := List.mem_map.mp hid
  exact Option.ne_none_iff_exists'.mp fun hnone => lookup_eq_none_iff.mp hnone e he hed

theorem Sound.assignFirst {b : Boot} {devices : List Device} (h : Sound b .kontroler devices)
    (p : Property) (x : CStr) {v : Word} (hv : v.text.length ≤ 80) :
    Sound b .kontroler (assignFirst p x v.text devices) where
  frames := (map_frame_assignFirst p x v.text devices).trans h.frames
  stored := by
    intro e he
    rcases mem_assignFirst he with he | ⟨d, hd, rfl⟩
    · exact h.stored e he
    · exact (h.stored d hd).put p hv
  readings hn := by cases hn

theorem Sound.kontroler_announced {b : Boot} {n : Node} {devices : List Device}
    (h : Sound b .kontroler devices) {m : Msg} (hm : Announced (b.table n) m) (stale : CStr) :
    ∃ (p : Property) (id v : Word), m.payload = (Mes.changed p id v).text ∧
      v.text.length ≤ 80 ∧ (∃ d ∈ b.table n, d.id = id.text) ∧
      completed (Kontroler.handle stale devices m.topic m.payload) =
        some (SmartHome.assignFirst p id.text v.text devices, []) := by
  obtain ⟨-, p, id, v, hpay, hid, hv⟩ := hm
  obtain ⟨e, he⟩ := h.lookup_announced hid
  refine ⟨p, id, v, hpay, hv, hid, ?_⟩
  rw [hpay]
  exact Kontroler.handle_changed stale devices _ (Mes.carried_text _) he

/-! ## Who receives what -/

theorem subscribed_iff {b : Boot} {n : Node} {m : Msg} :
    (protocol b).subscribed n m = true ↔ m.topic ∈ b.subscriptions n := decide_eq_true_iff

theorem subscriber_controler {b : Boot} : ∀ {n : Node}, Topic.controler ∈ b.subscriptions n →
    n = .kontroler
  | .kontroler, _ => rfl
  | .commandLine, h => absurd h (of_decide_eq_true rfl)
  | .senzorski, h => absurd h (of_decide_eq_true rfl)
  | .aktuatorski, h => absurd h (of_decide_eq_true rfl)

theorem subscriber_ui {b : Boot} : ∀ {n : Node}, Topic.ui ∈ b.subscriptions n → n = .commandLine
  | .commandLine, _ => rfl
  | .kontroler, h => absurd h (of_decide_eq_true rfl)
  | .senzorski, h => absurd h (of_decide_eq_true rfl)
  | .aktuatorski, h => absurd h (of_decide_eq_true rfl)

theorem subscriber_forward {b : Boot} : ∀ {p : Property} {n : Node},
    Kontroler.forwardTopic p ∈ b.subscriptions n →
      n = .aktuatorski ∨ (n = .senzorski ∧ p = .info)
  | _, .aktuatorski, _ => Or.inl rfl
  | .info, .senzorski, _ => Or.inr ⟨rfl, rfl⟩
  | .value, .senzorski, h => absurd h (of_decide_eq_true rfl)
  | .value, .kontroler, h => absurd h (of_decide_eq_true rfl)
  | .info, .kontroler, h => absurd h (of_decide_eq_true rfl)
  | .value, .commandLine, h => absurd h (of_decide_eq_true rfl)
  | .info, .commandLine, h => absurd h (of_decide_eq_true rfl)

/-- A sensor's topic is heard by the actuator Pi or by nobody. -/
theorem subscriber_sensed {b : Boot} {d : Device} (hd : d ∈ b.table .senzorski) {n : Node}
    (h : d.topic ∈ b.subscriptions n) : n = .aktuatorski := by
  cases n with
  | aktuatorski => rfl
  | commandLine =>
      have hall : ∀ d ∈ b.table .senzorski, d.topic ∉ b.subscriptions .commandLine :=
        of_decide_eq_true rfl
      exact absurd h (hall d hd)
  | kontroler =>
      have hall : ∀ d ∈ b.table .senzorski, d.topic ∉ b.subscriptions .kontroler :=
        of_decide_eq_true rfl
      exact absurd h (hall d hd)
  | senzorski =>
      have hall : ∀ d ∈ b.table .senzorski, d.topic ∉ b.subscriptions .senzorski :=
        of_decide_eq_true rfl
      exact absurd h (hall d hd)

theorem group_aktuatorski : ∀ d ∈ Aktuatorski.main, d.group ≠ sensors := of_decide_eq_true rfl

theorem shape_announced {b : Boot} {n q : Node} {m : Msg} (hn : Owns n)
    (hm : Announced (b.table n) m) (hq : (protocol b).subscribed q m = true) : Shape b n q m := by
  have hk := subscribed_iff.mp hq
  rw [hm.1] at hk
  rw [subscriber_controler hk]
  rcases hn with rfl | rfl <;> exact hm

theorem shape_forwards {b : Boot} {devices : List Device} {payload : CStr} {m : Mes}
    (hm : m.Carried payload) (hlen : payload.length ≤ 39) {m' : Msg}
    (hm' : m' ∈ Kontroler.forwards devices payload m) {q : Node}
    (hq : (protocol b).subscribed q m' = true) : Shape b .kontroler q m' := by
  cases m with
  | get _ _ | changed _ _ _ | reading _ => exact absurd hm' List.not_mem_nil
  | set p id v =>
      rw [Kontroler.forwards] at hm'
      split at hm'
      · obtain rfl := List.mem_singleton.mp hm'
        have hf : Forwarded p ⟨Kontroler.forwardTopic p, payload⟩ := ⟨rfl, hlen, id, v, hm⟩
        rcases subscriber_forward (subscribed_iff.mp hq) with rfl | ⟨rfl, rfl⟩
        · exact ⟨p, hf⟩
        · exact hf
      · exact absurd hm' List.not_mem_nil

/-! ## The contract -/

/-- The controller on a command, in the terms of the contract. -/
theorem Sound.kontroler_command {devices devices' : List Device}
    {m : Msg} {ms : List Msg} {stale : CStr} (hm : UserCommand m.payload)
    (hh : completed (Kontroler.handle stale devices m.topic m.payload) = some (devices', ms)) :
    devices' = devices ∧ ∃ answer, ∃ mes : Mes, mes.IsCommand ∧ mes.Carried m.payload ∧
      ms = ⟨Topic.ui, answer⟩ :: Kontroler.forwards devices m.payload mes := by
  obtain ⟨-, mes, hcmd, hcar⟩ := hm
  obtain ⟨answer, ha⟩ := Kontroler.handle_command stale devices m.topic hcar hcmd
  rw [ha] at hh
  cases hh
  exact ⟨rfl, answer, mes, hcmd, hcar, rfl⟩

theorem contract_handle {b : Boot} {p n : Node} {stale : CStr} {s s' : List Device} {m : Msg}
    {ms : List Msg} (hs : Sound b n s) (hm : Shape b p n m)
    (hh : completed (n.handle stale s m) = some (s', ms)) :
    Sound b n s' ∧ ∀ m' ∈ ms, ∀ q, (protocol b).subscribed q m' = true → Shape b n q m' := by
  cases n with
  | commandLine =>
      cases hh
      exact ⟨hs, fun _ hm' => absurd hm' List.not_mem_nil⟩
  | kontroler =>
      cases p with
      | kontroler => exact absurd hm not_false
      | commandLine =>
          obtain ⟨rfl, answer, mes, -, hcar, rfl⟩ := Sound.kontroler_command hm.2 hh
          refine ⟨hs, fun m' hm' q hq => ?_⟩
          rcases List.mem_cons.mp hm' with rfl | hm'
          · rw [subscriber_ui (subscribed_iff.mp hq)]
            exact rfl
          · exact shape_forwards hcar hm.2.1 hm' hq
      | senzorski | aktuatorski =>
          obtain ⟨p, id, v, -, hv, -, ha⟩ := hs.kontroler_announced hm stale
          rw [Node.handle, ha] at hh
          cases hh
          exact ⟨hs.assignFirst p id.text hv, fun _ hm' => absurd hm' List.not_mem_nil⟩
  | senzorski =>
      obtain ⟨hs', hms⟩ := hs.owner_handle (Or.inl rfl) hm hh
      exact ⟨hs', fun m' hm' q hq => shape_announced (Or.inl rfl) (hms m' hm') hq⟩
  | aktuatorski =>
      obtain ⟨hs', hms⟩ := hs.owner_handle (Or.inr rfl) hm hh
      exact ⟨hs', fun m' hm' q hq => shape_announced (Or.inr rfl) (hms m' hm') hq⟩

theorem contract_act {b : Boot} {n : Node} {a : Action} {s s' : List Device} {ms : List Msg}
    (hok : CommandsIn UserCommand (.act n a)) (hs : Sound b n s)
    (hh : (protocol b).act n a s = some (s', ms)) :
    Sound b n s' ∧ ∀ m' ∈ ms, ∀ q, (protocol b).subscribed q m' = true → Shape b n q m' := by
  cases n with
  | kontroler => cases a <;> cases hh
  | commandLine =>
      cases a with
      | sense r i => cases hh
      | command payload =>
          cases hh
          refine ⟨hs, fun m' hm' q hq => ?_⟩
          obtain rfl := List.mem_singleton.mp hm'
          rw [subscriber_controler (subscribed_iff.mp hq)]
          exact ⟨rfl, hok⟩
  | senzorski =>
      cases a with
      | command payload => cases hh
      | sense r i =>
          obtain ⟨hs', hms⟩ := hs.owner_sense hh
          refine ⟨hs', fun m' hm' q hq => ?_⟩
          rcases hms m' hm' with hm' | ⟨d, hd, -, rfl⟩
          · exact shape_announced (Or.inl rfl) hm' hq
          · rw [subscriber_sensed hd (subscribed_iff.mp hq)]
            exact ⟨d, hd, r, rfl⟩
  | aktuatorski =>
      cases a with
      | command payload => cases hh
      | sense r i =>
          obtain ⟨hs', hms⟩ := hs.owner_sense hh
          refine ⟨hs', fun m' hm' q hq => ?_⟩
          rcases hms m' hm' with hm' | ⟨d, hd, hg, -⟩
          · exact shape_announced (Or.inr rfl) hm' hq
          · exact absurd hg (group_aktuatorski d hd)

/-- The contract of the closed system, whatever the handlers find on their stacks. -/
def contract (b : Boot) : Contract (protocol b) (CommandsIn UserCommand) where
  loc := Sound b
  shape := Shape b
  handle_keeps _ := contract_handle
  act_keeps := contract_act

theorem contract_holds {b : Boot} {c : Sys}
    (h : Reachable (protocol b) (CommandsIn UserCommand) b.start c) : (contract b).Holds c :=
  (contract b).holds (sound_table b) h

end SmartHome
