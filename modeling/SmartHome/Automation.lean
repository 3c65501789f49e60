/-
# `Automation` — actuators follow the sensor on their topic

The last reading a sensor published is the value it shows, and it is the last
reading the actuator Pi handled on that topic once nothing is in flight.  An
actuator that no user has overridden since then shows what that reading, or the
initial one, demands of it.
-/
import SmartHome.Log

namespace SmartHome

open Traced PubSub Fields Register

/-! ## Readings -/

/-- A `Sensor_Mes` on a topic. -/
def IsReading (topic : CStr) (m : Msg) : Prop :=
  m.topic = topic ∧ (fields delimiter (stringCpy m.payload))[0]? = some MesType.sensorMes

instance (topic : CStr) (m : Msg) : Decidable (IsReading topic m) :=
  inferInstanceAs (Decidable (_ ∧ _))

def SetsValue (id : CStr) (m : Msg) : Prop :=
  (fields delimiter (stringCpy m.payload))[0]? = some MesType.setDevValue ∧
    (fields delimiter (stringCpy m.payload))[1]? = some id

/-- The number in a reading on a topic. -/
def readingOn (topic : CStr) (m : Msg) : Option Int32 :=
  if IsReading topic m then
    match fields delimiter (stringCpy m.payload) with
    | [_, arg] => (strtok 'l' arg).map fun token => atoi token.1
    | _ => none
  else none

theorem readingOn_text (topic : CStr) (n : Int32) :
    readingOn topic ⟨topic, (Mes.reading n).text⟩ = some n := by
  have hf : fields delimiter (stringCpy (Mes.reading n).text) =
      [MesType.sensorMes, readingText n] := fields_stringCpy (Mes.carried_text _)
  have hr : IsReading topic ⟨topic, (Mes.reading n).text⟩ := ⟨rfl, by rw [hf]; rfl⟩
  rw [readingOn, if_pos hr]
  simp only [hf, strtok_readingText, Option.map_some, atoi_sprintfD]

theorem readingOn_of_ne {topic : CStr} {m : Msg} (h : m.topic ≠ topic) : readingOn topic m = none :=
  if_neg fun hr => h hr.1

/-! ## The sensors -/

theorem nodup_topics (b : Boot) : ((b.table .senzorski).map Device.topic).Nodup :=
  of_decide_eq_true rfl

theorem topics_senzorski (b : Boot) : ∀ d ∈ b.table .senzorski,
    d.topic ≠ Topic.controler ∧ stringCpy d.topic = d.topic := of_decide_eq_true rfl

/-- What a sensor shows, by what its Pi has published. -/
abbrev sensorRegister (published : List Msg) (s₀ : Device) : CStr :=
  read s₀.value (fun m => (readingOn s₀.topic m).map readingText) published

theorem read_append_announced {b : Boot} {owned : List Device} {s₀ : Device}
    (hs₀ : s₀ ∈ b.table .senzorski) {ms : List Msg} (hms : ∀ m ∈ ms, Announced owned m)
    (log : List Msg) : sensorRegister (log ++ ms) s₀ = sensorRegister log s₀ := by
  have hnone : last (fun m => (readingOn s₀.topic m).map readingText) ms = none := by
    refine last_eq_none.mpr fun m hm => ?_
    rw [readingOn_of_ne, Option.map_none]
    rw [(hms m hm).1]
    exact ((topics_senzorski b s₀ hs₀).1).symm
  rw [sensorRegister, Register.read, last_append, hnone, Option.none_or]
  rfl

theorem Sound.topic_ne {b : Boot} {s : List Device} (hs : Sound b .senzorski s) {i k : Nat}
    {e s₀ : Device} (hd : s[k]? = some e) (hs₀ : (b.table .senzorski)[i]? = some s₀)
    (hik : k ≠ i) : e.topic ≠ s₀.topic := by
  obtain ⟨e₀, he₀⟩ := hs.entry hd
  have heq : e.topic = e₀.topic := congrArg Frame.topic (hs.frame_eq hd he₀)
  rw [heq]
  intro htopic
  have hk' : ((b.table .senzorski).map Device.topic)[k]? = some s₀.topic := by
    rw [List.getElem?_map, he₀]
    exact congrArg some htopic
  have hi' : ((b.table .senzorski).map Device.topic)[i]? = some s₀.topic := by
    rw [List.getElem?_map, hs₀]
    rfl
  have hlt := (List.getElem?_eq_some_iff.mp hk').1
  exact hik ((List.getElem?_inj hlt (nodup_topics b)).mp (hk'.trans hi'.symm))

theorem sensor_sense {b : Boot} {r : Int32} {k : Nat} {s s' : List Device} {ms log : List Msg}
    (hs : Sound b .senzorski s)
    (hh : completed (Pi.sensorsValuePublish r k s) = some (s', ms))
    (hlog : Logged b .senzorski (sensorRegister log) Device.value s) :
    Logged b .senzorski (sensorRegister (log ++ ms)) Device.value s' := by
  cases hd : s[k]? with
  | none => rw [Pi.completed_sensorsValuePublish_none hd] at hh; cases hh
  | some e =>
      by_cases hg : e.group = sensors
      · rw [Pi.completed_sensorsValuePublish hd hg] at hh
        cases hh
        intro i s₀ d hs₀ hdi
        have hmem₀ : s₀ ∈ b.table .senzorski := List.mem_of_getElem? hs₀
        have hann : ∀ m ∈ e.announce (senseDemand r), Announced (b.table .senzorski) m :=
          fun m hm => hs.announced (List.mem_of_getElem? hd) (short_senseDemand r) hm
        rw [sensorRegister, ← List.append_assoc, read_concat]
        by_cases hik : k = i
        · subst hik
          rw [List.getElem?_set_self (List.getElem?_eq_some_iff.mp hd).1] at hdi
          cases hdi
          have htopic : e.topic = s₀.topic := congrArg Frame.topic (hs.frame_eq hd hs₀)
          rw [htopic, readingOn_text]
          rfl
        · rw [List.getElem?_set_ne hik] at hdi
          rw [readingOn_of_ne (hs.topic_ne hd hs₀ hik)]
          change d.value = sensorRegister (log ++ e.announce (senseDemand r)) s₀
          rw [read_append_announced hmem₀ hann]
          exact hlog i s₀ d hs₀ hdi
      · rw [Pi.completed_sensorsValuePublish_of_ne hd hg] at hh
        cases hh
        rw [List.append_nil]
        exact hlog

theorem sensor_handle {b : Boot} {p : Node} {stale : CStr} {m : Msg} {s s' : List Device}
    {ms log : List Msg} (hs : Sound b .senzorski s) (hm : Shape b p .senzorski m)
    (hh : completed (Node.senzorski.handle stale s m) = some (s', ms))
    (hlog : Logged b .senzorski (sensorRegister log) Device.value s) :
    Logged b .senzorski (sensorRegister (log ++ ms)) Device.value s' := by
  have hann := (hs.owner_handle (Or.inl rfl) hm hh).2
  obtain ⟨mes, hcar, -, hinfo⟩ := Shape.owner (Or.inl rfl) hm
  obtain ⟨id, v, rfl⟩ := hinfo rfl
  have hh' : completed (Pi.handle s m.topic m.payload) = some (s', ms) := hh
  rw [Pi.handle_carried hcar] at hh'
  cases hh'
  intro i s₀ d hs₀ hd
  rw [List.getElem?_map] at hd
  obtain ⟨e, he, rfl⟩ := Option.map_eq_some_iff.mp hd
  have hvalue : (e.meet ((Mes.set .info id v).demand (stringCpy m.topic) e)).value = e.value := by
    rw [Mes.demand]
    split <;> rfl
  rw [hvalue, read_append_announced (List.mem_of_getElem? hs₀) hann]
  exact hlog i s₀ e hs₀ he

theorem sensor_logged {b : Boot} {c : Sys}
    (h : Reachable (protocol b) (CommandsIn UserCommand) b.start c) :
    Logged b .senzorski (sensorRegister (c.published .senzorski)) Device.value
      (c.node .senzorski) := by
  refine (contract b).node_induct (fun s _ sent => Logged b .senzorski (sensorRegister sent)
    Device.value s) (sound_table b) ?_ ?_ ?_ h
  · intro i d₀ d hd₀ hd
    cases Option.some.inj (hd₀.symm.trans hd)
    rfl
  · intro p stale s m s' ms _ sent _ hs hm hh hlog
    exact sensor_handle hs hm hh hlog
  · intro a s s' ms _ sent _ hs ha hlog
    cases a with
    | command payload => cases ha
    | sense r k => exact sensor_sense hs ha hlog

/-! ## The actuators -/

/-- What the actuator Pi hears, as far as readings go: they come from the sensor Pi, and an
actuator on the topic is told to switch. -/
theorem demanded_reading {b : Boot} {p : Node} {m : Msg} (hm : Shape b p .aktuatorski m)
    {a₀ : Device} (hg : a₀.group = actuators) :
    (if IsReading a₀.topic m then demanded .value a₀ m else none) =
        (readingOn a₀.topic m).map (checkDeviceCondition a₀.condition) ∧
      (p ≠ .senzorski → readingOn a₀.topic m = none) := by
  cases p with
  | commandLine | aktuatorski => exact absurd hm not_false
  | kontroler =>
      obtain ⟨q, -, -, id, v, hcar⟩ := hm
      have hno : ¬ IsReading a₀.topic m := by
        intro hr
        have htype := hr.2
        rw [fields_stringCpy hcar] at htype
        cases q <;> exact absurd (Option.some.inj htype) (by decide)
      have hnone : readingOn a₀.topic m = none := if_neg hno
      rw [if_neg hno, hnone]
      exact ⟨rfl, fun _ => rfl⟩
  | senzorski =>
      refine ⟨?_, fun h => absurd rfl h⟩
      obtain ⟨d, hd, n, rfl⟩ := hm
      by_cases htopic : d.topic = a₀.topic
      · have hread : readingOn a₀.topic ⟨d.topic, (Mes.reading n).text⟩ = some n := by
          rw [htopic, readingOn_text]
        have hr : IsReading a₀.topic ⟨d.topic, (Mes.reading n).text⟩ := by
          by_contra hr
          rw [readingOn, if_neg hr] at hread
          cases hread
        have hcpy : stringCpy a₀.topic = a₀.topic := htopic ▸ (topics_senzorski b d hd).2
        rw [if_pos hr, hread, demanded_carried (Mes.carried_text _)]
        simp only [Mes.demand, htopic, hcpy, hg, and_self, if_true]
        simp [Demand.on]
      · rw [readingOn_of_ne htopic, if_neg fun hr => htopic hr.1]
        rfl

theorem demanded_of_reading {b : Boot} {p : Node} {m : Msg} (hm : Shape b p .aktuatorski m)
    {a₀ : Device} (hg : a₀.group = actuators) (hr : IsReading a₀.topic m) :
    demanded .value a₀ m ≠ none := by
  have heq := (demanded_reading hm hg).1
  rw [if_pos hr] at heq
  rw [heq]
  cases p with
  | commandLine | aktuatorski => exact absurd hm not_false
  | kontroler =>
      obtain ⟨q, -, -, id, v, hcar⟩ := hm
      have htype := hr.2
      rw [fields_stringCpy hcar] at htype
      cases q <;> exact absurd (Option.some.inj htype) (by decide)
  | senzorski =>
      obtain ⟨d, hd, n, rfl⟩ := hm
      have htopic : d.topic = a₀.topic := hr.1
      rw [htopic, readingOn_text]
      exact Option.some_ne_none _

theorem setsValue_of_demanded {b : Boot} {p : Node} {m : Msg} (hm : Shape b p .aktuatorski m)
    {a₀ : Device} (hno : ¬ IsReading a₀.topic m) (hd : demanded .value a₀ m ≠ none) :
    SetsValue a₀.id m := by
  obtain ⟨mes, hcar, -, -⟩ := Shape.owner (Or.inr rfl) hm
  cases mes with
  | get _ _ | changed _ _ _ =>
      rw [demanded_carried hcar] at hd
      exact absurd rfl hd
  | set q id v =>
      rw [SetsValue, fields_stringCpy hcar]
      rw [demanded_carried hcar, Mes.demand] at hd
      split at hd
      · rename_i hid
        cases q with
        | value => exact ⟨rfl, by rw [hid]; rfl⟩
        | info => exact absurd rfl hd
      · exact absurd rfl hd
  | reading n =>
      rw [demanded_carried hcar, Mes.demand] at hd
      split at hd
      · rename_i hsel
        refine absurd ⟨?_, ?_⟩ hno
        · cases p with
          | commandLine | aktuatorski => exact absurd hm not_false
          | kontroler =>
              obtain ⟨q, -, -, id, v, hcar'⟩ := hm
              have htok := (fields_stringCpy hcar).symm.trans (fields_stringCpy hcar')
              cases q <;> exact absurd (List.cons.inj htok).1 (by decide)
          | senzorski =>
              obtain ⟨d, hd', n', rfl⟩ := hm
              exact ((topics_senzorski b d hd').2.symm.trans hsel.1.symm)
        · rw [fields_stringCpy hcar]
          rfl
      · exact absurd rfl hd

theorem table_agrees (b : Boot) {s₀ a₀ : Device} (hs₀ : s₀ ∈ b.table .senzorski)
    (ha₀ : a₀ ∈ b.table .aktuatorski) :
    a₀.group = actuators ∧ a₀.topic ∈ b.subscriptions .aktuatorski ∧
      ∃ n, s₀.value = readingText n ∧ a₀.value = checkDeviceCondition a₀.condition n := by
  have hvalues : ∀ d ∈ b.table .senzorski, d.value ∈ [23, 22, 24, 11].map readingText :=
    of_decide_eq_true rfl
  have hact : ∀ a ∈ b.table .aktuatorski, a.group = actuators ∧
      a.topic ∈ b.subscriptions .aktuatorski := of_decide_eq_true rfl
  have hoff : ∀ a ∈ Aktuatorski.main, a.value = off ∧ a.condition = 25 := by decide
  obtain ⟨n, hn, hvalue⟩ := List.mem_map.mp (hvalues s₀ hs₀)
  obtain ⟨hgroup, htopic⟩ := hact a₀ ha₀
  obtain ⟨hval, hcond⟩ := hoff a₀ ha₀
  refine ⟨hgroup, htopic, n, hvalue.symm, ?_⟩
  rw [hval, hcond]
  simp only [List.mem_cons, List.not_mem_nil, or_false] at hn
  rcases hn with rfl | rfl | rfl | rfl <;> rfl

/-- The last reading the actuator Pi handled on a topic is, with nothing in flight, the last
one the sensor Pi published there. -/
theorem last_reading {b : Boot} {c : Sys}
    (h : Reachable (protocol b) (CommandsIn UserCommand) b.start c) (hq : Quiescent c)
    {a₀ : Device} (hg : a₀.group = actuators) (hsub : a₀.topic ∈ b.subscriptions .aktuatorski) :
    last (readingOn a₀.topic) ((c.handled .aktuatorski).map Prod.snd) =
      last (readingOn a₀.topic) (c.published .senzorski) := by
  have hK := contract_holds h
  have horder := h.inOrder .senzorski .aktuatorski
  rw [hq, List.append_nil] at horder
  calc last (readingOn a₀.topic) ((c.handled .aktuatorski).map Prod.snd)
      = last (fun x => readingOn a₀.topic x.2) (c.handled .aktuatorski) := last_map _ _ _
    _ = last (fun x : Node × Msg => if decide (x.1 = .senzorski) then readingOn a₀.topic x.2
          else none) (c.handled .aktuatorski) := by
        refine last_congr fun x hx => ?_
        by_cases hx1 : x.1 = .senzorski
        · simp [hx1]
        · simp [hx1, (demanded_reading (hK.handled .aktuatorski x hx) hg).2 hx1]
    _ = last (readingOn a₀.topic) (c.handledFrom .senzorski .aktuatorski) := by
        rw [Config.handledFrom, last_map, last_filter]
    _ = last (fun m => if (protocol b).subscribed .aktuatorski m then readingOn a₀.topic m
          else none) (c.published .senzorski) := by
        rw [horder, last_filter]
    _ = last (readingOn a₀.topic) (c.published .senzorski) := by
        refine last_congr fun m _ => ?_
        by_cases htopic : m.topic = a₀.topic
        · rw [if_pos (subscribed_iff.mpr (htopic ▸ hsub))]
        · rw [readingOn_of_ne htopic]
          split <;> rfl

/-- With nothing in flight, an actuator that no `Set_Dev_Value` has addressed since the last
reading on its topic shows what the last reading published there demands. -/
theorem actuator_logged {b : Boot} {c : Sys}
    (h : Reachable (protocol b) (CommandsIn UserCommand) b.start c) (hq : Quiescent c) {j : Nat}
    {a₀ a : Device} (ha₀ : (b.table .aktuatorski)[j]? = some a₀)
    (ha : (c.node .aktuatorski)[j]? = some a) (hg : a₀.group = actuators)
    (hsub : a₀.topic ∈ b.subscriptions .aktuatorski)
    (hset : ∀ before m after, (c.handled .aktuatorski).map Prod.snd = before ++ m :: after →
      SetsValue a₀.id m → ∃ r ∈ after, IsReading a₀.topic r) :
    a.value = ((last (readingOn a₀.topic) (c.published .senzorski)).map
      (checkDeviceCondition a₀.condition)).getD a₀.value := by
  have hK := contract_holds h
  have hshape : ∀ x ∈ (c.handled .aktuatorski).map Prod.snd, ∃ p, Shape b p .aktuatorski x := by
    intro x hx
    obtain ⟨y, hy, rfl⟩ := List.mem_map.mp hx
    exact ⟨y.1, hK.handled .aktuatorski y hy⟩
  -- every `Set_Dev_Value` for it is followed by a reading, so the readings alone decide
  have hcov : last (demanded .value a₀) ((c.handled .aktuatorski).map Prod.snd) =
      last (fun m => if decide (IsReading a₀.topic m) then demanded .value a₀ m else none)
        ((c.handled .aktuatorski).map Prod.snd) := by
    refine last_of_covered fun before m after hlog hp hd => ?_
    obtain ⟨p, hm⟩ := hshape m (by rw [hlog]; simp)
    obtain ⟨r, hr, hread⟩ :=
      hset before m after hlog (setsValue_of_demanded hm (of_decide_eq_false hp) hd)
    obtain ⟨p', hr'⟩ := hshape r (by rw [hlog]; simp [hr])
    exact ⟨r, hr, decide_eq_true hread, demanded_of_reading hr' hg hread⟩
  have hlogged : a.value = Register.read a₀.value (demanded .value a₀)
      ((c.handled .aktuatorski).map Prod.snd) :=
    owner_logged h (q := .value) (Or.inr rfl) (fun h => by cases h) j a₀ a ha₀ ha
  rw [hlogged, Register.read, hcov, ← last_reading h hq hg hsub, ← last_option_map]
  congr 1
  refine last_congr fun m hm => ?_
  obtain ⟨y, hy, rfl⟩ := List.mem_map.mp hm
  simpa using (demanded_reading (hK.handled .aktuatorski y hy) hg).1

/-- With nothing in flight, a sensor shows a reading, and an actuator on its topic that no
`Set_Dev_Value` has addressed since the last reading there shows `ON` exactly when the reading
is above its condition. -/
theorem automation_agrees {b : Boot} {c : Sys}
    (h : Reachable (protocol b) (CommandsIn Typed) b.start c) (hq : Quiescent c)
    {s a : Device} (hs : s ∈ c.node .senzorski) (ha : a ∈ c.node .aktuatorski)
    (htopic : a.topic = s.topic)
    (hset : ∀ before m after, (c.handled .aktuatorski).map Prod.snd = before ++ m :: after →
      SetsValue a.id m → ∃ r ∈ after, IsReading a.topic r) :
    (∃ n, s.value = readingText n) ∧
      ∀ n, s.value = readingText n → a.value = if n > a.condition then on else off := by
  have hr := h.mono (CommandsIn.mono fun _ => Typed.userCommand)
  have hK := contract_holds hr
  obtain ⟨i, hi⟩ := List.getElem?_of_mem hs
  obtain ⟨j, hj⟩ := List.getElem?_of_mem ha
  obtain ⟨s₀, hs₀⟩ := (hK.node .senzorski).entry hi
  obtain ⟨a₀, ha₀⟩ := (hK.node .aktuatorski).entry hj
  have hsf := (hK.node .senzorski).frame_eq hi hs₀
  have haf := (hK.node .aktuatorski).frame_eq hj ha₀
  have hst : s.topic = s₀.topic := congrArg Frame.topic hsf
  have hat : a.topic = a₀.topic := congrArg Frame.topic haf
  have hid : a.id = a₀.id := congrArg Frame.id haf
  have hcond : a.condition = a₀.condition := congrArg Frame.condition haf
  have htopic₀ : s₀.topic = a₀.topic := by rw [← hst, ← hat, htopic]
  rw [hid, hat] at hset
  obtain ⟨hg, hsub, n₀, hn₀, hcheck₀⟩ :=
    table_agrees b (List.mem_of_getElem? hs₀) (List.mem_of_getElem? ha₀)
  -- both sides as functions of the last reading
  have hsensor : s.value = ((last (readingOn a₀.topic) (c.published .senzorski)).map
      readingText).getD s₀.value := by
    rw [sensor_logged hr i s₀ s hs₀ hi, sensorRegister, Register.read, last_option_map, htopic₀]
  have hactuator := actuator_logged hr hq ha₀ hj hg hsub hset
  have hboth : ∃ n, s.value = readingText n ∧ a.value = checkDeviceCondition a₀.condition n := by
    cases hl : last (readingOn a₀.topic) (c.published .senzorski) with
    | none =>
        rw [hl] at hsensor hactuator
        exact ⟨n₀, hsensor.trans hn₀, hactuator.trans hcheck₀⟩
    | some n =>
        rw [hl] at hsensor hactuator
        exact ⟨n, hsensor, hactuator⟩
  obtain ⟨n, hn, hcheck⟩ := hboth
  refine ⟨⟨n, hn⟩, fun n' hn' => ?_⟩
  rw [← readingText_injective (hn.symm.trans hn'), hcheck, hcond]
  rfl

def fingerprintRun : List SysEvent :=
  [.act .senzorski (.sense 40 0), .deliver .senzorski .aktuatorski [],
   .deliver .senzorski .kontroler [], .deliver .aktuatorski .kontroler [],
   .deliver .aktuatorski .kontroler []]

def fingerprintSensor : Device :=
  sensor "fingerprint_sensor" "40lr" "home/hallway/fingerprint" 15 25

def doorOpen : Device := { actuator "door_opener" "home/hallway/fingerprint" with value := on }

theorem automation_agrees_fingerprint :
    (∃ n, fingerprintSensor.value = readingText n) ∧
      ∀ n, fingerprintSensor.value = readingText n →
        doorOpen.value = if n > doorOpen.condition then on else off := by
  have hreach : Reachable (protocol Boot.zero) (CommandsIn Typed) Boot.zero.start
      (Boot.zero.after fingerprintRun) :=
    Boot.reachable_after (by decide +kernel) ⟨trivial, trivial, trivial, trivial, trivial⟩
  refine automation_agrees hreach ?_ (by decide +kernel) (by decide +kernel) rfl ?_
  · have hlinks : ∀ p ∈ [Node.commandLine, .kontroler, .senzorski, .aktuatorski],
        ∀ n ∈ [Node.commandLine, .kontroler, .senzorski, .aktuatorski],
          (Boot.zero.after fingerprintRun).link p n = [] := by decide +kernel
    intro p n
    exact hlinks p (by cases p <;> decide) n (by cases n <;> decide)
  · intro before m after hlog hset
    have hone : (Boot.zero.after fingerprintRun).handled .aktuatorski =
        [(.senzorski, ⟨"home/hallway/fingerprint".toList, "Sensor_Mes.40lr".toList⟩)] := by
      decide +kernel
    have hm : m ∈ ((Boot.zero.after fingerprintRun).handled .aktuatorski).map Prod.snd := by
      rw [hlog]
      simp
    rw [hone] at hm
    obtain rfl := List.mem_singleton.mp hm
    exact absurd hset.1 (by decide +kernel)

end SmartHome
