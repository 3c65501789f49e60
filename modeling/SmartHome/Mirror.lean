/-
# `Mirror` — the controller's table follows the tables of the Pis

Per device the controller is a mirror of the owner: what the owner announces,
replayed on the controller's entry, gives the owner's value and info, in every
reachable configuration.  With nothing in flight the two are equal.
-/
import SmartHome.Commands

namespace SmartHome

open Traced PubSub Fields

/-! ## Views and their updates -/

/-- The two texts of a device. -/
abbrev View := Property → CStr

def Device.view (d : Device) : View := fun p => p.get d

theorem view_put (p : Property) (v : CStr) (d : Device) :
    (p.put v d).view = Function.update d.view p v := by
  funext q
  by_cases hq : q = p
  · subst hq; rw [Function.update_self]; exact Property.get_put q v d
  · rw [Function.update_of_ne hq]; exact Property.get_put_of_ne hq v d

/-- A `PropertyChanged` message as an update of what device `x` shows. -/
def hear (x : CStr) (w : View) (m : Msg) : View :=
  match fields delimiter m.payload with
  | [type, id, name, v] =>
      if type = MesType.propertyChanged ∧ id = x then fun p => if name = p.name then v else w p
      else w
  | _ => w

theorem hear_changed (x : CStr) (w : View) (topic : CStr) (p : Property) (id v : Word) :
    hear x w ⟨topic, (Mes.changed p id v).text⟩ =
      if id.text = x then Function.update w p v.text else w := by
  have hf : fields delimiter (Mes.changed p id v).text =
      [MesType.propertyChanged, id.text, p.word.text, v.text] :=
    fields_join Mes.isField_of_mem_tokens
  simp only [hear, hf, true_and, Property.word_text]
  by_cases hid : id.text = x
  · rw [if_pos hid, if_pos hid]
    funext q
    cases p <;> cases q <;> rfl
  · rw [if_neg hid, if_neg hid]

theorem foldl_hear_of_ne {x : CStr} {f : Device → Option Demand} : ∀ {devices : List Device},
    (∀ d ∈ devices, d.Stored) → (∀ d ∈ devices, d.id ≠ x) → ∀ w : View,
      (devices.flatMap fun d => d.announce (f d)).foldl (hear x) w = w := by
  intro devices hst hne w
  have hfix : ∀ m ∈ devices.flatMap fun d => d.announce (f d), ∀ w, hear x w m = w := by
    intro m hm w
    obtain ⟨d, hd, hm⟩ := List.mem_flatMap.mp hm
    obtain ⟨r, -, rfl⟩ := (hst d hd).mem_announce hm
    rw [hear_changed]
    exact if_neg (hne d hd)
  generalize (devices.flatMap fun d => d.announce (f d)) = ms at hfix
  induction ms with
  | nil => rfl
  | cons m ms ih =>
      rw [List.foldl_cons, hfix m List.mem_cons_self]
      exact ih fun m' hm' => hfix m' (List.mem_cons_of_mem _ hm')

/-- The announcement of a device brings its view up to date; there is none only if the
demand changes nothing. -/
theorem foldl_hear_announce {d : Device} (h : d.Stored) (r : Option Demand) :
    (d.announce r).foldl (hear d.id) d.view = (d.meet r).view := by
  cases r with
  | none => rfl
  | some x =>
      by_cases hx : x.always ∨ x.property.get d ≠ x.text.text
      · have hmes := hear_changed d.id d.view Topic.controler x.property h.name x.text
        rw [if_pos (show h.name.text = d.id from rfl), Mes.text_changed] at hmes
        rw [Device.announce, if_pos hx, List.foldl_cons, List.foldl_nil, Device.meet, view_put]
        exact hmes
      · rw [Device.announce, if_neg hx, List.foldl_nil, Device.meet]
        obtain ⟨-, heq⟩ := not_or.mp hx
        rw [← not_not.mp heq, Property.put_get]

theorem foldl_hear_table {x : CStr} {f : Device → Option Demand} : ∀ {devices : List Device},
    (∀ d ∈ devices, d.Stored) → (devices.map Device.id).Nodup → ∀ {d : Device},
      lookup x devices = some d →
        (devices.flatMap fun d => d.announce (f d)).foldl (hear x) d.view = (d.meet (f d)).view
  | [], _, _, _, hd => by cases hd
  | e :: es, hst, hnd, d, hd => by
      obtain ⟨he, hes⟩ := List.forall_mem_cons.mp hst
      rw [List.map_cons, List.nodup_cons] at hnd
      rw [List.flatMap_cons, List.foldl_append]
      by_cases hid : e.id = x
      · obtain rfl : e = d := by simpa [lookup, hid] using hd
        subst hid
        rw [foldl_hear_announce he]
        refine foldl_hear_of_ne hes (fun d' hd' h => hnd.1 ?_) _
        rw [← h]
        exact List.mem_map_of_mem hd'
      · have hskip : (e.announce (f e)).foldl (hear x) d.view = d.view := by
          have h : ([e].flatMap fun d => d.announce (f d)).foldl (hear x) d.view = d.view :=
            foldl_hear_of_ne (by simpa using he) (by simpa using hid) d.view
          simpa using h
        rw [hskip]
        exact foldl_hear_table hes hnd.2 (by simpa [lookup, hid] using hd)

/-! ## A step of an owner is a set of demands -/

theorem set_eq_map {devices : List Device} (h : (devices.map Device.id).Nodup) {i : Nat}
    {d : Device} (hd : devices[i]? = some d) (r : Option Demand) :
    devices.set i (d.meet r) = devices.map fun e => e.meet (if e.id = d.id then r else none) := by
  have hmem : d ∈ devices := List.mem_of_getElem? hd
  apply List.ext_getElem?
  intro k
  rw [List.getElem?_map]
  by_cases hk : i = k
  · subst hk
    rw [List.getElem?_set_self (List.getElem?_eq_some_iff.mp hd).1, hd]
    simp
  · rw [List.getElem?_set_ne hk]
    cases he : devices[k]? with
    | none => rfl
    | some e =>
        have hne : e.id ≠ d.id := by
          intro heq
          have hi : (devices.map Device.id)[i]? = some d.id := by rw [List.getElem?_map, hd]; rfl
          have hk' : (devices.map Device.id)[k]? = some d.id := by
            rw [List.getElem?_map, he]; exact congrArg some heq
          have hlt := (List.getElem?_eq_some_iff.mp hi).1
          exact hk ((List.getElem?_inj hlt h).mp (hi.trans hk'.symm))
        simp [hne]

theorem announce_eq_flatMap {devices : List Device} (h : (devices.map Device.id).Nodup)
    {d : Device} (hd : d ∈ devices) (r : Option Demand) :
    d.announce r = devices.flatMap fun e => e.announce (if e.id = d.id then r else none) := by
  induction devices with
  | nil => exact absurd hd List.not_mem_nil
  | cons e es ih =>
      rw [List.map_cons, List.nodup_cons] at h
      rw [List.flatMap_cons]
      by_cases hid : e.id = d.id
      · have hrest : ∀ e' ∈ es, e'.announce (if e'.id = d.id then r else none) = [] := by
          intro e' he'
          have hne : e'.id ≠ d.id := by
            intro heq
            refine h.1 ?_
            rw [hid, ← heq]
            exact List.mem_map_of_mem he'
          rw [if_neg hne, Device.announce_none]
        have he : e = d := by
          rcases List.mem_cons.mp hd with rfl | hd
          · rfl
          · exact absurd (List.mem_map_of_mem hd) (hid ▸ h.1)
        rw [if_pos hid, List.flatMap_eq_nil_iff.mpr hrest, List.append_nil, he]
      · have hd' : d ∈ es := by
          rcases List.mem_cons.mp hd with rfl | hd
          · exact absurd rfl hid
          · exact hd
        rw [if_neg hid, Device.announce_none, List.nil_append]
        exact ih h.2 hd'

/-- What the controller hears of a list of messages. -/
def heard (b : Boot) (ms : List Msg) : List Msg := ms.filter ((protocol b).subscribed .kontroler)

theorem heard_announced {b : Boot} {n : Node} {ms : List Msg}
    (h : ∀ m ∈ ms, Announced (b.table n) m) : heard b ms = ms := by
  refine List.filter_eq_self.mpr fun m hm => subscribed_iff.mpr ?_
  rw [(h m hm).1]
  exact List.mem_singleton_self _

/-- An owner that makes its devices meet some demands, and tells the controller so. -/
def Meets (b : Boot) (s s' : List Device) (ms : List Msg) : Prop :=
  ∃ f : Device → Option Demand, (s' = s.map fun d => d.meet (f d)) ∧
    heard b ms = s.flatMap fun d => d.announce (f d)

theorem meets_handle {b : Boot} {n p : Node} (hn : Owns n) {stale : CStr} {s s' : List Device}
    {m : Msg} {ms : List Msg} (hs : Sound b n s) (hm : Shape b p n m)
    (hh : completed (n.handle stale s m) = some (s', ms)) : Meets b s s' ms := by
  have hann := (hs.owner_handle hn hm hh).2
  obtain ⟨mes, hcar, -, -⟩ := Shape.owner hn hm
  rw [hn.handle, Pi.handle_carried hcar] at hh
  cases hh
  exact ⟨_, rfl, heard_announced hann⟩

theorem meets_act {b : Boot} {n : Node} (hn : Owns n) {a : Action} {s s' : List Device}
    {ms : List Msg} (hs : Sound b n s) (hh : (protocol b).act n a s = some (s', ms)) :
    Meets b s s' ms := by
  obtain ⟨r, i, rfl, hp⟩ : ∃ r i, a = .sense r i ∧
      completed (Pi.sensorsValuePublish r i s) = some (s', ms) := by
    rcases hn with rfl | rfl <;> cases a with
    | command payload => cases hh
    | sense r i => exact ⟨r, i, rfl, hh⟩
  cases hd : s[i]? with
  | none => rw [Pi.completed_sensorsValuePublish_none hd] at hp; cases hp
  | some d =>
      have hmem : d ∈ s := List.mem_of_getElem? hd
      by_cases hg : d.group = sensors
      · have hquiet : heard b [⟨d.topic, (Mes.reading r).text⟩] = [] := by
          obtain ⟨e, he, hed⟩ := hs.mem_frame hmem
          have htopic : e.topic = d.topic := congrArg Frame.topic hed
          refine List.filter_eq_nil_iff.mpr fun m hm hsub => ?_
          obtain rfl := List.mem_singleton.mp hm
          rw [subscribed_iff, ← htopic] at hsub
          rcases hn with rfl | rfl
          · exact absurd (subscriber_sensed he hsub) (by decide)
          · exact absurd ((congrArg Frame.group hed).trans hg) (group_aktuatorski e he)
        rw [Pi.completed_sensorsValuePublish hd hg] at hp
        cases hp
        refine ⟨_, set_eq_map hs.nodup hd _, ?_⟩
        rw [heard, List.filter_append, ← heard, ← heard, hquiet, List.append_nil,
          heard_announced fun m hm => hs.announced hmem (short_senseDemand r) hm]
        exact announce_eq_flatMap hs.nodup hmem _
      · rw [Pi.completed_sensorsValuePublish_of_ne hd hg] at hp
        cases hp
        exact ⟨fun _ => none, by simp, by simp [heard]⟩

/-! ## The mirror -/

/-- The mirror of one device, if the table has it. -/
def shown (x : CStr) (devices : List Device) : Option View := (lookup x devices).map Device.view

theorem foldl_map_hear (x : CStr) (ms : List Msg) (w : Option View) :
    ms.foldl (fun w m => w.map fun w => hear x w m) w = w.map (ms.foldl (hear x)) := by
  cases w with
  | none => induction ms with
    | nil => rfl
    | cons m ms ih => exact ih
  | some w => induction ms generalizing w with
    | nil => rfl
    | cons m ms ih => exact ih (hear x w m)

/-- What an owner tells brings the view of each of its devices up to date. -/
theorem Meets.shown {b : Boot} {n : Node} {s s' : List Device} {ms : List Msg}
    (h : Meets b s s' ms) (hs : Sound b n s) (x : CStr) :
    (heard b ms).foldl (fun w m => w.map fun w => hear x w m) (shown x s) = shown x s' := by
  obtain ⟨f, rfl, hms⟩ := h
  rw [foldl_map_hear, hms, SmartHome.shown, SmartHome.shown,
    lookup_map (fun d => d.meet_id (f d))]
  cases hd : lookup x s with
  | none => rfl
  | some d => exact congrArg some (foldl_hear_table hs.stored hs.nodup hd)

theorem shown_assignFirst (x : CStr) (p : Property) (id v : Word) (topic : CStr)
    (devices : List Device) :
    shown x (assignFirst p id.text v.text devices) =
      (shown x devices).map fun w => hear x w ⟨topic, (Mes.changed p id v).text⟩ := by
  simp only [shown, lookup_assignFirst, hear_changed, Option.map_map]
  by_cases hx : x = id.text
  · subst hx
    simp [Function.comp_def, view_put]
  · simp [hx, Ne.symm hx, Function.comp_def]

theorem shown_other {b : Boot} {o p : Node} (ho : Owns o) (hp : p ≠ o) {x : CStr}
    (hx : ∃ d ∈ b.table o, d.id = x) {stale : CStr} {s s' : List Device} {m : Msg}
    {ms : List Msg} (hs : Sound b .kontroler s) (hm : Shape b p .kontroler m)
    (hh : completed (Node.kontroler.handle stale s m) = some (s', ms)) :
    shown x s' = shown x s := by
  obtain ⟨d, hd, rfl⟩ := hx
  have hpi : ∀ {n : Node}, (∀ e ∈ b.table n, e.id ≠ d.id) → Announced (b.table n) m →
      shown d.id s' = shown d.id s := by
    intro n hdisj hm
    obtain ⟨p, id, v, -, -, ⟨e, he, heid⟩, ha⟩ := hs.kontroler_announced hm stale
    rw [Node.handle, ha] at hh
    cases hh
    have hne : d.id ≠ id.text := fun h => hdisj e he (heid.trans h.symm)
    rw [shown, shown, lookup_assignFirst, if_neg hne]
  cases p with
  | kontroler => exact absurd hm not_false
  | commandLine =>
      obtain ⟨rfl, -⟩ := Sound.kontroler_command hm.2 hh
      rfl
  | senzorski =>
      rcases ho with rfl | rfl
      · exact absurd rfl hp
      · exact hpi (fun e he => ids_disjoint b e he d hd) hm
  | aktuatorski =>
      rcases ho with rfl | rfl
      · exact hpi (fun e he => (ids_disjoint b d hd e he).symm) hm
      · exact absurd rfl hp

def mirror (b : Boot) {o : Node} (ho : Owns o) {x : CStr} (hx : ∃ d ∈ b.table o, d.id = x) :
    Contract.Mirror (contract b) o .kontroler (Option View) where
  ne := by rcases ho with rfl | rfl <;> decide
  own := shown x
  img := shown x
  apply w m := w.map fun w => hear x w m
  own_handle _ hs hm hh := (meets_handle ho hs hm hh).shown hs x
  own_act _ hs hh := (meets_act ho hs hh).shown hs x
  img_handle := by
    intro stale s m s' ms _ hs hm hh
    have hann : Announced (b.table o) m := by rcases ho with rfl | rfl <;> exact hm
    obtain ⟨p, id, v, hpay, -, -, ha⟩ := Sound.kontroler_announced hs hann stale
    have hh' : completed (Node.kontroler.handle stale s m) = some (s', ms) := hh
    rw [Node.handle, ha] at hh'
    cases hh'
    obtain ⟨topic, payload⟩ := m
    subst hpay
    exact shown_assignFirst x p id v topic s
  img_other hp _ hs hm hh := shown_other ho hp hx hs hm hh
  img_act := by
    intro a s s' ms _ _ hh
    cases a <;> cases hh

theorem shown_table (b : Boot) {o : Node} (ho : Owns o) {x : CStr}
    (hx : ∃ d ∈ b.table o, d.id = x) : shown x (b.table .kontroler) = shown x (b.table o) := by
  obtain ⟨d, hd, rfl⟩ := hx
  have htexts : ∀ d ∈ b.table o, ∃ e ∈ b.table .kontroler,
      e.id = d.id ∧ e.value = d.value ∧ e.info = d.info := by
    rcases ho with rfl | rfl
    · exact of_decide_eq_true rfl
    · exact of_decide_eq_true rfl
  obtain ⟨e, he, hid, hvalue, hinfo⟩ := htexts d hd
  have hview : e.view = d.view := by
    funext p
    cases p
    exacts [hvalue, hinfo]
  rw [shown, shown, (lookup_eq_some_iff (nodup_ids b .kontroler)).mpr ⟨he, hid⟩,
    (lookup_eq_some_iff (nodup_ids b o)).mpr ⟨hd, rfl⟩, Option.map_some, Option.map_some, hview]

/-! ## Agreement -/

/-- A `Get` or a `Set` as it is typed, without a delimiter at its end. -/
def PlainCommand (payload : CStr) : Prop :=
  payload.length ≤ 39 ∧ ∃ m : Mes, m.IsCommand ∧ payload = m.text

theorem PlainCommand.userCommand {payload : CStr} : PlainCommand payload → UserCommand payload
  | ⟨hlen, m, hcmd, htext⟩ => ⟨hlen, m, hcmd, Or.inl htext⟩

/-- In every reachable configuration the controller has an entry for each device of a Pi; what
the owner has announced and the controller not yet handled, replayed on that entry, gives the
owner's value and info, and with nothing in flight they are equal. -/
theorem mirror_agrees {b : Boot} {c : Sys}
    (h : Reachable (protocol b) (CommandsIn PlainCommand) b.start c) {o : Node} (ho : Owns o)
    {d : Device} (hd : d ∈ c.node o) :
    (∃ e ∈ c.node .kontroler, e.id = d.id) ∧
      ∀ e ∈ c.node .kontroler, e.id = d.id →
        (c.link o .kontroler).foldl (hear d.id) e.view = d.view ∧
          (Quiescent c → e.value = d.value ∧ e.info = d.info) := by
  have hr := h.mono (CommandsIn.mono fun _ => PlainCommand.userCommand)
  have hc := contract_holds hr
  have hx : ∃ d' ∈ b.table o, d'.id = d.id := by
    obtain ⟨d', hd', hf⟩ := (hc.node o).mem_frame hd
    exact ⟨d', hd', congrArg Frame.id hf⟩
  have hown : lookup d.id (c.node o) = some d :=
    (lookup_eq_some_iff (hc.node o).nodup).mpr ⟨hd, rfl⟩
  have hagree : (shown d.id (c.node .kontroler)).map ((c.link o .kontroler).foldl (hear d.id)) =
      some d.view := by
    have h := (mirror b ho hx).agrees (sound_table b) (shown_table b ho hx) hr
    simp only [Contract.Mirror.Agrees, mirror, foldl_map_hear] at h
    rw [h, shown, hown, Option.map_some]
  obtain ⟨e, he⟩ := (hc.node .kontroler).lookup_announced hx
  refine ⟨⟨e, lookup_some he⟩, fun e' he' hid => ?_⟩
  have hfold : (c.link o .kontroler).foldl (hear d.id) e'.view = d.view := by
    rw [shown, (lookup_eq_some_iff (hc.node .kontroler).nodup).mpr ⟨he', hid⟩] at hagree
    exact Option.some.inj hagree
  refine ⟨hfold, fun hq => ?_⟩
  rw [hq o .kontroler, List.foldl_nil] at hfold
  exact ⟨congrFun hfold .value, congrFun hfold .info⟩

/-- `Set_Dev_Value.light_bulb.ON`, up to the point where the owner has announced it and the
controller has not heard. -/
def lightRun : List SysEvent :=
  [.act .commandLine (.command "Set_Dev_Value.light_bulb.ON".toList),
   .deliver .commandLine .kontroler [], .deliver .kontroler .aktuatorski []]

def lightOn : Device := { actuator "light_bulb" "home/hallway/fingerprint" with value := on }

/-- The same run when everything has been heard. -/
def lightHeard : List SysEvent :=
  lightRun ++ [.deliver .aktuatorski .kontroler [], .deliver .kontroler .commandLine []]

theorem mirror_agrees_light :
    Quiescent (Boot.zero.after lightHeard) ∧ ∀ es ∈ [lightRun, lightHeard],
      (∃ e ∈ (Boot.zero.after es).node .kontroler, e.id = lightOn.id) ∧
        ∀ e ∈ (Boot.zero.after es).node .kontroler, e.id = lightOn.id →
          ((Boot.zero.after es).link .aktuatorski .kontroler).foldl (hear lightOn.id) e.view
              = lightOn.view ∧
            (Quiescent (Boot.zero.after es) →
              e.value = lightOn.value ∧ e.info = lightOn.info) := by
  have hcmd : PlainCommand "Set_Dev_Value.light_bulb.ON".toList :=
    ⟨by decide, .set .value ⟨"light_bulb".toList, by decide⟩ ⟨"ON".toList, by decide⟩, trivial, rfl⟩
  have hlinks : ∀ p ∈ [Node.commandLine, .kontroler, .senzorski, .aktuatorski],
      ∀ n ∈ [Node.commandLine, .kontroler, .senzorski, .aktuatorski],
        (Boot.zero.after lightHeard).link p n = [] := by decide +kernel
  constructor
  · intro p n
    exact hlinks p (by cases p <;> decide) n (by cases n <;> decide)
  intro es hes
  have hreach : Reachable (protocol Boot.zero) (CommandsIn PlainCommand) Boot.zero.start
      (Boot.zero.after es) := by
    rcases List.mem_pair.mp hes with rfl | rfl
    · exact Boot.reachable_after (by decide +kernel) ⟨hcmd, trivial, trivial⟩
    · exact Boot.reachable_after (by decide +kernel) ⟨hcmd, trivial, trivial, trivial, trivial⟩
  have hlight : lightOn ∈ (Boot.zero.after es).node .aktuatorski := by
    rcases List.mem_pair.mp hes with rfl | rfl <;> decide +kernel
  exact mirror_agrees hreach (o := .aktuatorski) (Or.inr rfl) hlight

end SmartHome
