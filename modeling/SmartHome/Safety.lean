/-
# `Safety` — the shipped programs do not crash each other

Under the contract of the closed system no handler stops, every string fits the
buffer it is written to and every index is inside its table.  The lengths are
those of `Device.Stored` and of a command; the longest text anywhere is the
listing of all devices.
-/
import SmartHome.Commands

namespace SmartHome

open Traced PubSub

/-! ## Effects that are safe -/

/-- The text fits, the index is inside a table of `len` devices. -/
def Effect.Safe (len : Nat) (e : Effect) : Prop := e.Fits ∧ e.InTable len

instance (len : Nat) : DecidablePred (Effect.Safe len) :=
  fun _ => inferInstanceAs (Decidable (_ ∧ _))

section SafeEffects

variable {len : Nat}

@[simp] theorem safe_write {dest : Buffer} {text : CStr} :
    (Effect.write dest text).Safe len ↔ text.length + 1 ≤ dest.size := by
  simp [Effect.Safe, Effect.Fits, Effect.InTable]

@[simp] theorem safe_publish (topic payload : CStr) : (Effect.publish topic payload).Safe len := by
  simp [Effect.Safe, Effect.Fits, Effect.InTable]

theorem safe_access {k : Nat} (h : k < len) : (Effect.access k).Safe len :=
  ⟨trivial, Int.natCast_nonneg k, Int.ofNat_lt.mpr h⟩

theorem length_sprintfChanged (id property value : CStr) :
    (sprintfChanged id property value).length =
      18 + id.length + property.length + value.length := by
  have htype : MesType.propertyChanged.length = 15 := rfl
  simp only [sprintfChanged, List.length_append, List.length_cons, htype]
  omega

/-! ## The owners -/

theorem safe_storeAndPublish {d : Device} (h : d.id.length ≤ 24) (p : Property) {v : CStr} :
    (storeAndPublish p v d).Emits (Effect.Safe len) ↔ v.length ≤ 99 := by
  have hname : p.name.length ≤ 5 := by cases p <;> decide
  have hbuffer : p.buffer.size = 100 := by cases p <;> rfl
  have hsize : Buffer.deviceMessage.size = 400 := rfl
  simp only [storeAndPublish, emits_write_bind, emits_publish_bind, emits_pure, safe_write,
    safe_publish, and_true, hbuffer, hsize, length_sprintfChanged, Property.id_put,
    Property.get_put]
  omega

theorem safe_setDevBody {d : Device} (h : d.id.length ≤ 24) (p : Property) (id v : CStr) :
    (setDevBody p (some id) (some v) d).Emits (Effect.Safe len) ↔
      (d.id = id → v.length ≤ 99) := by
  simp only [setDevBody, use_some, pure_bind]
  split
  · rename_i hid
    rw [safe_storeAndPublish h]
    exact ⟨fun hv _ => hv, fun hv => hv hid⟩
  · rename_i hid
    exact iff_of_true (emits_pure _ _) fun h => absurd h hid

theorem emits_automationBody {d : Device} (h : d.id.length ≤ 24) (topic : CStr) (n : Int32) :
    (automationBody topic n d).Emits (Effect.Safe len) := by
  have hnew : (checkDeviceCondition d.condition n).length ≤ 3 := by
    unfold checkDeviceCondition
    split <;> decide
  unfold automationBody
  split
  · refine emits_write_bind.mpr ⟨safe_write.mpr ?_, ?_⟩
    · exact Nat.succ_le_succ (hnew.trans (by decide))
    · split
      · exact (safe_storeAndPublish h .value).mpr (hnew.trans (by decide))
      · exact emits_pure _ _
  · exact emits_pure _ _

section Tables

variable {devices : List Device} (hid : ∀ d ∈ devices, d.id.length ≤ 24)

include hid

theorem safe_setDev (p : Property) (t id v : CStr) (rest : List CStr) :
    (setDev p (t :: id :: v :: rest) devices).Emits (Effect.Safe len) ↔
      ((∃ d ∈ devices, d.id = id) → v.length ≤ 99) := by
  have hload : load (t :: id :: v :: rest) 1 = pure (some id) := load_of_lt rfl
  have hnew : load (t :: id :: v :: rest) 2 = pure (some v) := load_of_lt rfl
  have hreturns : ∀ d, ∃ d', (setDevBody p (some id) (some v) d).outcome = .ok d' := by
    intro d
    rw [setDevBody, use_some, pure_bind]
    split
    · exact ⟨_, (completed_eq_some.mp (completed_storeAndPublish p v d)).1⟩
    · exact ⟨d, rfl⟩
  simp only [setDev, hload, hnew, pure_bind]
  rw [emits_sweep_iff hreturns]
  constructor
  · rintro h ⟨d, hd, rfl⟩
    exact (safe_setDevBody (hid d hd) p d.id v).mp (h d hd) rfl
  · intro h d hd
    exact (safe_setDevBody (hid d hd) p id v).mpr fun hdid => h ⟨d, hd, hdid⟩

theorem emits_automationControl (tokens : List CStr) (topic : CStr) :
    (automationControl tokens topic devices).Emits (Effect.Safe len) := by
  refine (emits_load tokens 1).bind fun arg _ => (emits_use arg).bind fun arg' _ => ?_
  refine (emits_use _).bind fun valueToken _ => Emits.sweep fun d hd => ?_
  exact emits_automationBody (hid d hd) topic (atoi valueToken)

end Tables

theorem emits_setDev_pair (p : Property) (t id : CStr) (devices : List Device)
    {P : Effect → Prop} : (setDev p [t, id] devices).Emits P := by
  have hload : load [t, id] 1 = pure (some id) := rfl
  have hnew : load [t, id] 2 = pure none := rfl
  simp only [setDev, hload, hnew, pure_bind]
  refine Emits.sweep fun d _ => ?_
  rw [setDevBody, use_some, pure_bind]
  split
  · exact emits_stop _ _
  · exact emits_pure _ _

theorem Pi.emits_handle {m : Mes} {payload : CStr} (h : m.Carried payload)
    (hlen : payload.length ≤ 80) (topic : CStr) {devices : List Device}
    (hst : ∀ d ∈ devices, d.Stored) :
    (Pi.handle devices topic payload).Emits (Effect.Safe len) := by
  have hsplit : strSplit (Pi.publishCallback topic payload).mes delimiter = pure m.tokens := by
    rw [Pi.publishCallback, h.stringCpy, h.strSplit]
  have hid : ∀ d ∈ devices, d.id.length ≤ 24 := fun d hd => (hst d hd).id_length
  rw [Pi.handle]
  cases m with
  | get p id =>
      rw [Pi.distributePubMessage_of_split hsplit]
      cases p <;>
        rw [if_neg (by decide), if_neg (by decide), if_neg (by decide)] <;> exact emits_pure _ _
  | changed p id v =>
      rw [Pi.distributePubMessage_of_split hsplit, if_neg (by decide), if_neg (by decide),
        if_neg (by decide)]
      exact emits_pure _ _
  | set p id v =>
      have hv : v.text.length ≤ 80 := (h.length_word_le (w := v) (by simp [Mes.words])).trans hlen
      have hset : ∀ t : CStr, (setDev p [t, id.text, v.text] devices).Emits (Effect.Safe len) := by
        intro t
        exact (safe_setDev hid p t id.text v.text []).mpr fun _ => hv.trans (by decide)
      rw [Pi.distributePubMessage_of_split hsplit]
      cases p with
      | value =>
          rw [if_neg (by decide), if_neg (by decide), if_pos (by decide)]
          exact hset _
      | info =>
          rw [if_neg (by decide), if_pos (by decide)]
          exact hset _
  | reading n =>
      rw [Pi.distributePubMessage_of_split hsplit, if_pos (by decide)]
      exact emits_automationControl hid _ _

theorem emits_updateSensorsValue {devices : List Device} {i : Nat} {d : Device}
    (hd : devices[i]? = some d) (hst : d.Stored) (hi : i < len) (r : Int32) :
    (updateSensorsValue r i devices).Emits (Effect.Safe len) := by
  have hr := length_readingText_le r
  have hsize : Buffer.pinText.size = 20 := rfl
  rw [updateSensorsValue, emits_access_bind hd]
  refine ⟨safe_access hi, ?_⟩
  simp only [readPin, bind_assoc, pure_bind, emits_write_bind, safe_write, hsize]
  refine ⟨by omega, ?_⟩
  split
  · refine ((safe_storeAndPublish hst.id_length .value).mpr ?_).bind fun _ _ => emits_pure _ _
    omega
  · exact emits_pure _ _

theorem Pi.emits_sensorsValuePublish {devices : List Device} (hst : ∀ d ∈ devices, d.Stored)
    {i : Nat} (hi : i < devices.length) (r : Int32) :
    (Pi.sensorsValuePublish r i devices).Emits (Effect.Safe devices.length) := by
  have hd : devices[i]? = some devices[i] := List.getElem?_eq_getElem hi
  have hdst := hst _ (List.mem_of_getElem? hd)
  rw [Pi.sensorsValuePublish, emits_access_bind hd]
  refine ⟨safe_access hi, ?_⟩
  split
  · refine (emits_updateSensorsValue hd hdst hi r).bind fun devices' hdevices' => ?_
    obtain rfl : devices.set i (devices[i].meet (senseDemand r)) = devices' := by
      have h := (completed_eq_some.mp (completed_updateSensorsValue hd r)).1
      exact Except.ok.inj (h.symm.trans hdevices')
    have hd' : (devices.set i (devices[i].meet (senseDemand r)))[i]? =
        some (devices[i].meet (senseDemand r)) := List.getElem?_set_self hi
    have hvalue := (hdst.meet (short_senseDemand r)).length .value
    have htype : MesType.sensorMes.length = 10 := rfl
    have hsize : Buffer.sensorMessage.size = 120 := rfl
    rw [emits_access_bind hd']
    simp only [emits_write_bind, emits_publish_bind, emits_pure, safe_write, safe_publish,
      and_true, hsize, List.length_append, List.length_cons, htype]
    refine ⟨safe_access hi, ?_⟩
    simp only [Property.get] at hvalue
    omega
  · exact emits_pure _ _

/-! ## The controller -/

/-- A text that fits the copy the controller splits fits the buffer it answers from. -/
theorem emits_forwardSet (p : Property) (topic : CStr) {mes : CStr} (h : mes.length ≤ 199) :
    (Kontroler.forwardSet (Kontroler.acknowledgement p) topic mes).Emits (Effect.Safe len) := by
  have hack : (Kontroler.acknowledgement p).length ≤ 199 := by cases p <;> decide
  have hsize : Buffer.reply.size = 200 := rfl
  simp only [Kontroler.forwardSet, emits_write_bind, emits_publish_bind, emits_publish, safe_write,
    safe_publish, true_and, and_true, hsize]
  omega

theorem length_listed_le {d : Device} (h : d.Stored) (p : Property) :
    (Kontroler.listed p d).length ≤ 108 := by
  have hid := h.id_length
  have hinfo := h.length .info
  have hvalue := h.length .value
  have hnl : "\n".toList.length = 1 := rfl
  have hsep : " : ".toList.length = 3 := rfl
  simp only [Property.get] at hinfo hvalue
  cases p <;> simp only [Kontroler.listed, List.length_append, hnl, hsep] <;> omega

theorem length_flatMap_listed_le {devices : List Device} (h : ∀ d ∈ devices, d.Stored)
    (p : Property) : (devices.flatMap (Kontroler.listed p)).length ≤ 108 * devices.length := by
  induction devices with
  | nil => exact Nat.le_refl _
  | cons d ds ih =>
      obtain ⟨hd, hds⟩ := List.forall_mem_cons.mp h
      have := length_listed_le hd p
      have := ih hds
      rw [List.flatMap_cons, List.length_append, List.length_cons]
      omega

theorem safe_strcat_bind {α : Type} {message s : CStr} {f : CStr → Exec α} :
    (Kontroler.strcat message s >>= f).Emits (Effect.Safe len) ↔
      message.length + s.length ≤ 1399 ∧ (f (message ++ s)).Emits (Effect.Safe len) := by
  have hsize : Buffer.listing.size = 1400 := rfl
  rw [Kontroler.emits_strcat_bind, safe_write, List.length_append, hsize, Nat.succ_le_succ_iff]

/-- The buffer holds a prefix of the listing at every point of the loop. -/
theorem safe_listLoop (p : Property) : ∀ (devices : List Device) (message : CStr),
    message.length + (devices.flatMap (Kontroler.listed p)).length ≤ 1399 →
      (Kontroler.listLoop p devices message).Emits (Effect.Safe len)
  | [], _, _ => by cases p <;> exact emits_pure _ _
  | d :: ds, message, h => by
      have ih := safe_listLoop p ds
      cases p with
      | info =>
          simp only [Kontroler.listLoop] at ih
          simp only [Kontroler.listLoop, Kontroler.listInfo, safe_strcat_bind]
          simp only [List.flatMap_cons, Kontroler.listed, List.length_append] at h
          refine ⟨by omega, ?_, ih _ ?_⟩ <;> simp only [List.length_append] <;> omega
      | value =>
          simp only [Kontroler.listLoop] at ih
          simp only [Kontroler.listLoop, Kontroler.listValue, safe_strcat_bind]
          simp only [List.flatMap_cons, Kontroler.listed, List.length_append] at h
          refine ⟨by omega, ?_, ?_, ?_, ih _ ?_⟩ <;> simp only [List.length_append] <;> omega

theorem emits_answerGet_one {devices : List Device} {p : Property} {x : CStr} {d : Device}
    (hx : x ≠ allDevices) (hd : lookup x devices = some d) (hget : (p.get d).length ≤ 199)
    (stale : CStr) : (Kontroler.answerGet p (Kontroler.listLoop p) stale x devices).Emits
      (Effect.Safe devices.length) := by
  rcases Kontroler.findDevice_cases x devices with ⟨hn, -⟩ | ⟨k, e, hl, hf, hk, -⟩
  · rw [hd] at hn; cases hn
  · obtain rfl : e = d := Option.some.inj (hl.symm.trans hd)
    have hsize : Buffer.reply.size = 200 := rfl
    rw [Kontroler.answerGet, if_pos hx, hf, emits_access_bind hk]
    refine ⟨safe_access (List.getElem?_eq_some_iff.mp hk).1, ?_⟩
    simp only [emits_write_bind, emits_publish, safe_write, safe_publish, and_true, hsize]
    omega

theorem emits_answerGet {devices : List Device} (hst : ∀ d ∈ devices, d.Stored)
    (hlen : devices.length ≤ 12) (p : Property) {x : CStr} (hx : Kontroler.Known devices x) :
    (Kontroler.answerGet p (Kontroler.listLoop p) [] x devices).Emits
      (Effect.Safe devices.length) := by
  by_cases hall : x = allDevices
  · rw [Kontroler.answerGet, if_neg (not_not_intro hall), safe_strcat_bind]
    refine ⟨by decide, Emits.bind ?_ fun _ _ => emits_publish.mpr (safe_publish _ _)⟩
    refine safe_listLoop p devices _ ?_
    have hnl : ([] ++ "\n".toList).length = 1 := rfl
    have := length_flatMap_listed_le hst p
    omega
  · obtain ⟨d, hd⟩ := Option.isSome_iff_exists.mp (hx.resolve_left hall)
    have hget := (hst d (lookup_some hd).1).length p
    exact emits_answerGet_one hall hd (hget.trans (by decide)) []

theorem safe_storeChanged (devices : List Device) (p : Property) (x v : CStr) :
    (Kontroler.storeChanged p (Kontroler.findDevice x devices) (some v) devices).Emits
      (Effect.Safe devices.length) ↔ (lookup x devices).isSome = true ∧ v.length ≤ 99 := by
  have hbuffer : p.buffer.size = 100 := by cases p <;> rfl
  rw [Kontroler.storeChanged, use_some, pure_bind]
  rcases Kontroler.findDevice_cases x devices with ⟨hn, hf⟩ | ⟨k, d, hl, hf, hk, -⟩
  · rw [hn, hf]
    refine iff_of_false (fun h => ?_) (by simp)
    exact absurd (h (.access (-1)) List.mem_cons_self).2.1 (by decide)
  · have hin := safe_access (List.getElem?_eq_some_iff.mp hk).1
    rw [hl, hf, emits_access_bind hk]
    simp only [emits_write_bind, emits_pure, safe_write, and_true, hbuffer, hin, true_and,
      Option.isSome_some]
    omega

theorem Kontroler.emits_handle {m : Mes} {payload : CStr} (h : m.Carried payload)
    {x : Word} (hx : Kontroler.target m = some x) (hpay : payload.length ≤ 199)
    (hwords : ∀ p id v, m = .changed p id v → v.text.length ≤ 80)
    {devices : List Device} (hst : ∀ d ∈ devices, d.Stored) (hlen : devices.length ≤ 12)
    (hknown : ∀ p id v, m = .changed p id v → ∃ d, lookup id.text devices = some d)
    (topicName : List Char) :
    (Kontroler.handle [] devices topicName payload).Emits (Effect.Safe devices.length) := by
  have hsplit : strSplit (stringCpy payload) delimiter = pure m.tokens := by
    rw [h.stringCpy, h.strSplit]
  obtain ⟨t, ts, ht⟩ : ∃ t ts, m.tokens = t :: x.text :: ts := by
    cases m <;> simp only [Kontroler.target, Option.some.injEq, reduceCtorEq] at hx
    all_goals subst hx; exact ⟨_, _, rfl⟩
  have hcopy : (Effect.write .messageCpy payload).Safe devices.length := by
    have hsize : Buffer.messageCpy.size = 200 := rfl
    rw [safe_write, hsize]
    omega
  rw [ht] at hsplit
  rw [Kontroler.handle_of_split hsplit, h.stringCpy, ← ht, emits_write_bind]
  refine ⟨hcopy, ?_⟩
  split
  · rename_i hk
    rw [emits_write_bind]
    refine ⟨hcopy, ?_⟩
    cases m with
    | get p id =>
        cases hx
        rw [Kontroler.dispatch_get, emits_map]
        exact emits_answerGet hst hlen p hk
    | set p id v =>
        rw [Kontroler.dispatch_set, emits_map]
        exact emits_forwardSet p _ hpay
    | changed p id v =>
        obtain ⟨d, hd⟩ := hknown p id v rfl
        rw [Kontroler.dispatch_changed]
        have hsome : (lookup id.text devices).isSome = true := by rw [hd]; rfl
        exact (safe_storeChanged devices p id.text v.text).mpr
          ⟨hsome, (hwords p id v rfl).trans (by decide)⟩
    | reading n => cases hx
  · rw [emits_map]
    exact emits_publish.mpr (safe_publish _ _)

end SafeEffects

/-! ## Every handler, in every reachable configuration -/

def Node.tokensRead : Node → CStr → Nat
  | .commandLine => fun _ => 0
  | .kontroler => Kontroler.tokensRead
  | .senzorski | .aktuatorski => Pi.tokensRead

/-- A handler's run on a message: the asserts of `str_split` hold, the tokens it reads are
there, it returns, every text fits and every index is inside the table. -/
structure SafeRun (n : Node) (devices : List Device) (m : Msg) : Prop where
  split : ∃ t ts, strSplit (stringCpy m.payload) delimiter = pure (t :: ts) ∧
    n.tokensRead t ≤ (t :: ts).length
  returns : ∃ devices', (n.handle [] devices m).outcome = .ok devices'
  effects : (n.handle [] devices m).Emits (Effect.Safe devices.length)

theorem returns_of_completed {α : Type} {x : Exec α} {r : α × List Msg} (h : completed x = some r) :
    ∃ a, x.outcome = .ok a := ⟨r.1, (completed_eq_some.mp h).1⟩

/-- A message has the tokens its handler reads. -/
theorem split_of_carried (n : Node) {m : Mes} {payload : CStr} (h : m.Carried payload) :
    ∃ t ts, strSplit (stringCpy payload) delimiter = pure (t :: ts) ∧
      n.tokensRead t ≤ (t :: ts).length := by
  rw [h.stringCpy, h.strSplit]
  cases m with
  | get p _ =>
      refine ⟨_, _, rfl, ?_⟩
      cases n <;> cases p <;> exact Nat.le_of_ble_eq_true rfl
  | set p _ _ =>
      refine ⟨_, _, rfl, ?_⟩
      cases n <;> cases p <;> exact Nat.le_of_ble_eq_true rfl
  | changed p _ _ =>
      refine ⟨_, _, rfl, ?_⟩
      cases n <;> cases p <;> exact Nat.le_of_ble_eq_true rfl
  | reading r =>
      refine ⟨_, _, rfl, ?_⟩
      cases n <;> exact Nat.le_of_ble_eq_true rfl

theorem Sound.safeRun_owner {b : Boot} {p n : Node} (hn : Owns n) {devices : List Device}
    (hs : Sound b n devices) {m : Msg} (hm : Shape b p n m) : SafeRun n devices m := by
  obtain ⟨mes, hcar, hlen, -⟩ := Shape.owner hn hm
  exact {
    split := split_of_carried n hcar
    returns := by rw [hn.handle]; exact returns_of_completed (Pi.handle_carried hcar _ _)
    effects := by rw [hn.handle]; exact Pi.emits_handle hcar hlen _ hs.stored }

theorem Sound.safeRun {b : Boot} {p n : Node} (hn : n ≠ .commandLine) {devices : List Device}
    (hs : Sound b n devices) {m : Msg} (hm : Shape b p n m) : SafeRun n devices m := by
  cases n with
  | commandLine => exact absurd rfl hn
  | kontroler =>
      have hlen : devices.length ≤ 12 := Nat.le_of_eq hs.length
      cases p with
      | kontroler => exact absurd hm not_false
      | commandLine =>
          obtain ⟨-, hpay, mes, hcmd, hcar⟩ := hm
          obtain ⟨answer, ha⟩ := Kontroler.handle_command [] devices m.topic hcar hcmd
          obtain ⟨x, hx⟩ : ∃ x, Kontroler.target mes = some x := by
            cases mes with
            | get _ id | set _ id _ => exact ⟨id, rfl⟩
            | changed _ _ _ | reading _ => exact absurd hcmd not_false
          have hne : ∀ p id v, mes ≠ .changed p id v := by rintro p id v rfl; exact hcmd
          exact {
            split := split_of_carried .kontroler hcar
            returns := returns_of_completed ha
            effects := Kontroler.emits_handle hcar hx (hpay.trans (by decide))
              (fun p id v h => absurd h (hne p id v)) hs.stored hlen
              (fun p id v h => absurd h (hne p id v)) _ }
      | senzorski | aktuatorski =>
          obtain ⟨p, id, v, hpay, hv, hid, ha⟩ := hs.kontroler_announced hm []
          have hcar : (Mes.changed p id v).Carried m.payload := Or.inl hpay
          have hidlen : id.text.length ≤ 24 := by
            obtain ⟨d, hd, heq⟩ := hid
            exact heq ▸ ((sound_table b _).stored d hd).id_length
          exact {
            split := split_of_carried .kontroler hcar
            returns := returns_of_completed ha
            effects := by
              refine Kontroler.emits_handle hcar rfl ?_ ?_ hs.stored hlen ?_ _
              · have hname : p.name.length ≤ 5 := by cases p <;> decide
                rw [hpay, Mes.text_changed, length_sprintfChanged]
                omega
              · intro p' id' v' h; cases h; exact hv
              · intro p' id' v' h; cases h; exact hs.lookup_announced hid }
  | senzorski => exact hs.safeRun_owner (Or.inl rfl) hm
  | aktuatorski => exact hs.safeRun_owner (Or.inr rfl) hm

/-- In every reachable configuration of the closed system, on clean stacks: every message in
flight to the controller or a Pi is handled safely, and so is every pass of a sensor loop. -/
theorem nodes_safe {b : Boot} {c : Sys}
    (h : Reachable (protocol b) (fun e => CommandsIn Typed e ∧ CleanStack e) b.start c) :
    (∀ p n : Node, n ≠ .commandLine → ∀ m ∈ c.link p n, SafeRun n (c.node n) m) ∧
      ∀ (n : Node) (r : Int32) (i : Nat), i < (c.node n).length →
        ∀ loop, n.act (.sense r i) (c.node n) = some loop →
          (∃ devices, loop.outcome = .ok devices) ∧ loop.Emits (Effect.Safe (c.node n).length) := by
  have hc : (contract b).Holds c := by
    refine contract_holds (h.mono fun e he => ?_)
    exact CommandsIn.mono (fun _ => Typed.userCommand) e he.1
  refine ⟨fun p n hn m hm => (hc.node n).safeRun hn (hc.link p n m hm), ?_⟩
  intro n r i hi loop hloop
  obtain rfl : loop = Pi.sensorsValuePublish r i (c.node n) := by
    cases n <;> cases hloop <;> rfl
  refine ⟨?_, Pi.emits_sensorsValuePublish (hc.node n).stored hi r⟩
  have hd : (c.node n)[i]? = some (c.node n)[i] := List.getElem?_eq_getElem hi
  by_cases hg : (c.node n)[i].group = sensors
  · exact returns_of_completed (Pi.completed_sensorsValuePublish hd hg r)
  · exact returns_of_completed (Pi.completed_sensorsValuePublish_of_ne hd hg r)

/-- A reading is announced, and a user asks for the list of all devices. -/
def listingRun : List SysEvent :=
  [.act .senzorski (.sense 30 0), .act .commandLine (.command "Get_Dev_Info.*".toList)]

theorem nodes_safe_listing :
    SafeRun .kontroler ((Boot.zero.after listingRun).node .kontroler)
      ⟨Topic.controler, "Get_Dev_Info.*".toList⟩ := by
  have hcmd : Typed "Get_Dev_Info.*".toList :=
    UserCommand.typed ⟨by decide, .get .info ⟨allDevices, by decide⟩, trivial, Or.inl rfl⟩
  have hreach : Reachable (protocol Boot.zero) (fun e => CommandsIn Typed e ∧ CleanStack e)
      Boot.zero.start (Boot.zero.after listingRun) :=
    Boot.reachable_after (by decide +kernel) ⟨⟨trivial, trivial⟩, hcmd, trivial⟩
  exact (nodes_safe hreach).1 .commandLine .kontroler (by decide) _ (by decide +kernel)

end SmartHome
