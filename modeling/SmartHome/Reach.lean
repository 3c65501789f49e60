/-
# `Reach` — the tables a node can have

A handler rewrites the table entry by entry.  For one entry there are three ways: it
stays, `automation_control` switches it, or the text the message carries for its id
goes into one of its fields (`Node.handle_rewrites`).  What every reachable table has
in common follows from that alone.
-/
import SmartHome.Malformed

namespace SmartHome

open Traced Fields

/-- What `set_dev_value` and `set_dev_info` copy from the tokens into the table. -/
def Pi.stores : List CStr → Option Store
  | t :: id :: new :: _ =>
      if t = MesType.setDevInfo then some ⟨.info, id, new⟩
      else if t = MesType.setDevValue then some ⟨.value, id, new⟩
      else none
  | _ => none

def Node.stores : Node → List CStr → Option Store
  | .commandLine => fun _ => none
  | .kontroler => Kontroler.stores
  | .senzorski | .aktuatorski => Pi.stores

/-- An entry before and after a message that carries `r`. -/
def Rewrites (r : Option Store) (d d' : Device) : Prop :=
  d' = d ∨ (∃ n, d' = Property.value.put (checkDeviceCondition d.condition n) d) ∨
    ∃ s ∈ r, s.id = d.id ∧ d' = s.property.put s.text d

theorem Rewrites.frame {r : Option Store} {d d' : Device} (h : Rewrites r d d') :
    d'.frame = d.frame := by
  rcases h with rfl | ⟨n, rfl⟩ | ⟨s, -, -, rfl⟩
  · rfl
  · exact Property.frame_put _ _ _
  · exact Property.frame_put _ _ _

theorem rewrites_refl (r : Option Store) (devices : List Device) :
    List.Forall₂ (Rewrites r) devices devices :=
  List.forall₂_same.mpr fun _ _ => Or.inl rfl

/-! ## The controller -/

theorem rewrites_assignFirst {r : Option Store} {s : Store} (hs : s ∈ r) :
    ∀ devices : List Device,
      List.Forall₂ (Rewrites r) devices (assignFirst s.property s.id s.text devices)
  | [] => .nil
  | d :: ds => by
      rw [assignFirst]
      split
      · rename_i hid
        exact .cons (Or.inr (Or.inr ⟨s, hs, hid.symm, rfl⟩)) (rewrites_refl r ds)
      · exact .cons (Or.inl rfl) (rewrites_assignFirst hs ds)

/-! ## The Pis -/

namespace Pi

theorem load_ok {tokens : List CStr} {k : Nat} {slot : Option CStr}
    (h : (load tokens k).outcome = .ok slot) : slot = tokens[k]? := by
  unfold load at h
  split at h
  · exact (Except.ok.inj h).symm
  · cases h

theorem use_ok {slot : Option CStr} {s : CStr} (h : (use slot).outcome = .ok s) :
    slot = some s := by
  cases slot with
  | none => cases h
  | some s' => exact congrArg some (Except.ok.inj h)

theorem outcome_storeAndPublish {p : Property} {new : CStr} {d d' : Device}
    (h : (storeAndPublish p new d).outcome = .ok d') : d' = p.put new d := by
  have hc := (completed_eq_some.mp (completed_storeAndPublish p new d)).1
  exact Except.ok.inj (h.symm.trans hc)

theorem rewrites_setDev {p : Property} {tokens : List CStr} {devices devices' : List Device}
    (h : (setDev p tokens devices).outcome = .ok devices') :
    List.Forall₂ (fun d d' => d' = d ∨ (tokens[1]? = some d.id ∧
      ∃ v, tokens[2]? = some v ∧ d' = p.put v d)) devices devices' := by
  obtain ⟨id, hid, h⟩ := outcome_bind_eq_ok.mp h
  obtain ⟨new, hnew, h⟩ := outcome_bind_eq_ok.mp h
  refine (outcome_sweep h).imp fun d d' hd => ?_
  obtain ⟨x, hx, hd⟩ := outcome_bind_eq_ok.mp hd
  split at hd
  · rename_i hdx
    obtain ⟨v, hv, hd⟩ := outcome_bind_eq_ok.mp hd
    refine Or.inr ⟨?_, v, ?_, outcome_storeAndPublish hd⟩
    · rw [← load_ok hid, use_ok hx, hdx]
    · rw [← load_ok hnew, use_ok hv]
  · exact Or.inl (Except.ok.inj hd).symm

theorem rewrites_automationControl (r : Option Store) {tokens : List CStr} {topic : CStr}
    {devices devices' : List Device}
    (h : (automationControl tokens topic devices).outcome = .ok devices') :
    List.Forall₂ (Rewrites r) devices devices' := by
  obtain ⟨_, -, h⟩ := outcome_bind_eq_ok.mp h
  obtain ⟨_, -, h⟩ := outcome_bind_eq_ok.mp h
  obtain ⟨value, -, h⟩ := outcome_bind_eq_ok.mp h
  refine (outcome_sweep h).imp fun d d' hd => ?_
  unfold automationBody at hd
  split at hd
  · obtain ⟨_, -, hd⟩ := outcome_bind_eq_ok.mp hd
    split at hd
    · exact Or.inr (Or.inl ⟨atoi value, outcome_storeAndPublish hd⟩)
    · exact Or.inl (Except.ok.inj hd).symm
  · exact Or.inl (Except.ok.inj hd).symm

theorem handle_rewrites {devices devices' : List Device} {topicName : List Char}
    {applicationMessage : List Char}
    (h : (handle devices topicName applicationMessage).outcome = .ok devices') :
    List.Forall₂ (Rewrites (stores (fields delimiter (stringCpy applicationMessage))))
      devices devices' := by
  obtain ⟨t, ts, hf, hsplit⟩ := split_of_ok h
  rw [handle, distributePubMessage_of_split hsplit] at h
  rw [hf]
  have hset : ∀ {p : Property} {d d' : Device},
      (∀ id v rest, ts = id :: v :: rest → (⟨p, id, v⟩ : Store) ∈ stores (t :: ts)) →
      (d' = d ∨ ((t :: ts)[1]? = some d.id ∧ ∃ v, (t :: ts)[2]? = some v ∧ d' = p.put v d)) →
      Rewrites (stores (t :: ts)) d d' := by
    intro p d d' hmem hd
    rcases hd with rfl | ⟨hid, v, hv, rfl⟩
    · exact Or.inl rfl
    · rcases ts with _ | ⟨id, _ | ⟨v', rest⟩⟩
      · cases hid
      · cases hv
      · cases hid
        cases hv
        exact Or.inr (Or.inr ⟨⟨p, d.id, v⟩, hmem _ _ _ rfl, rfl, rfl⟩)
  split at h
  · exact rewrites_automationControl _ h
  split at h
  · rename_i ht
    refine (rewrites_setDev h).imp fun d d' => hset ?_
    rintro id v rest rfl
    simp [stores, ht]
  split at h
  · rename_i hi ht
    refine (rewrites_setDev h).imp fun d d' => hset ?_
    rintro id v rest rfl
    simp only [stores, if_neg hi, if_pos ht, Option.mem_def]
  · cases h
    exact rewrites_refl _ _

end Pi

/-- A handler that returns rewrites every entry by what the message carries. -/
theorem Node.handle_rewrites {n : Node} {stale : CStr} {devices devices' : List Device} {m : Msg}
    (h : (n.handle stale devices m).outcome = .ok devices') :
    List.Forall₂ (Rewrites (n.stores (fields delimiter (stringCpy m.payload))))
      devices devices' := by
  cases n with
  | commandLine =>
      cases h
      exact rewrites_refl _ _
  | kontroler =>
      rcases Kontroler.handle_cases h with rfl | ⟨s, hs, rfl⟩
      · exact rewrites_refl _ _
      · exact rewrites_assignFirst hs _
  | senzorski => exact Pi.handle_rewrites h
  | aktuatorski => exact Pi.handle_rewrites h

/-! ## The sensor loop -/

/-- An entry before and after a pass of the sensor loop. -/
def Senses (d d' : Device) : Prop := d' = d ∨ ∃ n, d' = Property.value.put (readingText n) d

theorem senses_set {devices : List Device} {i : Nat} {d d' : Device} (hi : devices[i]? = some d)
    (h : Senses d d') : List.Forall₂ Senses devices (devices.set i d') := by
  induction devices generalizing i with
  | nil => cases hi
  | cons e es ih =>
      have hrefl : List.Forall₂ Senses es es := List.forall₂_same.mpr fun _ _ => Or.inl rfl
      cases i with
      | zero =>
          cases hi
          exact .cons h hrefl
      | succ i => exact .cons (Or.inl rfl) (ih hi)

theorem Node.act_senses {n : Node} {reading : Int32} {i : Nat} {devices devices' : List Device}
    {x : Exec (List Device)} (hact : n.act (.sense reading i) devices = some x)
    (h : x.outcome = .ok devices') : List.Forall₂ Senses devices devices' := by
  obtain rfl : x = Pi.sensorsValuePublish reading i devices := by
    cases n with
    | commandLine | kontroler => cases hact
    | senzorski | aktuatorski => exact (Option.some.inj hact).symm
  cases hd : devices[i]? with
  | none =>
      have hnone := Pi.completed_sensorsValuePublish_none hd reading
      unfold completed at hnone
      rw [h] at hnone
      cases hnone
  | some d =>
      by_cases hg : d.group = sensors
      · have hc := (completed_eq_some.mp (Pi.completed_sensorsValuePublish hd hg reading)).1
        obtain rfl := Except.ok.inj (h.symm.trans hc)
        exact senses_set hd (Or.inr ⟨reading, rfl⟩)
      · have hc := (completed_eq_some.mp (Pi.completed_sensorsValuePublish_of_ne hd hg reading)).1
        obtain rfl := Except.ok.inj (h.symm.trans hc)
        exact List.forall₂_same.mpr fun _ _ => Or.inl rfl

/-! ## Reachable tables -/

/-- The tables of a node: the one its main builds, then messages that are `ok` for the table
they find, each handled to the end, and passes of the sensor loop. -/
inductive Node.Reaches (b : Boot) (n : Node) (ok : List Device → Msg → Prop) :
    List Device → Prop where
  | boot : Reaches b n ok (b.table n)
  | handle {devices devices' : List Device} {stale : CStr} {m : Msg} :
      Reaches b n ok devices → ok devices m →
      (n.handle stale devices m).outcome = .ok devices' → Reaches b n ok devices'
  | sense {devices devices' : List Device} {reading : Int32} {i : Nat} {x : Exec (List Device)} :
      Reaches b n ok devices → n.act (.sense reading i) devices = some x →
      x.outcome = .ok devices' → Reaches b n ok devices'

theorem map_frame_of_forall₂ {R : Device → Device → Prop}
    (hR : ∀ d d', R d d' → d'.frame = d.frame) {devices devices' : List Device}
    (h : List.Forall₂ R devices devices') :
    devices'.map Device.frame = devices.map Device.frame := by
  induction h with
  | nil => rfl
  | cons hd _ ih => rw [List.map_cons, List.map_cons, hR _ _ hd, ih]

theorem Node.Reaches.frames {b : Boot} {n : Node} {ok : List Device → Msg → Prop}
    {devices : List Device} (h : n.Reaches b ok devices) :
    devices.map Device.frame = (b.table n).map Device.frame := by
  induction h with
  | boot => rfl
  | handle _ _ hrun ih =>
      rw [map_frame_of_forall₂ (fun _ _ => Rewrites.frame) (Node.handle_rewrites hrun), ih]
  | sense _ hact hrun ih =>
      have hframe : ∀ d d', Senses d d' → d'.frame = d.frame := by
        rintro d d' (rfl | ⟨n, rfl⟩)
        · rfl
        · exact Property.frame_put _ _ _
      rw [map_frame_of_forall₂ hframe (Node.act_senses hact hrun), ih]

theorem Node.Reaches.forall {b : Boot} {n : Node} {ok : List Device → Msg → Prop}
    {P : Device → Prop} (hboot : ∀ d ∈ b.table n, P d)
    (hhandle : ∀ devices m, ok devices m → ∀ d ∈ devices, P d → ∀ d',
      Rewrites (n.stores (fields delimiter (stringCpy m.payload))) d d' → P d')
    (hsense : ∀ d, P d → ∀ d', Senses d d' → P d') {devices : List Device}
    (h : n.Reaches b ok devices) : ∀ d ∈ devices, P d := by
  have hlift : ∀ {R : Device → Device → Prop} {ds ds' : List Device}, List.Forall₂ R ds ds' →
      (∀ d ∈ ds, P d ∧ ∀ d', R d d' → P d') → ∀ d' ∈ ds', P d' := by
    intro R ds ds' hall hkeep
    induction hall with
    | nil =>
        intro d' hd'
        cases hd'
    | cons hd _ ih =>
        obtain ⟨hhead, htail⟩ := List.forall_mem_cons.mp hkeep
        exact List.forall_mem_cons.mpr ⟨hhead.2 _ hd, ih htail⟩
  induction h with
  | boot => exact hboot
  | handle _ hok hrun ih =>
      refine hlift (Node.handle_rewrites hrun) fun d hd => ⟨ih d hd, ?_⟩
      exact hhandle _ _ hok d hd (ih d hd)
  | sense _ hact hrun ih =>
      exact hlift (Node.act_senses hact hrun) fun d hd => ⟨ih d hd, hsense d (ih d hd)⟩

end SmartHome
