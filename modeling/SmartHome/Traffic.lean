/-
# `Traffic` — what any payload at all does to a node

The broker is public, so a node is handed arbitrary bytes.  Here is exactly what
stops each handler (`Kontroler.stopped_handle`, `Pi.stopped_handle`): a payload
`str_split` does not accept, one with fewer tokens than its type makes the
handler read, and on the controller a change announced for all devices at once.
-/
import SmartHome.Owner
import SmartHome.Controller

namespace SmartHome

open Traced Fields

/-- The names `distribute_pub_message` looks for in a `PropertyChanged` message. -/
def IsProperty (name : CStr) : Prop := name = Property.value.name ∨ name = Property.info.name

instance (name : CStr) : Decidable (IsProperty name) := inferInstanceAs (Decidable (_ ∨ _))

/-- A text on its way into the device with an id. -/
structure Store where
  property : Property
  id : CStr
  text : CStr
  deriving DecidableEq, Repr

namespace Kontroler

/-! ## The controller -/

/-- What stops the `PropertyChanged` branch, by the tokens after the target. -/
def storeFault (devices : List Device) (x : CStr) : List CStr → Option Fault
  | [] => some .tokenBounds
  | [name] => if IsProperty name then some .nullToken else none
  | name :: _ :: _ =>
      if IsProperty name ∧ lookup x devices = none then some (.badIndex (-1)) else none

/-- What stops the controller on a message. -/
def fault (devices : List Device) (mes : CStr) : Option Fault :=
  if ¬ Clean delimiter mes then some .assertFailed
  else match fields delimiter mes with
    | [] | [_] => some .nullToken
    | t :: x :: ts =>
        if t = MesType.propertyChanged ∧ Known devices x then storeFault devices x ts else none

section Dispatch

variable (stale : CStr) (devices : List Device) (mes : CStr)

theorem stopped_answerGet (p : Property) {x : CStr} (hk : Known devices x) :
    stopped (answerGet p (listLoop p) stale x devices) = none := by
  by_cases hx : x = allDevices
  · subst hx
    exact stopped_of_completed (completed_answerGet_all p stale devices)
  · obtain ⟨d, hd⟩ := Option.isSome_iff_exists.mp (hk.resolve_left hx)
    exact stopped_of_completed (completed_answerGet_one hx hd stale)

theorem stopped_storeChanged (p : Property) (x v : CStr) :
    stopped (storeChanged p (findDevice x devices) (some v) devices) =
      if lookup x devices = none then some (.badIndex (-1)) else none := by
  rcases findDevice_cases x devices with ⟨hn, hf⟩ | ⟨k, d, hd, -, -, -⟩
  · rw [if_pos hn, hf]
    rfl
  · rw [hd, if_neg (Option.some_ne_none d)]
    exact stopped_of_completed (completed_storeChanged hd)

/-- The branch of `distribute_pub_message` for `PropertyChanged`, by the tokens it finds. -/
def storeTokens (x : CStr) : List CStr → Exec (List Device)
  | [] => stop .tokenBounds
  | [name] => if IsProperty name then stop .nullToken else pure devices
  | name :: val :: _ =>
      if name = Property.value.name then
        storeChanged .value (findDevice x devices) (some val) devices
      else if name = Property.info.name then
        storeChanged .info (findDevice x devices) (some val) devices
      else pure devices

theorem dispatch_eq (t x : CStr) (ts : List CStr) :
    dispatch stale devices mes (t :: x :: ts) =
      if t = MesType.getDevInfo then
        (fun _ => devices) <$> answerGet .info (listLoop .info) stale x devices
      else if t = MesType.getDevValue then
        (fun _ => devices) <$> answerGet .value (listLoop .value) stale x devices
      else if t = MesType.setDevValue then
        (fun _ => devices) <$> forwardSet valueSet Topic.devicesFunc mes
      else if t = MesType.setDevInfo then
        (fun _ => devices) <$> forwardSet infoSet Topic.devicesInfo mes
      else if t = MesType.propertyChanged then storeTokens devices x ts
      else pure devices := by
  have h₀ : load (t :: x :: ts) 0 = pure (some t) := rfl
  have h₁ : load (t :: x :: ts) 1 = pure (some x) := load_of_lt rfl
  simp only [dispatch, h₀, h₁, pure_bind, use_some, bind_pure_comp]
  by_cases hc : t = MesType.propertyChanged
  · have hload : (load (t :: x :: ts) 2 >>= fun property => load (t :: x :: ts) 3 >>= fun val =>
        use property >>= fun property =>
          if property = Property.value.name then
            storeChanged .value (findDevice x devices) val devices
          else if property = Property.info.name then
            storeChanged .info (findDevice x devices) val devices
          else pure devices) = storeTokens devices x ts := by
      rcases ts with _ | ⟨name, _ | ⟨val, rest⟩⟩
      · rfl
      · have h₂ : load [t, x, name] 2 = pure (some name) := rfl
        have h₃ : load [t, x, name] 3 = pure none := rfl
        simp only [h₂, h₃, pure_bind, use_some, storeTokens, IsProperty, storeChanged, use_none,
          stop_bind]
        by_cases hv : name = Property.value.name <;> by_cases hi : name = Property.info.name <;>
          simp [hv, hi]
      · have h₂ : load (t :: x :: name :: val :: rest) 2 = pure (some name) := load_of_lt rfl
        have h₃ : load (t :: x :: name :: val :: rest) 3 = pure (some val) := load_of_lt rfl
        simp only [h₂, h₃, pure_bind, use_some, storeTokens]
    rw [hload]
    rfl
  · simp only [if_neg hc]
    rfl

/-- Where its answers and the forwarding keep to `P`, a dispatch does if its store does. -/
theorem emits_dispatch {P : Effect → Prop} {stale mes : CStr} {t x : CStr} {ts : List CStr}
    (hget : ∀ p : Property, t = p.getType.text →
      (answerGet p (listLoop p) stale x devices).Emits P)
    (hset : ∀ p : Property, t = p.setType.text →
      (forwardSet (acknowledgement p) (forwardTopic p) mes).Emits P) :
    (dispatch stale devices mes (t :: x :: ts)).Emits P ↔
      (t = MesType.propertyChanged → (storeTokens devices x ts).Emits P) := by
  have hother : t ≠ MesType.propertyChanged → ∀ {y : Exec Unit}, y.Emits P →
      (((fun _ => devices) <$> y).Emits P ↔
        (t = MesType.propertyChanged → (storeTokens devices x ts).Emits P)) := by
    intro hne y hy
    exact iff_of_true (emits_map.mpr hy) fun ht => absurd ht hne
  rw [dispatch_eq]
  split
  · rename_i ht
    exact hother (ht ▸ by decide) (hget .info ht)
  split
  · rename_i ht
    exact hother (ht ▸ by decide) (hget .value ht)
  split
  · rename_i ht
    exact hother (ht ▸ by decide) (hset .value ht)
  split
  · rename_i ht
    exact hother (ht ▸ by decide) (hset .info ht)
  split
  · rename_i ht
    exact ⟨fun h _ => h, fun h => h ht⟩
  · rename_i ht
    exact iff_of_true (emits_pure _ _) fun h => absurd h ht

theorem stopped_storeTokens (x : CStr) : ∀ ts : List CStr,
    stopped (storeTokens devices x ts) = storeFault devices x ts
  | [] => rfl
  | [name] => by
      simp only [storeTokens, storeFault]
      split <;> rfl
  | name :: val :: rest => by
      simp only [storeTokens, storeFault]
      by_cases hv : name = Property.value.name
      · have hp : IsProperty name := Or.inl hv
        simp only [if_pos hv, hp, true_and, stopped_storeChanged]
      · rw [if_neg hv]
        by_cases hi : name = Property.info.name
        · have hp : IsProperty name := Or.inr hi
          simp only [if_pos hi, hp, true_and, stopped_storeChanged]
        · have hp : ¬ IsProperty name := not_or.mpr ⟨hv, hi⟩
          simp only [if_neg hi, hp, false_and, if_false, stopped_pure]

theorem stopped_dispatch {t x : CStr} (ts : List CStr) (hk : Known devices x) :
    stopped (dispatch stale devices mes (t :: x :: ts)) =
      if t = MesType.propertyChanged then stopped (storeTokens devices x ts) else none := by
  rw [dispatch_eq]
  by_cases h₁ : t = MesType.getDevInfo
  · rw [if_pos h₁, stopped_map, stopped_answerGet stale devices .info hk, h₁, if_neg (by decide)]
  rw [if_neg h₁]
  by_cases h₂ : t = MesType.getDevValue
  · rw [if_pos h₂, stopped_map, stopped_answerGet stale devices .value hk, h₂, if_neg (by decide)]
  rw [if_neg h₂]
  by_cases h₃ : t = MesType.setDevValue
  · rw [if_pos h₃, h₃, if_neg (by decide)]
    rfl
  rw [if_neg h₃]
  by_cases h₄ : t = MesType.setDevInfo
  · rw [if_pos h₄, h₄, if_neg (by decide)]
    rfl
  rw [if_neg h₄]
  split <;> rfl

end Dispatch

theorem stopped_handle (stale : CStr) (devices : List Device)
    (topicName applicationMessage : List Char) :
    stopped (handle stale devices topicName applicationMessage) =
      fault devices (stringCpy applicationMessage) := by
  unfold fault
  by_cases hc : Clean delimiter (stringCpy applicationMessage)
  · rw [if_neg (not_not_intro hc)]
    have hsplit := strSplit_of_clean hc
    match hf : fields delimiter (stringCpy applicationMessage) with
    | [] => exact absurd hf (fields_ne_nil_of_clean hc)
    | [t] =>
        rw [hf] at hsplit
        simp only [handle, publishCallback, hsplit, pure_bind]
        rfl
    | t :: x :: ts =>
        rw [hf] at hsplit
        rw [handle_of_split hsplit, stopped_write_bind]
        by_cases hk : Known devices x
        · rw [if_pos hk, stopped_write_bind, stopped_dispatch _ _ _ _ hk, stopped_storeTokens]
          simp only [hk, and_true]
        · rw [if_neg hk]
          simp only [hk, and_false, if_false]
          rfl
  · rw [if_pos hc]
    simp only [handle, publishCallback, strSplit_of_not_clean hc]
    rfl

theorem split_of_ok {stale : CStr} {devices devices' : List Device}
    {topicName applicationMessage : List Char}
    (h : (handle stale devices topicName applicationMessage).outcome = .ok devices') :
    ∃ t x ts, fields delimiter (stringCpy applicationMessage) = t :: x :: ts ∧
      strSplit (stringCpy applicationMessage) delimiter = pure (t :: x :: ts) := by
  have hnone : fault devices (stringCpy applicationMessage) = none := by
    rw [← stopped_handle stale devices topicName, stopped, h]
  unfold fault at hnone
  split at hnone
  · cases hnone
  rename_i hclean
  have hsplit := strSplit_of_clean (not_not.mp hclean)
  split at hnone
  · cases hnone
  · cases hnone
  · rename_i t x ts hf
    exact ⟨t, x, ts, hf, hf ▸ hsplit⟩

/-! ## What it can change -/

/-- What `distribute_pub_message` copies from the tokens into its table. -/
def stores : List CStr → Option Store
  | t :: x :: name :: val :: _ =>
      if t = MesType.propertyChanged then
        if name = Property.value.name then some ⟨.value, x, val⟩
        else if name = Property.info.name then some ⟨.info, x, val⟩
        else none
      else none
  | _ => none

theorem stores_of_ne {t : CStr} (ht : t ≠ MesType.propertyChanged) (ts : List CStr) :
    stores (t :: ts) = none := by
  rcases ts with _ | ⟨x, _ | ⟨name, _ | ⟨val, rest⟩⟩⟩
  · rfl
  · rfl
  · rfl
  · rw [stores, if_neg ht]

theorem id_of_mem_stores {t x : CStr} {ts : List CStr} {s : Store}
    (hs : s ∈ stores (t :: x :: ts)) : s.id = x := by
  rcases ts with _ | ⟨name, _ | ⟨val, rest⟩⟩
  · cases hs
  · cases hs
  · simp only [stores] at hs
    split at hs
    · split at hs
      · cases hs
        rfl
      · split at hs <;> cases hs
        rfl
    · cases hs

/-- The branch stores what `stores` finds, at the index of the target.  Where that is nothing,
it returns or stops at once. -/
theorem storeTokens_spec (devices : List Device) (x : CStr) (ts : List CStr) :
    (∃ s, stores (MesType.propertyChanged :: x :: ts) = some s ∧ storeTokens devices x ts =
      storeChanged s.property (findDevice x devices) (some s.text) devices) ∨
    stores (MesType.propertyChanged :: x :: ts) = none ∧
      (storeTokens devices x ts = pure devices ∨ ∃ e, storeTokens devices x ts = stop e) := by
  rcases ts with _ | ⟨name, _ | ⟨val, rest⟩⟩
  · exact Or.inr ⟨rfl, Or.inr ⟨.tokenBounds, rfl⟩⟩
  · refine Or.inr ⟨rfl, ?_⟩
    rw [storeTokens]
    split
    · exact Or.inr ⟨.nullToken, rfl⟩
    · exact Or.inl rfl
  · simp only [storeTokens, stores, if_true]
    split
    · exact Or.inl ⟨⟨.value, x, val⟩, rfl, rfl⟩
    split
    · exact Or.inl ⟨⟨.info, x, val⟩, rfl, rfl⟩
    · exact Or.inr ⟨rfl, Or.inl rfl⟩

theorem emits_storeTokens {P : Effect → Prop} {devices : List Device} {x : CStr}
    {ts : List CStr} : (storeTokens devices x ts).Emits P ↔
      ∀ s ∈ stores (MesType.propertyChanged :: x :: ts),
        (storeChanged s.property (findDevice x devices) (some s.text) devices).Emits P := by
  rcases storeTokens_spec devices x ts with ⟨s, hs, h⟩ | ⟨hs, h⟩
  · rw [hs, h]
    simp only [Option.mem_def, Option.some.injEq, forall_eq']
  · rw [hs]
    refine iff_of_true ?_ fun s hs => by cases hs
    rcases h with h | ⟨e, h⟩
    · rw [h]
      exact emits_pure _ _
    · rw [h]
      exact emits_stop _ _

theorem storeTokens_cases {devices devices' : List Device} {x : CStr} {ts : List CStr}
    (h : (storeTokens devices x ts).outcome = .ok devices') :
    devices' = devices ∨ ∃ s ∈ stores (MesType.propertyChanged :: x :: ts),
      devices' = assignFirst s.property s.id s.text devices := by
  rcases storeTokens_spec devices x ts with ⟨s, hs, hrun⟩ | ⟨-, hrun | ⟨e, hrun⟩⟩
  · refine Or.inr ⟨s, hs, ?_⟩
    rw [id_of_mem_stores hs]
    rw [hrun] at h
    cases hd : lookup x devices with
    | none =>
        have hstop := stopped_storeChanged devices s.property x s.text
        rw [if_pos hd, stopped, h] at hstop
        cases hstop
    | some d =>
        have hc := completed_storeChanged (p := s.property) (v := s.text) hd
        exact Except.ok.inj (h.symm.trans (completed_eq_some.mp hc).1)
  · rw [hrun] at h
    exact Or.inl (Except.ok.inj h).symm
  · rw [hrun] at h
    cases h

theorem outcome_map_const {α : Type} {y : Exec α} {devices devices' : List Device}
    (h : ((fun _ => devices) <$> y).outcome = .ok devices') : devices' = devices := by
  rw [← bind_pure_comp] at h
  obtain ⟨_, -, h⟩ := outcome_bind_eq_ok.mp h
  exact (Except.ok.inj h).symm

theorem handle_cases {stale : CStr} {devices devices' : List Device}
    {topicName applicationMessage : List Char}
    (h : (handle stale devices topicName applicationMessage).outcome = .ok devices') :
    devices' = devices ∨ ∃ s ∈ stores (fields delimiter (stringCpy applicationMessage)),
      devices' = assignFirst s.property s.id s.text devices := by
  obtain ⟨t, x, ts, hf, hsplit⟩ := split_of_ok h
  rw [handle_of_split hsplit] at h
  obtain ⟨_, -, h⟩ := outcome_bind_eq_ok.mp h
  split at h
  · obtain ⟨_, -, h⟩ := outcome_bind_eq_ok.mp h
    rw [dispatch_eq] at h
    repeat' split at h
    · exact Or.inl (outcome_map_const h)
    · exact Or.inl (outcome_map_const h)
    · exact Or.inl (outcome_map_const h)
    · exact Or.inl (outcome_map_const h)
    · rename_i ht
      rw [hf, ht]
      exact storeTokens_cases h
    · exact Or.inl (Except.ok.inj h).symm
  · exact Or.inl (outcome_map_const h)

/-- The tables the controller can have: the one its main builds, then any messages, each
handled to the end. -/
inductive Reaches (u : Uninit) : List Device → Prop where
  | main : Reaches u (main u)
  | handle {devices devices' : List Device} {stale : CStr}
      {topicName applicationMessage : List Char} :
      Reaches u devices →
      (handle stale devices topicName applicationMessage).outcome = .ok devices' →
      Reaches u devices'

theorem Reaches.frames {u : Uninit} {devices : List Device} (h : Reaches u devices) :
    devices.map Device.frame = (Kontroler.main u).map Device.frame := by
  induction h with
  | main => rfl
  | handle _ h ih =>
      rcases handle_cases h with rfl | ⟨s, -, rfl⟩
      · exact ih
      · rw [map_frame_assignFirst, ih]

theorem Reaches.lookup_allDevices {u : Uninit} {devices : List Device} (h : Reaches u devices) :
    lookup allDevices devices = none := by
  have hids : ∀ f ∈ (Kontroler.main u).map Device.frame, f.id ≠ allDevices := of_decide_eq_true rfl
  refine lookup_eq_none_iff.mpr fun d hd => hids d.frame ?_
  rw [← h.frames]
  exact List.mem_map_of_mem hd

end Kontroler

/-! ## The Pis -/

namespace Pi

/-- What stops `automation_control`, by the tokens after the type. -/
def readingFault : List CStr → Option Fault
  | [] => some .nullToken
  | arg :: _ =>
      match strtok 'l' arg with
      | none => some .nullToken
      | some _ => none

/-- What stops `set_dev_value` and `set_dev_info`. -/
def setFault (devices : List Device) : List CStr → Option Fault
  | [] => some .tokenBounds
  | [id] => if ∃ d ∈ devices, d.id = id then some .nullToken else none
  | _ :: _ :: _ => none

/-- What stops a Pi on a message. -/
def fault (devices : List Device) (mes : CStr) : Option Fault :=
  if ¬ Clean delimiter mes then some .assertFailed
  else match fields delimiter mes with
    | [] => none
    | t :: ts =>
        if t = MesType.sensorMes then readingFault ts
        else if t = MesType.setDevInfo ∨ t = MesType.setDevValue then setFault devices ts
        else none

theorem stopped_automationControl (t topic : CStr) (devices : List Device) : ∀ ts : List CStr,
    stopped (automationControl (t :: ts) topic devices) = readingFault ts
  | [] => rfl
  | arg :: rest => by
      have h₁ : load (t :: arg :: rest) 1 = pure (some arg) := load_of_lt rfl
      simp only [automationControl, h₁, pure_bind, use_some, readingFault]
      cases strtok 'l' arg with
      | none => rfl
      | some r =>
          rw [Option.map_some, use_some, pure_bind]
          exact stopped_of_completed
            (completed_sweep (fun d => completed_automationBody topic _ d) devices)

theorem stopped_setDev (p : Property) (t : CStr) (devices : List Device) : ∀ ts : List CStr,
    stopped (setDev p (t :: ts) devices) = setFault devices ts
  | [] => rfl
  | [id] => by
      have h₁ : load [t, id] 1 = pure (some id) := rfl
      have h₂ : load [t, id] 2 = pure none := rfl
      simp only [setDev, h₁, h₂, pure_bind]
      refine stopped_sweep (p := fun d => d.id = id) (fun d => ?_) devices
      simp only [setDevBody, use_some, pure_bind, use_none, stop_bind]
      split <;> rfl
  | id :: v :: rest => by
      have h₁ : load (t :: id :: v :: rest) 1 = pure (some id) := load_of_lt rfl
      have h₂ : load (t :: id :: v :: rest) 2 = pure (some v) := load_of_lt rfl
      simp only [setDev, h₁, h₂, pure_bind]
      rw [stopped_sweep (p := fun _ => False) (e := .nullToken) (fun d => ?_) devices]
      · simp [setFault]
      · simp only [setDevBody, use_some, pure_bind, if_false]
        split <;> rfl

theorem stopped_handle (devices : List Device) (topicName applicationMessage : List Char) :
    stopped (handle devices topicName applicationMessage) =
      fault devices (stringCpy applicationMessage) := by
  unfold fault
  by_cases hc : Clean delimiter (stringCpy applicationMessage)
  · rw [if_neg (not_not_intro hc)]
    have hsplit := strSplit_of_clean hc
    match hf : fields delimiter (stringCpy applicationMessage) with
    | [] => exact absurd hf (fields_ne_nil_of_clean hc)
    | t :: ts =>
        rw [hf] at hsplit
        have hsplit' : strSplit (publishCallback topicName applicationMessage).mes delimiter =
            pure (t :: ts) := hsplit
        rw [handle, distributePubMessage_of_split hsplit']
        by_cases h₁ : t = MesType.sensorMes
        · simp only [if_pos h₁, stopped_automationControl]
        · rw [if_neg h₁]
          by_cases h₂ : t = MesType.setDevInfo
          · rw [if_pos h₂, setDevInfo, stopped_setDev]
            exact ((if_neg h₁).trans (if_pos (Or.inl h₂))).symm
          · rw [if_neg h₂]
            by_cases h₃ : t = MesType.setDevValue
            · rw [if_pos h₃, setDevValue, stopped_setDev]
              exact ((if_neg h₁).trans (if_pos (Or.inr h₃))).symm
            · rw [if_neg h₃, stopped_pure]
              exact ((if_neg h₁).trans (if_neg (not_or.mpr ⟨h₂, h₃⟩))).symm
  · rw [if_pos hc]
    simp only [handle, distributePubMessage, publishCallback, strSplit_of_not_clean hc]
    rfl

theorem split_of_ok {devices devices' : List Device} {topicName applicationMessage : List Char}
    (h : (handle devices topicName applicationMessage).outcome = .ok devices') :
    ∃ t ts, fields delimiter (stringCpy applicationMessage) = t :: ts ∧
      strSplit (publishCallback topicName applicationMessage).mes delimiter = pure (t :: ts) := by
  have hnone : fault devices (stringCpy applicationMessage) = none := by
    rw [← stopped_handle devices topicName, stopped, h]
  have hclean : Clean delimiter (stringCpy applicationMessage) := by
    by_contra hc
    rw [fault, if_pos hc] at hnone
    cases hnone
  obtain ⟨t, ts, hf⟩ := List.exists_cons_of_ne_nil (fields_ne_nil_of_clean hclean)
  exact ⟨t, ts, hf, hf ▸ strSplit_of_clean hclean⟩

end Pi

end SmartHome
