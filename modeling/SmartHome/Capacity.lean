/-
# `Capacity` — which messages fit the buffers

`recvbuf` lets in packets of 1024 bytes; what is behind it holds 200, 400 or 100.
A message a node can be sent fits everything on its way exactly when it is `Roomy`:
at most 199 bytes at the controller, and 99 for the text it stores, if there is a device
to store it in.  `Roomy` messages keep every field of a table that short, so nothing that
is read back later has to be measured again.
-/
import SmartHome.Reach
import SmartHome.Packet
import SmartHome.Safety

namespace SmartHome

open Traced Fields

/-! ## The condition -/

/-- The copies hold the message and the field its text; a change for all devices at once has
no field. -/
def Kontroler.Roomy (devices : List Device) (mes : CStr) : Prop :=
  mes.length ≤ 199 ∧ ∀ s ∈ Kontroler.stores (fields delimiter mes),
    s.id ≠ allDevices ∧ ((lookup s.id devices).isSome = true → s.text.length ≤ 99)

/-- The field holds the text, if one of the node's devices has the id. -/
def Pi.Roomy (devices : List Device) (mes : CStr) : Prop :=
  ∀ s ∈ Pi.stores (fields delimiter mes), (∃ d ∈ devices, d.id = s.id) → s.text.length ≤ 99

def Node.Roomy : Node → List Device → CStr → Prop
  | .commandLine, _, _ => True
  | .kontroler, devices, mes => Kontroler.Roomy devices mes
  | .senzorski, devices, mes | .aktuatorski, devices, mes => Pi.Roomy devices mes

/-- `Get_Dev_Info.*` or `Get_Dev_Value.*`, at the controller. -/
def Node.Lists (n : Node) (mes : CStr) : Prop :=
  n = .kontroler ∧ (fields delimiter mes)[1]? = some allDevices ∧
    ((fields delimiter mes)[0]? = some MesType.getDevInfo ∨
      (fields delimiter mes)[0]? = some MesType.getDevValue)

structure Device.Bounded (d : Device) : Prop where
  id : d.id.length ≤ 24
  field : ∀ p : Property, (p.get d).length ≤ 99

/-! ## What reachable tables hold -/

theorem Device.Stored.bounded {d : Device} (h : d.Stored) : d.Bounded where
  id := h.id_length
  field p := (h.length p).trans (by decide)

theorem Device.Bounded.put {d : Device} (h : d.Bounded) (p : Property) {v : CStr}
    (hv : v.length ≤ 99) : (p.put v d).Bounded where
  id := by rw [Property.id_put]; exact h.id
  field q := by
    by_cases hq : q = p
    · subst hq
      rw [Property.get_put]
      exact hv
    · rw [Property.get_put_of_ne hq]
      exact h.field q

theorem length_checkDeviceCondition_le (cond value : Int32) :
    (checkDeviceCondition cond value).length ≤ 3 := by
  unfold checkDeviceCondition
  split <;> decide

/-- A roomy message stores a text that fits wherever it stores it. -/
theorem Node.Roomy.text_length {n : Node} {devices : List Device} {mes : CStr}
    (h : n.Roomy devices mes) {s : Store} (hs : s ∈ n.stores (fields delimiter mes)) {d : Device}
    (hd : d ∈ devices) (hid : s.id = d.id) : s.text.length ≤ 99 := by
  cases n with
  | commandLine => cases hs
  | kontroler =>
      refine (h.2 s hs).2 ?_
      rw [Option.isSome_iff_ne_none]
      exact fun hn => lookup_eq_none_iff.mp hn d hd hid.symm
  | senzorski => exact h s hs ⟨d, hd, hid.symm⟩
  | aktuatorski => exact h s hs ⟨d, hd, hid.symm⟩

def RoomyMessage (n : Node) (devices : List Device) (m : Msg) : Prop :=
  n.Roomy devices (stringCpy m.payload)

theorem Node.Reaches.bounded {b : Boot} {n : Node} {devices : List Device}
    (h : n.Reaches b (RoomyMessage n) devices) : ∀ d ∈ devices, d.Bounded := by
  refine h.forall (fun d hd => ((sound_table b n).stored d hd).bounded) ?_ ?_
  · rintro devices m hroomy d hd hb d' (rfl | ⟨c, rfl⟩ | ⟨s, hs, hid, rfl⟩)
    · exact hb
    · exact hb.put _ ((length_checkDeviceCondition_le _ _).trans (by decide))
    · exact hb.put _ (hroomy.text_length hs hd hid)
  · rintro d hb d' (rfl | ⟨r, rfl⟩)
    · exact hb
    · exact hb.put _ ((length_readingText_le r).trans (by decide))

theorem Node.Reaches.lookup_allDevices {b : Boot} {n : Node} {ok : List Device → Msg → Prop}
    {devices : List Device} (h : n.Reaches b ok devices) : lookup allDevices devices = none := by
  have hids : ∀ f ∈ (b.table n).map Device.frame, f.id ≠ allDevices := by
    cases n <;> exact of_decide_eq_true rfl
  refine lookup_eq_none_iff.mpr fun d hd => hids d.frame ?_
  rw [← h.frames]
  exact List.mem_map_of_mem hd

/-! ## The controller -/

namespace Kontroler

theorem safe_storeTokens {devices : List Device} (hall : lookup allDevices devices = none)
    {x : CStr} (hk : Known devices x) {ts : List CStr} :
    (storeTokens devices x ts).Emits (Effect.Safe devices.length) ↔
      ∀ s ∈ stores (MesType.propertyChanged :: x :: ts),
        s.id ≠ allDevices ∧ ((lookup s.id devices).isSome = true → s.text.length ≤ 99) := by
  rw [emits_storeTokens]
  refine forall₂_congr fun s hs => ?_
  rw [safe_storeChanged, id_of_mem_stores hs]
  constructor
  · rintro ⟨hsome, hv⟩
    refine ⟨?_, fun _ => hv⟩
    rintro rfl
    rw [hall] at hsome
    cases hsome
  · rintro ⟨hx, hv⟩
    have hsome := hk.resolve_left hx
    exact ⟨hsome, hv hsome⟩

theorem safe_dispatch {devices : List Device} (hb : ∀ d ∈ devices, d.Bounded)
    (hall : lookup allDevices devices = none) {mes : CStr} (hmes : mes.length ≤ 199) {t x : CStr}
    (hk : Known devices x)
    (hlists : ¬ (x = allDevices ∧ (t = MesType.getDevInfo ∨ t = MesType.getDevValue)))
    (stale : CStr) (ts : List CStr) :
    (dispatch stale devices mes (t :: x :: ts)).Emits (Effect.Safe devices.length) ↔
      ∀ s ∈ stores (t :: x :: ts),
        s.id ≠ allDevices ∧ ((lookup s.id devices).isSome = true → s.text.length ≤ 99) := by
  have hget : ∀ p : Property, t = p.getType.text →
      (answerGet p (listLoop p) stale x devices).Emits (Effect.Safe devices.length) := by
    intro p ht
    have hx : x ≠ allDevices := by
      intro hx
      refine hlists ⟨hx, ?_⟩
      cases p with
      | value => exact Or.inr ht
      | info => exact Or.inl ht
    obtain ⟨d, hd⟩ := Option.isSome_iff_exists.mp (hk.resolve_left hx)
    have hfield := (hb d (lookup_some hd).1).field p
    exact emits_answerGet_one hx hd (hfield.trans (by decide)) stale
  rw [emits_dispatch devices hget fun p _ => emits_forwardSet p _ hmes]
  by_cases ht : t = MesType.propertyChanged
  · subst ht
    rw [safe_storeTokens hall hk]
    exact ⟨fun h => h rfl, fun h _ => h⟩
  · refine iff_of_true (fun h => absurd h ht) fun s hs => ?_
    rw [stores_of_ne ht] at hs
    cases hs

theorem safe_handle {devices : List Device} (hb : ∀ d ∈ devices, d.Bounded)
    (hall : lookup allDevices devices = none) {topicName applicationMessage : List Char}
    (hwf : WellFormed devices (stringCpy applicationMessage))
    (hlists : ¬ Node.kontroler.Lists (stringCpy applicationMessage)) (stale : CStr) :
    (handle stale devices topicName applicationMessage).Emits (Effect.Safe devices.length) ↔
      Roomy devices (stringCpy applicationMessage) := by
  obtain ⟨hclean, t, x, ts, hf, -⟩ := hwf
  have hsplit := strSplit_of_clean hclean
  rw [hf] at hsplit
  have hcopy : (Effect.write .messageCpy (stringCpy applicationMessage)).Safe devices.length ↔
      (stringCpy applicationMessage).length ≤ 199 := by
    have hsize : Buffer.messageCpy.size = 200 := rfl
    rw [safe_write, hsize]
    omega
  have hlists' : ¬ (x = allDevices ∧ (t = MesType.getDevInfo ∨ t = MesType.getDevValue)) := by
    rintro ⟨hx, ht⟩
    refine hlists ⟨rfl, ?_, ?_⟩
    · rw [hf, hx]
      rfl
    · rw [hf]
      exact ht.imp (congrArg some) (congrArg some)
  rw [handle_of_split hsplit, emits_write_bind, hcopy, Roomy, hf]
  refine and_congr_right fun hmes => ?_
  by_cases hk : Known devices x
  · rw [if_pos hk, emits_write_bind, hcopy, safe_dispatch hb hall hmes hk hlists']
    exact and_iff_right hmes
  · rw [if_neg hk, emits_map]
    refine iff_of_true (emits_publish.mpr (safe_publish _ _)) fun s hs => ?_
    rw [id_of_mem_stores hs]
    exact ⟨fun hx => hk (Or.inl hx), fun hsome => absurd (Or.inr hsome) hk⟩

end Kontroler

/-! ## The Pis -/

namespace Pi

theorem safe_setDev_stores {devices : List Device} (hb : ∀ d ∈ devices, d.Bounded) {p : Property}
    {t : CStr} (id : CStr)
    (hstores : ∀ v rest, stores (t :: id :: v :: rest) = some ⟨p, id, v⟩) {len : Nat} :
    ∀ ts : List CStr, (setDev p (t :: id :: ts) devices).Emits (Effect.Safe len) ↔
      ∀ s ∈ stores (t :: id :: ts), (∃ d ∈ devices, d.id = s.id) → s.text.length ≤ 99
  | [] => by
      refine iff_of_true (emits_setDev_pair p t id devices) fun s hs => ?_
      cases hs
  | v :: rest => by
      rw [safe_setDev (fun d hd => (hb d hd).id) p t id v rest, hstores]
      simp only [Option.mem_def, Option.some.injEq, forall_eq']

theorem stores_of_ne {t : CStr} (hi : t ≠ MesType.setDevInfo) (hv : t ≠ MesType.setDevValue)
    (ts : List CStr) : stores (t :: ts) = none := by
  rcases ts with _ | ⟨id, _ | ⟨v, rest⟩⟩
  · rfl
  · rfl
  · rw [stores, if_neg hi, if_neg hv]

theorem safe_handle {devices : List Device} (hb : ∀ d ∈ devices, d.Bounded)
    {topicName applicationMessage : List Char}
    (hwf : WellFormed devices (stringCpy applicationMessage)) {len : Nat} :
    (handle devices topicName applicationMessage).Emits (Effect.Safe len) ↔
      Roomy devices (stringCpy applicationMessage) := by
  obtain ⟨hclean, t, ts, hf, -, hset⟩ := hwf
  have hsplit : strSplit (publishCallback topicName applicationMessage).mes delimiter =
      pure (t :: ts) := hf ▸ strSplit_of_clean hclean
  have hnone : t ≠ MesType.setDevInfo → t ≠ MesType.setDevValue → ∀ s ∈ stores (t :: ts),
      (∃ d ∈ devices, d.id = s.id) → s.text.length ≤ 99 := by
    intro hi hv s hs
    rw [stores_of_ne hi hv] at hs
    cases hs
  rw [handle, distributePubMessage_of_split hsplit, Roomy, hf]
  split
  · rename_i ht
    have hid : ∀ d ∈ devices, d.id.length ≤ 24 := fun d hd => (hb d hd).id
    exact iff_of_true (emits_automationControl hid _ _) (hnone (ht ▸ by decide) (ht ▸ by decide))
  split
  · rename_i ht
    obtain ⟨id, rest, rfl, -⟩ := hset (Or.inl ht)
    subst ht
    exact safe_setDev_stores hb id (fun _ _ => rfl) rest
  split
  · rename_i ht
    obtain ⟨id, rest, rfl, -⟩ := hset (Or.inr ht)
    subst ht
    exact safe_setDev_stores hb id (fun _ _ => rfl) rest
  · rename_i hi hv
    exact iff_of_true (emits_pure _ _) (hnone hi hv)

end Pi

/-! ## Every node -/

/-- In every run of roomy messages: a well-formed message that is not a listing is handled with
every copy inside its destination exactly when it is roomy, too. -/
theorem copies_fit_iff {b : Boot} {n : Node} {devices : List Device}
    (hreach : n.Reaches b (RoomyMessage n) devices) {m : Msg}
    (hwf : n.WellFormed devices (stringCpy m.payload)) (hlists : ¬ n.Lists (stringCpy m.payload))
    (stale : CStr) :
    (n.handle stale devices m).Emits (Effect.Safe devices.length) ↔
      RoomyMessage n devices m := by
  have hb : ∀ d ∈ devices, d.Bounded := hreach.bounded
  cases n with
  | commandLine => exact iff_of_true (emits_pure _ _) trivial
  | kontroler => exact Kontroler.safe_handle hb hreach.lookup_allDevices hwf hlists stale
  | senzorski => exact Pi.safe_handle hb hwf
  | aktuatorski => exact Pi.safe_handle hb hwf

theorem copies_fit_lightBulb : (Node.kontroler.handle [] (Boot.zero.table .kontroler)
    ⟨Topic.controler, "PropertyChanged.light_bulb.Value.OFF".toList⟩).Emits
      (Effect.Safe (Boot.zero.table .kontroler).length) := by
  have hfields : fields delimiter (stringCpy "PropertyChanged.light_bulb.Value.OFF".toList) =
      [MesType.propertyChanged, "light_bulb".toList, Property.value.name, off] := by
    decide +kernel
  have hlists : ¬ Node.kontroler.Lists
      (stringCpy "PropertyChanged.light_bulb.Value.OFF".toList) := by
    rintro ⟨-, hall, -⟩
    rw [hfields] at hall
    exact absurd hall (by decide)
  have hwf : Node.kontroler.WellFormed (Boot.zero.table .kontroler)
      (stringCpy "PropertyChanged.light_bulb.Value.OFF".toList) := by
    refine ⟨by decide +kernel, _, _, _, hfields, fun _ _ => ⟨_, _, rfl, fun _ => ?_⟩⟩
    exact List.cons_ne_nil _ _
  refine (copies_fit_iff .boot hwf hlists []).mpr ⟨by decide +kernel, fun s hs => ?_⟩
  rw [hfields] at hs
  obtain rfl : s = ⟨.value, "light_bulb".toList, off⟩ := (Option.some.inj hs).symm
  exact ⟨by decide, fun _ => by decide⟩

/-- A value of 200 bytes for the light bulb. -/
def longCommand : Msg :=
  ⟨Topic.controler, "Set_Dev_Value.light_bulb.".toList ++ List.replicate 200 'x'⟩

theorem copies_overflow : ¬ ∀ (b : Boot) (n : Node) (devices : List Device),
    n.Reaches b (fun _ _ => True) devices → ∀ m : Msg, m.topic ∈ b.subscriptions n →
      Deliverable m.topic m.payload.length → n.WellFormed devices (stringCpy m.payload) →
      ¬ n.Lists (stringCpy m.payload) →
        ∀ stale, (n.handle stale devices m).Emits Effect.Fits := by
  intro h
  have hclean : Clean delimiter (stringCpy longCommand.payload) := by decide +kernel
  have hfields : fields delimiter (stringCpy longCommand.payload) =
      [MesType.setDevValue, "light_bulb".toList, List.replicate 200 'x'] := by decide +kernel
  have hlists : ¬ Node.kontroler.Lists (stringCpy longCommand.payload) := by
    rintro ⟨-, hall, -⟩
    rw [hfields] at hall
    exact absurd hall (by decide)
  have hwf : Node.kontroler.WellFormed (Boot.zero.table .kontroler)
      (stringCpy longCommand.payload) :=
    ⟨hclean, _, _, _, hfields, fun ht => absurd ht (by decide)⟩
  have hfits := h .zero .kontroler _ .boot longCommand (by decide)
    (deliverable_iff.mpr (by decide +kernel)) hwf hlists []
  have hsplit := strSplit_of_clean hclean
  rw [hfields] at hsplit
  rw [Node.handle, Kontroler.handle_of_split hsplit, emits_write_bind] at hfits
  exact absurd hfits.1 (by decide +kernel)

end SmartHome
