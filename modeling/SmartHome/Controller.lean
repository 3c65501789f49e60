/-
# `Controller` — what the controller answers and how its table follows

Five outcomes, one per branch that a well-formed message can take: an unknown
target is answered with a fixed text; a `Get` is answered from the table, for
one device or for all; a `Set` is acknowledged and passed on unread; a
`PropertyChanged` is stored in the first entry with its id and answered with
nothing.  Each is one equation for `Kontroler.handle`.
-/
import SmartHome.System
import SmartHome.Wire
import Mathlib.Data.List.Nodup

namespace SmartHome

open Traced

/-! ## Looking a device up -/

/-- The first device with an id. -/
def lookup (id : CStr) (devices : List Device) : Option Device :=
  devices.find? fun d => d.id = id

/-- The table with a property of the first device with an id changed. -/
def assignFirst (p : Property) (id v : CStr) : List Device → List Device
  | [] => []
  | d :: ds => if d.id = id then p.put v d :: ds else d :: assignFirst p id v ds

theorem lookup_eq_none_iff {id : CStr} {devices : List Device} :
    lookup id devices = none ↔ ∀ d ∈ devices, d.id ≠ id := by
  simp [lookup, List.find?_eq_none]

theorem lookup_some {id : CStr} {devices : List Device} {d : Device}
    (h : lookup id devices = some d) : d ∈ devices ∧ d.id = id :=
  ⟨List.mem_of_find?_eq_some h, by simpa using List.find?_some h⟩

theorem lookup_eq_some_iff {id : CStr} {devices : List Device}
    (h : (devices.map Device.id).Nodup) {d : Device} :
    lookup id devices = some d ↔ d ∈ devices ∧ d.id = id := by
  refine ⟨lookup_some, fun ⟨hd, hid⟩ => ?_⟩
  cases hl : lookup id devices with
  | none => exact absurd hid (lookup_eq_none_iff.mp hl d hd)
  | some e =>
      obtain ⟨he, heid⟩ := lookup_some hl
      rw [List.inj_on_of_nodup_map h he hd (heid.trans hid.symm)]

theorem lookup_map {f : Device → Device} (hf : ∀ d, (f d).id = d.id) (x : CStr)
    (devices : List Device) : lookup x (devices.map f) = (lookup x devices).map f := by
  simp only [lookup, List.find?_map, Function.comp_def, hf]

theorem lookup_assignFirst (p : Property) (id v x : CStr) : ∀ (devices : List Device),
    lookup x (assignFirst p id v devices) =
      if x = id then (lookup x devices).map (p.put v) else lookup x devices
  | [] => by simp [lookup, assignFirst]
  | d :: ds => by
      have ih := lookup_assignFirst p id v x ds
      unfold lookup at ih ⊢
      by_cases hd : d.id = id
      · by_cases hx : x = id
        · simp [assignFirst, hd, hx]
        · simp [assignFirst, hd, hx, Ne.symm hx]
      · by_cases hx : d.id = x
        · have hxid : x ≠ id := fun h => hd (hx.trans h)
          simp [assignFirst, hx, hxid]
        · simp only [assignFirst, if_neg hd]
          rw [List.find?_cons_of_neg (by simpa using hx), ih,
            List.find?_cons_of_neg (by simpa using hx)]

theorem map_frame_assignFirst (p : Property) (id v : CStr) : ∀ (devices : List Device),
    (assignFirst p id v devices).map Device.frame = devices.map Device.frame
  | [] => rfl
  | d :: ds => by
      rw [assignFirst]
      split
      · rw [List.map_cons, Property.frame_put, List.map_cons]
      · rw [List.map_cons, map_frame_assignFirst p id v ds, List.map_cons]

theorem mem_assignFirst {p : Property} {id v : CStr} {e : Device} : ∀ {devices : List Device},
    e ∈ assignFirst p id v devices → e ∈ devices ∨ ∃ d ∈ devices, e = p.put v d
  | [], h => absurd h List.not_mem_nil
  | d :: ds, h => by
      rw [assignFirst] at h
      split at h
      · rcases List.mem_cons.mp h with rfl | h
        · exact Or.inr ⟨d, List.mem_cons_self, rfl⟩
        · exact Or.inl (List.mem_cons_of_mem _ h)
      · rcases List.mem_cons.mp h with rfl | h
        · exact Or.inl List.mem_cons_self
        · rcases mem_assignFirst h with h | ⟨d', hd', he⟩
          · exact Or.inl (List.mem_cons_of_mem _ h)
          · exact Or.inr ⟨d', List.mem_cons_of_mem _ hd', he⟩

namespace Kontroler

/-- `findDevice` finds the index of `lookup`, or answers `-1`. -/
theorem findLoop_cases (x : CStr) : ∀ (devices : List Device) (i : Nat),
    (lookup x devices = none ∧ findLoop x devices i = -1) ∨
      ∃ k d, lookup x devices = some d ∧ findLoop x devices i = ((i + k : Nat) : Int) ∧
        devices[k]? = some d ∧
        ∀ (p : Property) (v : CStr), devices.set k (p.put v d) = assignFirst p x v devices
  | [], _ => Or.inl ⟨rfl, rfl⟩
  | d :: ds, i => by
      by_cases hd : d.id = x
      · refine Or.inr ⟨0, d, by simp [lookup, hd], by simp [findLoop, hd], rfl, ?_⟩
        intro p v
        simp [assignFirst, hd]
      · have hx : x ≠ d.id := Ne.symm hd
        have hl : lookup x (d :: ds) = lookup x ds := by simp [lookup, hd]
        have hf : findLoop x (d :: ds) i = findLoop x ds ((i + 1 : Nat) : Int) := by
          simp [findLoop, hx]
        rw [hl, hf]
        rcases findLoop_cases x ds (i + 1) with ⟨hn, hm⟩ | ⟨k, e, he, hi, hk, hset⟩
        · exact Or.inl ⟨hn, hm⟩
        · refine Or.inr ⟨k + 1, e, he, ?_, hk, fun p v => ?_⟩
          · rw [hi]; congr 1; omega
          · rw [List.set_cons_succ, hset p v, assignFirst, if_neg hd]

theorem findDevice_cases (x : CStr) (devices : List Device) :
    (lookup x devices = none ∧ findDevice x devices = -1) ∨
      ∃ (k : Nat) (d : Device), lookup x devices = some d ∧ findDevice x devices = k ∧
        devices[k]? = some d ∧
        ∀ (p : Property) (v : CStr), devices.set k (p.put v d) = assignFirst p x v devices := by
  have h := findLoop_cases x devices 0
  simpa [findDevice] using h

theorem findDevice_eq_neg_one_iff {x : CStr} {devices : List Device} :
    findDevice x devices = -1 ↔ lookup x devices = none := by
  rcases findDevice_cases x devices with ⟨hn, hm⟩ | ⟨k, d, hl, hf, -⟩
  · simp [hn, hm]
  · rw [hl, hf]
    simp

/-! ## The callback -/

/-- The targets the callback lets through to `distributePubMessage`. -/
def Known (devices : List Device) (x : CStr) : Prop :=
  x = allDevices ∨ (lookup x devices).isSome

instance (devices : List Device) (x : CStr) : Decidable (Known devices x) :=
  inferInstanceAs (Decidable (_ ∨ _))

theorem publishCallback_of_split {applicationMessage : List Char} {t x : CStr}
    {ts : List CStr}
    (h : strSplit (stringCpy applicationMessage) delimiter = pure (t :: x :: ts))
    (devices : List Device) (topicName : List Char) :
    publishCallback devices topicName applicationMessage =
      ⟨[.write .messageCpy (stringCpy applicationMessage)],
        .ok (⟨stringCpy topicName, stringCpy applicationMessage⟩,
          if Known devices x then .distributePubMessage else .publishNoDevice)⟩ := by
  have h₁ : load (t :: x :: ts) 1 = pure (some x) := load_of_lt rfl
  simp only [publishCallback, h, h₁, pure_bind, use_some]
  have hindex : (if x ≠ allDevices then findDevice x devices else 0) ≠ -1 ↔ Known devices x := by
    by_cases hx : x = allDevices
    · simp [Known, hx]
    · simp [Known, hx, findDevice_eq_neg_one_iff, Option.isSome_iff_ne_none]
  by_cases hk : Known devices x
  · rw [if_pos (hindex.mpr hk), if_pos hk]
    rfl
  · rw [if_neg fun h => hk (hindex.mp h), if_neg hk]
    rfl

/-! ## The handler -/

/-- How many tokens of a message with this type the callback and the handler read. -/
def tokensRead (mesType : CStr) : Nat := if mesType = MesType.propertyChanged then 4 else 2

theorem handle_of_split {applicationMessage : List Char} {t x : CStr} {ts : List CStr}
    (h : strSplit (stringCpy applicationMessage) delimiter = pure (t :: x :: ts)) (stale : CStr)
    (devices : List Device) (topicName : List Char) :
    handle stale devices topicName applicationMessage =
      write .messageCpy (stringCpy applicationMessage) >>= fun _ =>
        if Known devices x then
          write .messageCpy (stringCpy applicationMessage) >>= fun _ =>
            dispatch stale devices (stringCpy applicationMessage) (t :: x :: ts)
        else (fun _ => devices) <$> publishNoDevice := by
  rw [handle, publishCallback_of_split h devices topicName]
  by_cases hk : Known devices x
  · rw [if_pos hk, if_pos hk, bind_of_ok rfl]
    simp only [runHandler, distributePubMessage, h, pure_bind]
    rfl
  · rw [if_neg hk, if_neg hk, bind_of_ok rfl]
    rfl

def listed : Property → Device → CStr
  | .info, d => d.info ++ "\n".toList
  | .value, d => d.id ++ " : ".toList ++ d.value ++ "\n".toList

def listLoop : Property → List Device → CStr → Exec CStr
  | .info => listInfo
  | .value => listValue

@[simp] theorem completed_strcat_bind {β : Type} (message s : CStr) (f : CStr → Exec β) :
    completed (strcat message s >>= f) = completed (f (message ++ s)) := by
  rw [completed_bind (show completed (strcat message s) = some (message ++ s, []) from rfl)]
  simp

theorem completed_listLoop (p : Property) : ∀ (devices : List Device) (message : CStr),
    completed (listLoop p devices message) =
      some (message ++ devices.flatMap (listed p), [])
  | [], message => by cases p <;> simp [listLoop, listInfo, listValue]
  | d :: ds, message => by
      have ih := completed_listLoop p ds
      cases p with
      | info =>
          simp only [listLoop] at ih
          simp only [listLoop, listInfo, completed_strcat_bind, ih, listed, List.flatMap_cons,
            List.append_assoc]
      | value =>
          simp only [listLoop] at ih
          simp only [listLoop, listValue, completed_strcat_bind, ih, listed, List.flatMap_cons,
            List.append_assoc]

section Writes

variable {P : Effect → Prop}

theorem emits_strcat_bind {β : Type} {message s : CStr} {f : CStr → Exec β} :
    (strcat message s >>= f).Emits P ↔
      P (.write .listing (message ++ s)) ∧ (f (message ++ s)).Emits P := by
  rw [strcat, bind_assoc, emits_write_bind, pure_bind]

theorem emits_listLoop_of_writes (h : ∀ text, P (.write .listing text)) (p : Property) :
    ∀ (devices : List Device) (message : CStr), (listLoop p devices message).Emits P
  | [], _ => by cases p <;> exact emits_pure _ _
  | d :: ds, message => by
      have ih := emits_listLoop_of_writes h p ds
      cases p with
      | info =>
          simp only [listLoop] at ih
          simp only [listLoop, listInfo, emits_strcat_bind, h, true_and]
          exact ih _
      | value =>
          simp only [listLoop] at ih
          simp only [listLoop, listValue, emits_strcat_bind, h, true_and]
          exact ih _

end Writes

/-- The reply to a `Get` of every device. -/
def listing (p : Property) (stale : CStr) (devices : List Device) : CStr :=
  stale ++ "\n".toList ++ devices.flatMap (listed p)

theorem completed_answerGet_all (p : Property) (stale : CStr) (devices : List Device) :
    completed (answerGet p (listLoop p) stale allDevices devices) =
      some ((), [⟨Topic.ui, listing p stale devices⟩]) := by
  simp only [answerGet, ne_eq, not_true_eq_false, if_false, completed_strcat_bind]
  rw [completed_bind (completed_listLoop p devices _)]
  simp [listing]

theorem completed_answerGet_one {p : Property} {x : CStr} {d : Device} {devices : List Device}
    (hx : x ≠ allDevices) (hd : lookup x devices = some d) (stale : CStr) :
    completed (answerGet p (listLoop p) stale x devices) =
      some ((), [⟨Topic.ui, p.get d⟩]) := by
  rcases findDevice_cases x devices with ⟨hn, -⟩ | ⟨k, e, hl, hf, hk, -⟩
  · rw [hd] at hn; cases hn
  · obtain rfl : e = d := Option.some.inj (hl.symm.trans hd)
    rw [answerGet, if_pos hx, hf, completed_bind (completed_access hk)]
    simp

theorem completed_storeChanged {p : Property} {x v : CStr} {d : Device} {devices : List Device}
    (hd : lookup x devices = some d) :
    completed (storeChanged p (findDevice x devices) (some v) devices) =
      some (assignFirst p x v devices, []) := by
  rcases findDevice_cases x devices with ⟨hn, -⟩ | ⟨k, e, -, hf, hk, hset⟩
  · rw [hd] at hn; cases hn
  · rw [storeChanged, use_some, pure_bind, hf, completed_bind (completed_access hk)]
    simp [hset]

/-- `acknowledgement` of a `Set`, and the topic it is passed on to. -/
def acknowledgement : Property → CStr
  | .value => valueSet
  | .info => infoSet

def forwardTopic : Property → CStr
  | .value => Topic.devicesFunc
  | .info => Topic.devicesInfo

/-! ## The dispatch, one message kind at a time -/

section Dispatch

variable (stale : CStr) (devices : List Device) (mes : CStr)

theorem dispatch_get (p : Property) (id : Word) :
    dispatch stale devices mes (Mes.get p id).tokens =
      (fun _ => devices) <$> answerGet p (listLoop p) stale id.text devices := by
  have h₀ : load (Mes.get p id).tokens 0 = pure (some p.getType.text) := rfl
  have h₁ : load (Mes.get p id).tokens 1 = pure (some id.text) := rfl
  simp only [dispatch, h₀, h₁, pure_bind, use_some]
  cases p with
  | info => rw [if_pos (by decide), bind_pure_comp]; rfl
  | value => rw [if_neg (by decide), if_pos (by decide), bind_pure_comp]; rfl

theorem dispatch_set (p : Property) (id v : Word) :
    dispatch stale devices mes (Mes.set p id v).tokens =
      (fun _ => devices) <$> forwardSet (acknowledgement p) (forwardTopic p) mes := by
  have h₀ : load (Mes.set p id v).tokens 0 = pure (some p.setType.text) := rfl
  have h₁ : load (Mes.set p id v).tokens 1 = pure (some id.text) := rfl
  simp only [dispatch, h₀, h₁, pure_bind, use_some]
  cases p with
  | value =>
      rw [if_neg (by decide), if_neg (by decide), if_pos (by decide), bind_pure_comp]; rfl
  | info =>
      rw [if_neg (by decide), if_neg (by decide), if_neg (by decide), if_pos (by decide),
        bind_pure_comp]
      rfl

theorem dispatch_changed (p : Property) (id v : Word) :
    dispatch stale devices mes (Mes.changed p id v).tokens =
      storeChanged p (findDevice id.text devices) (some v.text) devices := by
  have h₀ : load (Mes.changed p id v).tokens 0 = pure (some MesType.propertyChanged) := rfl
  have h₁ : load (Mes.changed p id v).tokens 1 = pure (some id.text) := rfl
  have h₂ : load (Mes.changed p id v).tokens 2 = pure (some p.word.text) := rfl
  have h₃ : load (Mes.changed p id v).tokens 3 = pure (some v.text) := rfl
  simp only [dispatch, h₀, h₁, h₂, h₃, pure_bind, use_some]
  rw [if_neg (by decide), if_neg (by decide), if_neg (by decide), if_neg (by decide),
    if_pos (by decide)]
  cases p with
  | value => rw [if_pos (by decide)]
  | info => rw [if_neg (by decide), if_pos (by decide)]

end Dispatch

/-! ## The five outcomes -/

/-- The device a message is about, where it names one. -/
def target : Mes → Option Word
  | .get _ id | .set _ id _ | .changed _ id _ => some id
  | .reading _ => none

section Outcomes

variable {payload : CStr} (stale : CStr) (devices : List Device) (topicName : List Char)

theorem handle_carried {m : Mes} (h : m.Carried payload) {x : Word} (hx : target m = some x) :
    completed (handle stale devices topicName payload) =
      if Known devices x.text then completed (dispatch stale devices payload m.tokens)
      else some (devices, [⟨Topic.ui, deviceNotFound⟩]) := by
  have hsplit : strSplit (stringCpy payload) delimiter = pure m.tokens := by
    rw [h.stringCpy, h.strSplit]
  obtain ⟨t, ts, ht⟩ : ∃ t ts, m.tokens = t :: x.text :: ts := by
    cases m <;> simp only [target, Option.some.injEq, reduceCtorEq] at hx
    all_goals subst hx; exact ⟨_, _, rfl⟩
  rw [ht] at hsplit
  rw [handle_of_split hsplit, completed_write_bind, ht, h.stringCpy]
  split
  · exact completed_write_bind _ _ _
  · rfl

theorem handle_unknown {m : Mes} (h : m.Carried payload) {x : Word} (hx : target m = some x)
    (hk : ¬ Known devices x.text) :
    completed (handle stale devices topicName payload) =
      some (devices, [⟨Topic.ui, deviceNotFound⟩]) := by
  rw [handle_carried stale devices topicName h hx, if_neg hk]

theorem handle_get_all {p : Property} {id : Word} (h : (Mes.get p id).Carried payload)
    (hid : id.text = allDevices) :
    completed (handle stale devices topicName payload) =
      some (devices, [⟨Topic.ui, listing p stale devices⟩]) := by
  have hk : Known devices id.text := Or.inl hid
  rw [handle_carried stale devices topicName h rfl, if_pos hk, dispatch_get, completed_map, hid,
    completed_answerGet_all]
  rfl

theorem handle_get_one {p : Property} {id : Word} (h : (Mes.get p id).Carried payload)
    (hid : id.text ≠ allDevices) {d : Device} (hd : lookup id.text devices = some d) :
    completed (handle stale devices topicName payload) =
      some (devices, [⟨Topic.ui, p.get d⟩]) := by
  have hk : Known devices id.text := Or.inr (by rw [hd]; rfl)
  rw [handle_carried stale devices topicName h rfl, if_pos hk, dispatch_get, completed_map,
    completed_answerGet_one hid hd]
  rfl

theorem handle_set {p : Property} {id v : Word} (h : (Mes.set p id v).Carried payload)
    (hk : Known devices id.text) :
    completed (handle stale devices topicName payload) =
      some (devices, [⟨Topic.ui, acknowledgement p⟩, ⟨forwardTopic p, payload⟩]) := by
  rw [handle_carried stale devices topicName h rfl, if_pos hk, dispatch_set, completed_map]
  rfl

theorem handle_changed {p : Property} {id v : Word} (h : (Mes.changed p id v).Carried payload)
    {d : Device} (hd : lookup id.text devices = some d) :
    completed (handle stale devices topicName payload) =
      some (assignFirst p id.text v.text devices, []) := by
  have hk : Known devices id.text := Or.inr (by rw [hd]; rfl)
  rw [handle_carried stale devices topicName h rfl, if_pos hk, dispatch_changed,
    completed_storeChanged hd]

/-- What a command makes the controller pass on. -/
def forwards (payload : CStr) : Mes → List Msg
  | .set p id _ => if Known devices id.text then [⟨forwardTopic p, payload⟩] else []
  | .get _ _ | .changed _ _ _ | .reading _ => []

/-- A command: the table stays, one answer goes to the user, a known `Set` is passed on. -/
theorem handle_command {m : Mes} (h : m.Carried payload) (hm : m.IsCommand) :
    ∃ answer, completed (handle stale devices topicName payload) =
      some (devices, ⟨Topic.ui, answer⟩ :: forwards devices payload m) := by
  cases m with
  | get p id =>
      by_cases hid : id.text = allDevices
      · exact ⟨_, handle_get_all stale devices topicName h hid⟩
      · cases hd : lookup id.text devices with
        | some d => exact ⟨_, handle_get_one stale devices topicName h hid hd⟩
        | none =>
            have hk : ¬ Known devices id.text := by simp [Known, hid, hd]
            exact ⟨_, handle_unknown stale devices topicName h rfl hk⟩
  | set p id v =>
      by_cases hk : Known devices id.text
      · exact ⟨_, by rw [handle_set stale devices topicName h hk, forwards, if_pos hk]⟩
      · exact ⟨_, by rw [handle_unknown stale devices topicName h rfl hk, forwards, if_neg hk]⟩
  | changed _ _ _ | reading _ => exact absurd hm not_false

end Outcomes

end Kontroler

end SmartHome
