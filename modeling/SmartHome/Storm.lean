/-
# `Storm` — every cascade of messages ends

Deliver the messages in flight in any order, each to all its subscribers at once,
with whatever tables.  A Pi sends only `PropertyChanged` on `controler`, and only
for a reading or a `Set`; the controller, which hears nothing but `controler`,
answers a `PropertyChanged` with at most one fixed text and everything else on other
topics.  So a message only ever causes messages of a lower `rank`.
-/
import SmartHome.Traffic
import SmartHome.Lib.Soup

namespace SmartHome

open Traced Fields

/-! ## The nodes around a bag of messages -/

/-- What the nodes subscribe to when their tables are `built`. -/
def subscribedFrom (built : Node → List Device) : Node → List CStr
  | .commandLine => [Topic.ui]
  | .kontroler => [Topic.controler]
  | .senzorski => Senzorski.subscriptions (built .senzorski)
  | .aktuatorski => Aktuatorski.subscriptions (built .aktuatorski)

theorem Boot.subscriptions_eq (b : Boot) : ∀ n, b.subscriptions n = subscribedFrom b.table n
  | .commandLine | .kontroler | .senzorski | .aktuatorski => rfl

/-- What `m` does to node `n`: a subscriber handles it to the end, whatever its stack holds;
the others do not see it. -/
def Receives (built : Node → List Device) (n : Node) (m : Msg) (devices devices' : List Device)
    (sent : List Msg) : Prop :=
  (m.topic ∈ subscribedFrom built n →
    ∃ stale, completed (n.handle stale devices m) = some (devices', sent)) ∧
  (m.topic ∉ subscribedFrom built n → devices' = devices ∧ sent = [])

/-- The delivery of `m` to all its subscribers, and everything they send. -/
def Delivered (built : Node → List Device) (tables : Node → List Device) (m : Msg)
    (tables' : Node → List Device) (out : List Msg) : Prop :=
  ∃ sent : Node → List Msg, (∀ n, Receives built n m (tables n) (tables' n) (sent n)) ∧
    out = sent .kontroler ++ sent .senzorski ++ sent .aktuatorski ++ sent .commandLine

/-! ## Ranks -/

/-- The first token of a payload. -/
def Msg.mesType (m : Msg) : Option CStr := (fields delimiter (stringCpy m.payload)).head?

/-- A message that a Pi may answer. -/
def Stirs (m : Msg) : Prop :=
  m.mesType = some MesType.sensorMes ∨ m.mesType = some MesType.setDevInfo ∨
    m.mesType = some MesType.setDevValue

instance : DecidablePred Stirs := fun _ => inferInstanceAs (Decidable (_ ∨ _))

/-- How long a cascade a message can start. -/
def rank (m : Msg) : Nat :=
  if m.topic = Topic.controler then
    if m.mesType = some MesType.propertyChanged then 1 else 3
  else if Stirs m then 2 else 0

theorem rank_le_two {m : Msg} (h : m.topic ≠ Topic.controler) : rank m ≤ 2 := by
  rw [rank, if_neg h]
  split
  · exact Nat.le_refl 2
  · exact Nat.zero_le 2

theorem two_le_rank {m : Msg} (h : Stirs m) : 2 ≤ rank m := by
  rw [rank]
  split
  · have hne : m.mesType ≠ some MesType.propertyChanged := by
      rcases h with h | h | h <;> rw [h] <;> decide
    rw [if_neg hne]
    exact Nat.le_succ 2
  · exact Nat.le_refl 2

/-- The announcement of a change. -/
def Announces (m : Msg) : Prop :=
  m.topic = Topic.controler ∧ m.mesType = some MesType.propertyChanged

theorem Announces.rank_eq {m : Msg} (h : Announces m) : rank m = 1 := by
  rw [rank, if_pos h.1, if_pos h.2]

theorem announces_sprintfChanged (id property value : CStr) :
    Announces ⟨Topic.controler, sprintfChanged id property value⟩ := by
  refine ⟨rfl, ?_⟩
  have hcut : stringCpy (sprintfChanged id property value) =
      MesType.propertyChanged ++ '.' :: cstr (id ++ '.' :: property ++ '.' :: value) := by
    have hnul : ∀ c ∈ MesType.propertyChanged ++ ['.'], decide (c ≠ nul) = true :=
      forall_ne_of_not_mem (by decide)
    have hassoc : sprintfChanged id property value =
        (MesType.propertyChanged ++ ['.']) ++ (id ++ '.' :: property ++ '.' :: value) := by
      simp [sprintfChanged]
    rw [stringCpy, cstr, hassoc, List.takeWhile_append_of_pos hnul, List.append_assoc]
    rfl
  have hfield : IsField delimiter MesType.propertyChanged := by decide
  rw [Msg.mesType, hcut]
  exact congrArg List.head? (fields_append_cons hfield _)

/-! ## What the handlers send -/

/-- Every message an effect publishes is in `Q`. -/
def Effect.Sends (Q : Msg → Prop) (e : Effect) : Prop := ∀ m ∈ e.msg?, Q m

section Sends

variable {Q : Msg → Prop}

@[simp] theorem sends_write (dest : Buffer) (s : CStr) : (Effect.write dest s).Sends Q := by
  intro m hm
  cases hm

@[simp] theorem sends_access (i : Int) : (Effect.access i).Sends Q := by
  intro m hm
  cases hm

@[simp] theorem sends_publish {t s : CStr} : (Effect.publish t s).Sends Q ↔ Q ⟨t, s⟩ := by
  simp [Effect.Sends, Effect.msg?]

theorem Emits.published {α : Type} {x : Exec α} (h : x.Emits (Effect.Sends Q)) :
    ∀ m ∈ published x, Q m := by
  intro m hm
  obtain ⟨e, he, hem⟩ := List.mem_filterMap.mp hm
  exact h e he m hem

end Sends

/-! ## The Pis -/

theorem sends_storeAndPublish (p : Property) (new : CStr) (d : Device) :
    (storeAndPublish p new d).Emits (Effect.Sends Announces) := by
  simp only [storeAndPublish, emits_write_bind, emits_publish_bind, sends_write, sends_publish,
    emits_pure, true_and, and_true]
  exact announces_sprintfChanged _ _ _

theorem sends_setDev (p : Property) (tokens : List CStr) (devices : List Device) :
    (setDev p tokens devices).Emits (Effect.Sends Announces) := by
  refine (emits_load tokens 1).bind fun id _ => (emits_load tokens 2).bind fun new _ => ?_
  refine Emits.sweep fun d _ => (emits_use id).bind fun id' _ => ?_
  split
  · exact (emits_use new).bind fun new' _ => sends_storeAndPublish p new' d
  · exact emits_pure _ _

theorem sends_automationControl (tokens : List CStr) (topic : CStr) (devices : List Device) :
    (automationControl tokens topic devices).Emits (Effect.Sends Announces) := by
  refine (emits_load tokens 1).bind fun arg _ => (emits_use arg).bind fun arg' _ => ?_
  refine (emits_use _).bind fun value _ => Emits.sweep fun d _ => ?_
  unfold automationBody
  split
  · rw [emits_write_bind]
    refine ⟨sends_write _ _, ?_⟩
    split
    · exact sends_storeAndPublish .value _ d
    · exact emits_pure _ _
  · exact emits_pure _ _

theorem Pi.sent {devices devices' : List Device} {m : Msg} {out : List Msg}
    (h : completed (Pi.handle devices m.topic m.payload) = some (devices', out)) :
    ∀ m' ∈ out, Announces m' ∧ Stirs m := by
  obtain ⟨hok, rfl⟩ := completed_eq_some.mp h
  obtain ⟨t, ts, hf, hsplit⟩ := Pi.split_of_ok hok
  have htype : m.mesType = some t := by rw [Msg.mesType, hf]; rfl
  rw [Pi.handle, Pi.distributePubMessage_of_split hsplit]
  split
  · rename_i ht
    intro m' hm'
    exact ⟨Emits.published (sends_automationControl _ _ _) m' hm', Or.inl (htype.trans (ht ▸ rfl))⟩
  split
  · rename_i ht
    intro m' hm'
    exact ⟨Emits.published (sends_setDev _ _ _) m' hm', Or.inr (Or.inl (htype.trans (ht ▸ rfl)))⟩
  split
  · rename_i ht
    intro m' hm'
    exact ⟨Emits.published (sends_setDev _ _ _) m' hm', Or.inr (Or.inr (htype.trans (ht ▸ rfl)))⟩
  · intro m' hm'
    cases hm'

/-! ## The controller -/

namespace Kontroler

/-- On another topic than the one the controller hears. -/
def Leaves (m : Msg) : Prop := m.topic ≠ Topic.controler

theorem sends_answerGet (p : Property) (stale x : CStr) (devices : List Device) :
    (answerGet p (listLoop p) stale x devices).Emits (Effect.Sends Leaves) := by
  have hui : ∀ s : CStr, (publish Topic.ui s).Emits (Effect.Sends Leaves) := by
    intro s
    rw [emits_publish, sends_publish]
    show Topic.ui ≠ Topic.controler
    decide
  unfold answerGet
  split
  · refine (emits_access (sends_access _)).bind fun d _ => ?_
    rw [emits_write_bind]
    exact ⟨sends_write _ _, hui _⟩
  · rw [emits_strcat_bind]
    refine ⟨sends_write _ _, Emits.bind ?_ fun _ _ => hui _⟩
    exact emits_listLoop_of_writes (sends_write .listing) p devices _

theorem sends_forwardSet (p : Property) (mes : CStr) :
    (forwardSet (acknowledgement p) (forwardTopic p) mes).Emits (Effect.Sends Leaves) := by
  simp only [forwardSet, emits_write_bind, emits_publish_bind, emits_publish, sends_write,
    sends_publish, true_and, Leaves]
  cases p <;> decide

theorem sends_storeTokens {Q : Msg → Prop} (devices : List Device) (x : CStr) (ts : List CStr) :
    (storeTokens devices x ts).Emits (Effect.Sends Q) := by
  rw [emits_storeTokens]
  intro s _
  rw [storeChanged, use_some, pure_bind]
  refine (emits_access (sends_access _)).bind fun d _ => ?_
  rw [emits_write_bind]
  exact ⟨sends_write _ _, emits_pure _ _⟩

/-- A message the controller hears is answered on other topics, and a `PropertyChanged` at
most by the text for an unknown device. -/
theorem sent {stale : CStr} {devices devices' : List Device} {m : Msg} {out : List Msg}
    (h : completed (handle stale devices m.topic m.payload) = some (devices', out)) :
    ∀ m' ∈ out, Leaves m' ∧
      (m.mesType = some MesType.propertyChanged → m' = ⟨Topic.ui, deviceNotFound⟩) := by
  obtain ⟨hok, rfl⟩ := completed_eq_some.mp h
  obtain ⟨t, x, ts, hf, hsplit⟩ := split_of_ok hok
  have htype : m.mesType = some t := by rw [Msg.mesType, hf]; rfl
  rw [handle_of_split hsplit, published_write_bind, htype]
  split
  · rw [published_write_bind]
    by_cases ht : t = MesType.propertyChanged
    · subst ht
      have hsilent : (dispatch stale devices (stringCpy m.payload)
          (MesType.propertyChanged :: x :: ts)).Emits (Effect.Sends fun _ => False) := by
        refine (emits_dispatch devices ?_ ?_).mpr fun _ => sends_storeTokens devices x ts
        · intro p hp
          exact absurd hp (by cases p <;> decide)
        · intro p hp
          exact absurd hp (by cases p <;> decide)
      intro m' hm'
      exact (Emits.published hsilent m' hm').elim
    · have hleaves : (dispatch stale devices (stringCpy m.payload) (t :: x :: ts)).Emits
          (Effect.Sends Leaves) :=
        (emits_dispatch devices (fun p _ => sends_answerGet p _ _ _)
          fun p _ => sends_forwardSet p _).mpr fun h => absurd h ht
      intro m' hm'
      exact ⟨Emits.published hleaves m' hm', fun h => absurd (Option.some.inj h) ht⟩
  · intro m' hm'
    obtain rfl := List.mem_singleton.mp hm'
    exact ⟨by rw [Leaves]; decide, fun _ => rfl⟩

end Kontroler

/-! ## Every delivery descends -/

theorem rank_deviceNotFound : rank ⟨Topic.ui, deviceNotFound⟩ = 0 := by decide +kernel

theorem Receives.rank_lt {built : Node → List Device} {n : Node} {m : Msg}
    {devices devices' : List Device} {sent : List Msg}
    (h : Receives built n m devices devices' sent) : ∀ m' ∈ sent, rank m' < rank m := by
  intro m' hm'
  by_cases hsub : m.topic ∈ subscribedFrom built n
  · obtain ⟨stale, h⟩ := h.1 hsub
    have hpi : completed (Pi.handle devices m.topic m.payload) = some (devices', sent) →
        rank m' < rank m := by
      intro h
      obtain ⟨hann, hstirs⟩ := Pi.sent h m' hm'
      rw [hann.rank_eq]
      exact two_le_rank hstirs
    cases n with
    | commandLine =>
        cases h
        cases hm'
    | kontroler =>
        have htopic : m.topic = Topic.controler := List.mem_singleton.mp hsub
        obtain ⟨hleaves, hchanged⟩ := Kontroler.sent h m' hm'
        by_cases ht : m.mesType = some MesType.propertyChanged
        · have hm : Announces m := ⟨htopic, ht⟩
          rw [hchanged ht, rank_deviceNotFound, hm.rank_eq]
          exact Nat.one_pos
        · have hm : rank m = 3 := by rw [rank, if_pos htopic, if_neg ht]
          rw [hm]
          exact Nat.lt_succ_of_le (rank_le_two hleaves)
    | senzorski => exact hpi h
    | aktuatorski => exact hpi h
  · rw [(h.2 hsub).2] at hm'
    cases hm'

theorem delivered_falls (built : Node → List Device) :
    Soup.Falls (Delivered built) fun m' m => rank m' < rank m := by
  rintro tables m tables' out ⟨sent, hall, rfl⟩ m' hm'
  obtain ⟨n, hn⟩ : ∃ n, m' ∈ sent n := by
    simp only [List.mem_append] at hm'
    rcases hm' with ((h | h) | h) | h
    exacts [⟨_, h⟩, ⟨_, h⟩, ⟨_, h⟩, ⟨_, h⟩]
  exact (hall n).rank_lt m' hn

/-- From any messages in flight and any tables, with the subscriptions of any tables, every
sequence of deliveries is finite. -/
theorem deliveries_end (built tables : Node → List Device) (flying : Multiset Msg) :
    ¬ ∃ run : Nat → Soup.Config (Node → List Device) Msg, run 0 = ⟨tables, flying⟩ ∧
      ∀ k, Soup.Step (Delivered built) (run k) (run (k + 1)) := by
  rintro ⟨run, -, hrun⟩
  have hwf : WellFounded fun m' m : Msg => rank m' < rank m := (measure rank).wf
  exact Soup.no_infinite_run hwf (delivered_falls built) ⟨run, hrun⟩

end SmartHome
