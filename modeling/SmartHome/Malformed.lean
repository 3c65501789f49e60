/-
# `Malformed` — which payloads stop a node

Nothing between the broker and `str_split` looks at a payload.  A handler runs
to its end exactly on the payloads that split without an empty token and have
the tokens their type makes it read, as far as it reads them.
-/
import SmartHome.Ranges

namespace SmartHome

open Traced Fields

/-- A failed assert, or a token or a `strtok` result that is not there. -/
def Fault.Malformed : Fault → Prop
  | .assertFailed | .nullToken | .tokenBounds => True
  | .badIndex _ => False

instance : DecidablePred Fault.Malformed
  | .assertFailed | .nullToken | .tokenBounds => isTrue trivial
  | .badIndex _ => isFalse not_false

/-- What the controller needs of a message: two tokens; for a change of a target it lets
through, a third; for a change of a property, a fourth. -/
def Kontroler.WellFormed (devices : List Device) (mes : CStr) : Prop :=
  Clean delimiter mes ∧ ∃ t x ts, fields delimiter mes = t :: x :: ts ∧
    (t = MesType.propertyChanged → Known devices x →
      ∃ name rest, ts = name :: rest ∧ (IsProperty name → rest ≠ []))

/-- What a Pi needs of a message: for a reading, a token with something besides `l`; for a
`Set`, a second token, and a third if the second is the id of one of its devices. -/
def Pi.WellFormed (devices : List Device) (mes : CStr) : Prop :=
  Clean delimiter mes ∧ ∃ t ts, fields delimiter mes = t :: ts ∧
    (t = MesType.sensorMes → ∃ arg rest, ts = arg :: rest ∧ ∃ c ∈ arg, c ≠ 'l') ∧
    (t = MesType.setDevInfo ∨ t = MesType.setDevValue →
      ∃ id rest, ts = id :: rest ∧ ((∃ d ∈ devices, d.id = id) → rest ≠ []))

def Node.WellFormed : Node → List Device → CStr → Prop
  | .commandLine, _, _ => True
  | .kontroler, devices, mes => Kontroler.WellFormed devices mes
  | .senzorski, devices, mes | .aktuatorski, devices, mes => Pi.WellFormed devices mes

/-- A change of a property for all devices, where no device has that name. -/
def Node.IndexesBefore (n : Node) (devices : List Device) (mes : CStr) : Prop :=
  n = .kontroler ∧ Kontroler.ChangesAll (fields delimiter mes) ∧ lookup allDevices devices = none

/-- No fault a malformed message would cause. -/
def Sane (f : Option Fault) : Prop := ∀ e ∈ f, ¬ e.Malformed

theorem sane_none : Sane none := by
  intro e he
  cases he

theorem sane_badIndex (i : Int) : Sane (some (.badIndex i)) := by
  intro e he
  cases he
  exact not_false

theorem not_sane {e : Fault} (h : e.Malformed) : ¬ Sane (some e) := fun hs => hs e rfl h

namespace Kontroler

theorem sane_storeFault (devices : List Device) (x : CStr) : ∀ ts : List CStr,
    Sane (storeFault devices x ts) ↔
      ∃ name rest, ts = name :: rest ∧ (IsProperty name → rest ≠ [])
  | [] => iff_of_false (not_sane trivial) (by simp)
  | [name] => by
      rw [storeFault]
      by_cases hp : IsProperty name
      · rw [if_pos hp]
        exact iff_of_false (not_sane trivial) (by simp [hp])
      · rw [if_neg hp]
        exact iff_of_true sane_none ⟨name, [], rfl, fun h => absurd h hp⟩
  | name :: val :: rest => by
      refine iff_of_true ?_ ⟨name, val :: rest, rfl, fun _ => List.cons_ne_nil _ _⟩
      rw [storeFault]
      split
      exacts [sane_badIndex _, sane_none]

theorem sane_fault (devices : List Device) (mes : CStr) :
    Sane (fault devices mes) ↔ WellFormed devices mes := by
  unfold fault WellFormed
  by_cases hc : Clean delimiter mes
  · rw [if_neg (not_not_intro hc)]
    simp only [hc, true_and]
    match hf : fields delimiter mes with
    | [] | [_] => exact iff_of_false (not_sane trivial) (by simp)
    | t :: x :: ts =>
        by_cases hcond : t = MesType.propertyChanged ∧ Known devices x
        · have heq : (∃ t' x' ts', t :: x :: ts = t' :: x' :: ts' ∧
              (t' = MesType.propertyChanged → Known devices x' →
                ∃ name rest, ts' = name :: rest ∧ (IsProperty name → rest ≠ []))) ↔
              ∃ name rest, ts = name :: rest ∧ (IsProperty name → rest ≠ []) := by
            constructor
            · rintro ⟨_, _, _, ⟨⟩, h⟩
              exact h hcond.1 hcond.2
            · intro h
              exact ⟨t, x, ts, rfl, fun _ _ => h⟩
          simp only [if_pos hcond]
          rw [heq]
          exact sane_storeFault devices x ts
        · simp only [if_neg hcond]
          exact iff_of_true sane_none ⟨t, x, ts, rfl, fun h₁ h₂ => absurd ⟨h₁, h₂⟩ hcond⟩
  · rw [if_pos hc]
    exact iff_of_false (not_sane trivial) fun h => hc h.1

theorem storeFault_badIndex {devices : List Device} {x : CStr} : ∀ {ts : List CStr} {i : Int},
    storeFault devices x ts = some (.badIndex i) →
      (∃ name ∈ ts[0]?, IsProperty name) ∧ lookup x devices = none
  | [], _, h => by cases h
  | [name], _, h => by
      rw [storeFault] at h
      split at h <;> cases h
  | name :: _ :: _, _, h => by
      rw [storeFault] at h
      split at h
      · rename_i hp
        exact ⟨⟨name, rfl, hp.1⟩, hp.2⟩
      · cases h

theorem fault_badIndex_iff (devices : List Device) (mes : CStr) :
    (∃ i, fault devices mes = some (.badIndex i)) ↔
      WellFormed devices mes ∧ ChangesAll (fields delimiter mes) ∧
        lookup allDevices devices = none := by
  constructor
  · rintro ⟨i, h⟩
    have hwf : WellFormed devices mes := (sane_fault devices mes).mp (h ▸ sane_badIndex i)
    refine ⟨hwf, ?_⟩
    obtain ⟨hc, t, x, ts, hf, -⟩ := hwf
    simp only [fault, not_true_eq_false, hc, if_false, hf] at h
    split at h
    · rename_i hcond
      obtain ⟨rfl, hk⟩ := hcond
      obtain ⟨hname, hl⟩ := storeFault_badIndex h
      have hx : x = allDevices := by
        refine hk.resolve_right fun hsome => ?_
        rw [hl] at hsome
        cases hsome
      subst hx
      rw [hf]
      exact ⟨⟨rfl, rfl, hname⟩, hl⟩
    · cases h
  · rintro ⟨⟨hc, t, x, ts, hf, hts⟩, ⟨ht, hx, hname⟩, hl⟩
    rw [hf] at ht hx hname
    cases ht
    cases hx
    have hk : Known devices allDevices := Or.inl rfl
    obtain ⟨name, rest, rfl, hrest⟩ := hts rfl hk
    obtain ⟨_, ⟨⟩, hp⟩ := hname
    obtain ⟨val, rest, rfl⟩ := List.exists_cons_of_ne_nil (hrest hp)
    refine ⟨-1, ?_⟩
    simp only [fault, not_true_eq_false, hc, if_false, hf, hk, and_self, if_true, storeFault, hp,
      hl]

end Kontroler

namespace Pi

theorem sane_readingFault : ∀ ts : List CStr,
    Sane (readingFault ts) ↔ ∃ arg rest, ts = arg :: rest ∧ ∃ c ∈ arg, c ≠ 'l'
  | [] => iff_of_false (not_sane trivial) (by simp)
  | arg :: rest => by
      rw [readingFault]
      have hnone := strtok_eq_none_iff (d := 'l') (s := arg)
      cases hs : strtok 'l' arg with
      | none =>
          refine iff_of_false (not_sane trivial) ?_
          rintro ⟨_, _, ⟨⟩, c, hc, hne⟩
          exact hne (hnone.mp hs c hc)
      | some r =>
          rw [hs] at hnone
          obtain ⟨c, hc, hne⟩ : ∃ c ∈ arg, c ≠ 'l' := by simpa using hnone
          exact iff_of_true sane_none ⟨arg, rest, rfl, c, hc, hne⟩

theorem sane_setFault (devices : List Device) : ∀ ts : List CStr,
    Sane (setFault devices ts) ↔
      ∃ id rest, ts = id :: rest ∧ ((∃ d ∈ devices, d.id = id) → rest ≠ [])
  | [] => iff_of_false (not_sane trivial) (by simp)
  | [id] => by
      rw [setFault]
      by_cases hid : ∃ d ∈ devices, d.id = id
      · rw [if_pos hid]
        refine iff_of_false (not_sane trivial) ?_
        rintro ⟨_, _, ⟨⟩, h⟩
        exact h hid rfl
      · rw [if_neg hid]
        exact iff_of_true sane_none ⟨id, [], rfl, fun h => absurd h hid⟩
  | id :: v :: rest =>
      iff_of_true sane_none ⟨id, v :: rest, rfl, fun _ => List.cons_ne_nil _ _⟩

theorem fault_ne_badIndex (devices : List Device) (mes : CStr) (i : Int) :
    fault devices mes ≠ some (.badIndex i) := by
  intro h
  unfold fault at h
  split at h
  · cases h
  · split at h
    · cases h
    · rename_i t ts hf
      split at h
      · cases ts with
        | nil => cases h
        | cons arg rest => rw [readingFault] at h; split at h <;> cases h
      · split at h
        · rcases ts with _ | ⟨id, _ | ⟨v, rest⟩⟩
          · cases h
          · rw [setFault] at h
            split at h <;> cases h
          · cases h
        · cases h

theorem sane_fault (devices : List Device) (mes : CStr) :
    Sane (fault devices mes) ↔ WellFormed devices mes := by
  unfold fault WellFormed
  by_cases hc : Clean delimiter mes
  · rw [if_neg (not_not_intro hc)]
    simp only [hc, true_and]
    obtain ⟨t, ts, hf⟩ := List.exists_cons_of_ne_nil (fields_ne_nil_of_clean hc)
    rw [hf]
    have hset : t = MesType.setDevInfo ∨ t = MesType.setDevValue → t ≠ MesType.sensorMes := by
      rintro (rfl | rfl) <;> decide
    by_cases h₁ : t = MesType.sensorMes
    · simp only [if_pos h₁]
      rw [sane_readingFault]
      constructor
      · exact fun h => ⟨t, ts, rfl, fun _ => h, fun hs => absurd h₁ (hset hs)⟩
      · rintro ⟨_, _, ⟨⟩, h, -⟩
        exact h h₁
    · simp only [if_neg h₁]
      by_cases h₂ : t = MesType.setDevInfo ∨ t = MesType.setDevValue
      · rw [if_pos h₂, sane_setFault]
        constructor
        · exact fun h => ⟨t, ts, rfl, fun hs => absurd hs h₁, fun _ => h⟩
        · rintro ⟨_, _, ⟨⟩, -, h⟩
          exact h h₂
      · rw [if_neg h₂]
        exact iff_of_true sane_none
          ⟨t, ts, rfl, fun hs => absurd hs h₁, fun hs => absurd hs h₂⟩
  · rw [if_pos hc]
    exact iff_of_false (not_sane trivial) fun h => hc h.1

end Pi

/-! ## Every node -/

theorem sane_iff {f : Option Fault} : Sane f ↔ f = none ∨ ∃ i, f = some (.badIndex i) := by
  cases f with
  | none => exact iff_of_true sane_none (Or.inl rfl)
  | some e =>
      cases e with
      | badIndex i => exact iff_of_true (sane_badIndex i) (Or.inr ⟨i, rfl⟩)
      | assertFailed | nullToken | tokenBounds =>
          refine iff_of_false (not_sane trivial) ?_
          rintro (h | ⟨i, h⟩) <;> cases h

theorem fault_eq_none_iff {f : Option Fault} {P Q : Prop} (hP : Sane f ↔ P)
    (hQ : (∃ i, f = some (.badIndex i)) ↔ P ∧ Q) : f = none ↔ P ∧ ¬ Q := by
  rw [← hP] at hQ ⊢
  constructor
  · rintro rfl
    refine ⟨sane_none, fun hq => ?_⟩
    obtain ⟨i, hi⟩ := hQ.mpr ⟨sane_none, hq⟩
    cases hi
  · rintro ⟨hs, hq⟩
    exact (sane_iff.mp hs).resolve_right fun hi => hq (hQ.mp hi).2

/-- Whatever the table, the topic and the bytes: a handler meets no failing assert and no
missing token exactly when the message is well formed for its node, and it returns unless,
besides, the message makes the controller index before its table. -/
theorem handles_iff_wellFormed (n : Node) (stale : CStr) (devices : List Device) (m : Msg) :
    ((∀ e ∈ stopped (n.handle stale devices m), ¬ e.Malformed) ↔
      n.WellFormed devices (stringCpy m.payload)) ∧
    (stopped (n.handle stale devices m) = none ↔
      n.WellFormed devices (stringCpy m.payload) ∧
        ¬ n.IndexesBefore devices (stringCpy m.payload)) := by
  have hpi : ∀ n' : Node, n' ≠ .kontroler →
      (Sane (stopped (Pi.handle devices m.topic m.payload)) ↔
        Pi.WellFormed devices (stringCpy m.payload)) ∧
      (stopped (Pi.handle devices m.topic m.payload) = none ↔
        Pi.WellFormed devices (stringCpy m.payload) ∧
          ¬ n'.IndexesBefore devices (stringCpy m.payload)) := by
    intro n' hn'
    have hsane := Pi.sane_fault devices (stringCpy m.payload)
    rw [Pi.stopped_handle]
    refine ⟨hsane, fault_eq_none_iff hsane (iff_of_false ?_ fun h => hn' h.2.1)⟩
    exact fun ⟨i, hi⟩ => Pi.fault_ne_badIndex _ _ i hi
  cases n with
  | commandLine =>
      refine ⟨iff_of_true sane_none trivial, iff_of_true rfl ⟨trivial, fun h => ?_⟩⟩
      cases h.1
  | kontroler =>
      have hsane := Kontroler.sane_fault devices (stringCpy m.payload)
      rw [Node.handle, Kontroler.stopped_handle]
      refine ⟨hsane, fault_eq_none_iff hsane ?_⟩
      rw [Kontroler.fault_badIndex_iff]
      simp only [Node.IndexesBefore, true_and, Node.WellFormed]
  | senzorski => exact hpi .senzorski (by decide)
  | aktuatorski => exact hpi .aktuatorski (by decide)

/-- A payload without a delimiter, on the topic the controller subscribes to. -/
theorem malformed_stops : ¬ ∀ (b : Boot) (n : Node) (stale : CStr) (m : Msg),
    m.topic ∈ b.subscriptions n → ∀ e ∈ stopped (n.handle stale (b.table n) m), ¬ e.Malformed := by
  intro h
  have hnull : stopped (Node.kontroler.handle [] (Boot.zero.table .kontroler)
      ⟨Topic.controler, "hello".toList⟩) = some .nullToken := by decide +kernel
  exact h .zero .kontroler [] ⟨Topic.controler, "hello".toList⟩ (by decide) .nullToken hnull trivial

/-- A `Set` that ends after the id, and a lone delimiter. -/
example : (["Set_Dev_Value.door_opener", "."].map fun payload =>
    stopped (Pi.handle Aktuatorski.main Topic.devicesFunc payload.toList)) =
      [some .nullToken, some .assertFailed] := by
  decide +kernel

end SmartHome
