/-
# `Ranges` — which payloads index the controller's table out of range

The callback screens out targets that `findDevice` does not know, except `*`,
whatever the type of the message.  `Get` and `Set` look `*` up nowhere;
`PropertyChanged` does, and its index is then `-1`.
-/
import SmartHome.Traffic

namespace SmartHome

open Traced PubSub

namespace Kontroler

/-- A change of a property announced for all devices at once. -/
def ChangesAll (tokens : List CStr) : Prop :=
  tokens[0]? = some MesType.propertyChanged ∧ tokens[1]? = some allDevices ∧
    ∃ name ∈ tokens[2]?, IsProperty name

section Effects

variable {len : Nat}

@[simp] theorem inTable_write (dest : Buffer) (text : CStr) :
    (Effect.write dest text).InTable len := trivial

@[simp] theorem inTable_publish (topic payload : CStr) :
    (Effect.publish topic payload).InTable len := trivial

theorem inTable_access {k : Nat} : (Effect.access k).InTable len ↔ k < len :=
  ⟨fun h => Int.ofNat_lt.mp h.2, fun h => ⟨Int.natCast_nonneg k, Int.ofNat_lt.mpr h⟩⟩

end Effects

variable (devices : List Device)

theorem inTable_answerGet (p : Property) (stale : CStr) {x : CStr} (hk : Known devices x) :
    (answerGet p (listLoop p) stale x devices).Emits (Effect.InTable devices.length) := by
  unfold answerGet
  by_cases hall : x = allDevices
  · rw [if_neg (not_not_intro hall), emits_strcat_bind]
    refine ⟨inTable_write _ _, Emits.bind ?_ fun _ _ => by simp⟩
    exact emits_listLoop_of_writes (inTable_write .listing) p devices _
  · rw [if_pos hall]
    rcases findDevice_cases x devices with ⟨hn, -⟩ | ⟨k, d, -, hf, hd, -⟩
    · have hsome := hk.resolve_left hall
      rw [hn] at hsome
      cases hsome
    · rw [hf, emits_access_bind hd]
      exact ⟨inTable_access.mpr (List.getElem?_eq_some_iff.mp hd).1, by simp⟩

theorem inTable_storeChanged (p : Property) (x v : CStr) :
    (storeChanged p (findDevice x devices) (some v) devices).Emits
      (Effect.InTable devices.length) ↔ lookup x devices ≠ none := by
  rcases findDevice_cases x devices with ⟨hn, hf⟩ | ⟨k, d, hl, hf, hd, -⟩
  · have hbad : ¬ (Effect.access (-1)).InTable devices.length := fun h => absurd h.1 (by decide)
    rw [hn, hf]
    exact ⟨fun h => absurd (h (.access (-1)) List.mem_cons_self) hbad, fun h => absurd rfl h⟩
  · have hk : k < devices.length := (List.getElem?_eq_some_iff.mp hd).1
    rw [storeChanged, use_some, pure_bind, hf, emits_access_bind hd, hl]
    simp [inTable_access, hk]

theorem inTable_storeTokens (x name val : CStr) (ts : List CStr) :
    (storeTokens devices x (name :: val :: ts)).Emits (Effect.InTable devices.length) ↔
      (IsProperty name → lookup x devices ≠ none) := by
  simp only [storeTokens, IsProperty]
  by_cases hv : name = Property.value.name
  · simp [hv, inTable_storeChanged]
  · by_cases hi : name = Property.info.name
    · rw [if_neg hv, if_pos hi, inTable_storeChanged]
      simp [hi]
    · simp [hv, hi]

theorem inTable_dispatch (stale mes : CStr) {t x : CStr} {ts : List CStr} (hk : Known devices x) :
    (dispatch stale devices mes (t :: x :: ts)).Emits (Effect.InTable devices.length) ↔
      (t = MesType.propertyChanged →
        (storeTokens devices x ts).Emits (Effect.InTable devices.length)) := by
  refine emits_dispatch devices (fun p _ => inTable_answerGet devices p stale hk) fun p _ => ?_
  simp [forwardSet]

variable {devices}

/-- On every table the controller can have and every message that `str_split` accepts and that
has the tokens its type reads: every access is in range unless the message announces a change
of a property of all devices. -/
theorem accesses_inTable_iff {u : Uninit} (hr : Reaches u devices) {stale : CStr}
    {topicName applicationMessage : List Char} {tokens : List CStr} {t : CStr}
    (h : strSplit (stringCpy applicationMessage) delimiter = pure tokens)
    (ht : tokens[0]? = some t) (hlen : tokensRead t ≤ tokens.length) :
    (handle stale devices topicName applicationMessage).Emits (Effect.InTable devices.length) ↔
      ¬ ChangesAll tokens := by
  obtain ⟨x, ts, rfl⟩ : ∃ x ts, tokens = t :: x :: ts := by
    have htwo : 2 ≤ tokens.length := by
      refine Nat.le_trans ?_ hlen
      unfold tokensRead
      split <;> omega
    rcases tokens with _ | ⟨t', _ | ⟨x, ts⟩⟩
    · simp at htwo
    · simp at htwo
    · cases ht
      exact ⟨x, ts, rfl⟩
  rw [handle_of_split h]
  simp only [emits_write_bind, inTable_write, true_and]
  by_cases hk : Known devices x
  · rw [if_pos hk]
    simp only [emits_write_bind, inTable_write, true_and, inTable_dispatch devices _ _ hk]
    by_cases hc : t = MesType.propertyChanged
    · subst hc
      obtain ⟨name, val, ts, rfl⟩ : ∃ name val rest, ts = name :: val :: rest := by
        rcases ts with _ | ⟨name, _ | ⟨val, rest⟩⟩
        · exact absurd hlen (of_decide_eq_true rfl)
        · exact absurd hlen (of_decide_eq_true rfl)
        · exact ⟨name, val, rest, rfl⟩
      have hx : lookup x devices ≠ none ↔ x ≠ allDevices := by
        constructor
        · rintro hsome rfl
          exact hsome hr.lookup_allDevices
        · intro hne
          exact Option.isSome_iff_ne_none.mp (hk.resolve_left hne)
      rw [inTable_storeTokens, hx]
      simp only [ChangesAll, List.getElem?_cons_zero, List.getElem?_cons_succ, Option.some.injEq,
        Option.mem_def, exists_eq_left', true_and, forall_const]
      constructor
      · intro h hall
        exact h hall.2 hall.1
      · intro h hp hall
        exact h ⟨hall, hp⟩
    · refine iff_of_true (fun h => absurd h hc) fun hall => hc ?_
      exact Option.some.inj hall.1
  · rw [if_neg hk]
    refine iff_of_true (by simp [publishNoDevice]) fun hall => hk (Or.inl ?_)
    exact Option.some.inj hall.2.1

theorem accesses_inTable_door :
    (handle [] (main ⟨0, 0⟩) Topic.controler "PropertyChanged.door_opener.Value.ON".toList).Emits
        (Effect.InTable (main ⟨0, 0⟩).length) ↔
      ¬ ChangesAll ["PropertyChanged".toList, "door_opener".toList, "Value".toList, "ON".toList] :=
  accesses_inTable_iff (t := MesType.propertyChanged) .main rfl rfl (by decide)

/-- `PropertyChanged.*.Value.1` is let through and looked up. -/
theorem accesses_outOfTable : ¬ ∀ (u : Uninit) (devices : List Device), Reaches u devices →
    ∀ (stale : CStr) (topicName applicationMessage : List Char) (tokens : List CStr) (t : CStr),
      strSplit (stringCpy applicationMessage) delimiter = pure tokens → tokens[0]? = some t →
        tokensRead t ≤ tokens.length →
          (handle stale devices topicName applicationMessage).Emits
            (Effect.InTable devices.length) := by
  intro h
  have hbad := h ⟨0, 0⟩ (main ⟨0, 0⟩) .main [] Topic.controler "PropertyChanged.*.Value.1".toList
    ["PropertyChanged".toList, "*".toList, "Value".toList, "1".toList] MesType.propertyChanged
    rfl rfl (by decide)
  exact absurd hbad (by decide +kernel)

theorem reaches_node {b : Boot} {ok : SysEvent → Prop} {c : Sys}
    (h : Reachable (protocol b) ok b.start c) : Reaches b.kontroler (c.node .kontroler) := by
  refine h.induct (fun c => Reaches b.kontroler (c.node .kontroler)) .main ?_
  intro c e c' _ hc hs
  obtain ⟨p, n, stale, m, rest, s, ms, -, -, hh, rfl⟩ | ⟨n, a, s, ms, -, ha, rfl⟩ := step_cases hs
  · by_cases hn : n = .kontroler
    · subst hn
      rw [commit_node_self]
      exact .handle hc (completed_eq_some.mp hh).1
    · rw [commit_node_of_ne _ _ _ _ (Ne.symm hn)]
      exact hc
  · by_cases hn : n = .kontroler
    · subst hn
      cases a <;> cases ha
    · rw [commit_node_of_ne _ _ _ _ (Ne.symm hn)]
      exact hc

end Kontroler

end SmartHome
