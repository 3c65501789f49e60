/-
# `Answers` — one answer per command, and none otherwise

The controller publishes on `ui_topic` once for every command it handles and
never for an announcement; nobody else does.  A command for an unknown device
is answered and goes no further.
-/
import SmartHome.Commands
import Mathlib.Algebra.GroupWithZero.Nat

namespace SmartHome

open Traced PubSub

/-! ## Counting answers -/

def isAnswer (m : Msg) : Bool := m.topic = Topic.ui

def isRequest (n : Node) (x : Node × Msg) : Bool := n = .kontroler ∧ x.1 = .commandLine

/-- Messages published on `ui_topic`, by anyone. -/
def answers (c : Sys) : Nat :=
  ([.commandLine, .kontroler, .senzorski, .aktuatorski].map fun n : Node =>
    (c.published n).countP isAnswer).sum

theorem countP_announced {owned : List Device} {ms : List Msg}
    (h : ∀ m ∈ ms, Announced owned m) : ms.countP isAnswer = 0 := by
  refine List.countP_eq_zero.mpr fun m hm => ?_
  rw [isAnswer, (h m hm).1]
  decide

theorem countP_forwards (devices : List Device) (payload : CStr) (m : Mes) :
    (Kontroler.forwards devices payload m).countP isAnswer = 0 := by
  refine List.countP_eq_zero.mpr fun m' hm' => ?_
  cases m with
  | get _ _ | changed _ _ _ | reading _ => exact absurd hm' List.not_mem_nil
  | set p id v =>
      rw [Kontroler.forwards] at hm'
      split at hm'
      · rw [List.mem_singleton.mp hm']
        cases p <;> exact of_decide_eq_true rfl
      · exact absurd hm' List.not_mem_nil

theorem handle_answers {b : Boot} {p n : Node} {stale : CStr} {s s' : List Device} {m : Msg}
    {ms : List Msg} (hs : Sound b n s) (hm : Shape b p n m)
    (hh : completed (n.handle stale s m) = some (s', ms)) :
    ms.countP isAnswer = if isRequest n (p, m) then 1 else 0 := by
  cases n with
  | commandLine => cases hh; rfl
  | kontroler =>
      cases p with
      | kontroler => exact absurd hm not_false
      | commandLine =>
          obtain ⟨rfl, answer, mes, -, -, rfl⟩ := Sound.kontroler_command hm.2 hh
          rw [List.countP_cons, countP_forwards]
          rfl
      | senzorski | aktuatorski =>
          obtain ⟨p, id, v, -, -, -, ha⟩ := hs.kontroler_announced hm stale
          rw [Node.handle, ha] at hh
          cases hh
          rfl
  | senzorski => exact countP_announced (hs.owner_handle (Or.inl rfl) hm hh).2
  | aktuatorski => exact countP_announced (hs.owner_handle (Or.inr rfl) hm hh).2

theorem act_answers {b : Boot} {n : Node} {a : Action} {s s' : List Device} {ms : List Msg}
    (hs : Sound b n s) (hh : (protocol b).act n a s = some (s', ms)) :
    ms.countP isAnswer = 0 := by
  have hsense : ∀ {r i}, completed (Pi.sensorsValuePublish r i s) = some (s', ms) → Owns n →
      ms.countP isAnswer = 0 := by
    intro r i hh hn
    refine List.countP_eq_zero.mpr fun m hm => ?_
    rcases (hs.owner_sense hh).2 m hm with hm | ⟨d, hd, hg, rfl⟩
    · rw [isAnswer, hm.1]
      decide
    · rcases hn with rfl | rfl
      · have hui : ∀ d ∈ b.table .senzorski, d.topic ≠ Topic.ui := of_decide_eq_true rfl
        simpa [isAnswer] using hui d hd
      · exact absurd hg (group_aktuatorski d hd)
  cases n with
  | kontroler => cases a <;> cases hh
  | commandLine =>
      cases a with
      | sense r i => cases hh
      | command payload => cases hh; rfl
  | senzorski =>
      cases a with
      | command payload => cases hh
      | sense r i => exact hsense hh (Or.inl rfl)
  | aktuatorski =>
      cases a with
      | command payload => cases hh
      | sense r i => exact hsense hh (Or.inr rfl)

theorem answers_eq {b : Boot} {c : Sys}
    (h : Reachable (protocol b) (CommandsIn UserCommand) b.start c) :
    answers c = (c.handledFrom .commandLine .kontroler).length := by
  have hbal := (contract b).replies_eq_requests isAnswer isRequest
    (fun _ hs hm hh => handle_answers hs hm hh) (fun _ hs hh => act_answers hs hh)
    (sound_table b) h
  have hother : ∀ n : Node, n ≠ .kontroler → (c.handled n).countP (isRequest n) = 0 := by
    intro n hn
    refine List.countP_eq_zero.mpr fun x _ => ?_
    simp [isRequest, hn]
  simp only [answers, List.map_cons, List.map_nil, List.sum_cons, List.sum_nil, hbal,
    hother .commandLine (by decide), hother .senzorski (by decide), hother .aktuatorski (by decide),
    Config.handledFrom, List.length_map]
  have hreq : isRequest .kontroler = fun x => decide (x.1 = .commandLine) := by
    funext x
    simp [isRequest]
  rw [List.countP_eq_length_filter, hreq, Nat.zero_add, Nat.add_zero, Nat.add_zero]

/-! ## One command -/

/-- The configuration after a command `m` has been taken off its link and answered with `ms`;
nothing else changes. -/
structure Answered (b : Boot) (c c' : Sys) (rest ms : List Msg) : Prop where
  node : c'.node = c.node
  published : ∀ n, c'.published n = if n = .kontroler then c.published n ++ ms else c.published n
  link : ∀ p n, c'.link p n =
    if p = .commandLine ∧ n = .kontroler then rest
    else if p = .kontroler then c.link p n ++ ms.filter ((protocol b).subscribed n)
    else c.link p n

theorem answered {b : Boot} {c : Sys} {m : Msg} {rest ms : List Msg}
    (hl : c.link .commandLine .kontroler = m :: rest) {stale : CStr}
    (hh : completed (Kontroler.handle stale (c.node .kontroler) m.topic m.payload) =
      some (c.node .kontroler, ms)) :
    ∃ c', step (protocol b) c (.deliver .commandLine .kontroler stale) = some c' ∧
      Answered b c c' rest ms := by
  have hh' : (protocol b).handle .kontroler stale (c.node .kontroler) m =
      some (c.node .kontroler, ms) := hh
  refine ⟨_, step_deliver hl hh', ?_, ?_, ?_⟩
  · exact Function.update_eq_self _ _
  · intro n
    by_cases hn : n = .kontroler
    · subst hn; simp [Config.commit, Config.take]
    · simp [Config.commit, Config.take, hn]
  · intro p n
    by_cases hp : p = .kontroler
    · subst hp; simp [Config.commit, Config.take]
    · simp [Config.commit, Config.take, hp]

theorem Answered.only_answer {b : Boot} {c c' : Sys} {rest : List Msg} {answer : CStr}
    (h : Answered b c c' rest [⟨Topic.ui, answer⟩]) {n : Node} (hn : n ≠ .commandLine) :
    c'.link .kontroler n = c.link .kontroler n := by
  have hsub : ¬ (protocol b).subscribed n ⟨Topic.ui, answer⟩ = true := fun hs =>
    hn (subscriber_ui (subscribed_iff.mp hs))
  rw [h.link, if_neg (fun h => by cases h.1), if_pos rfl, List.filter_cons_of_neg hsub,
    List.filter_nil, List.append_nil]

/-- In every reachable configuration there have been as many answers as commands handled, and
the next command is answered as follows: one for a device the controller does not know with
`Device non existent`, which only the command line hears, and no table changes; a `Set` for
any other is passed on as it came.  Announcements are handled without a word. -/
theorem one_answer_per_command {b : Boot} {c : Sys}
    (h : Reachable (protocol b) (CommandsIn Typed) b.start c) :
    answers c = (c.handledFrom .commandLine .kontroler).length ∧
    (∀ o, Owns o → ∀ m ∈ c.link o .kontroler, ∀ stale, ∃ devices,
      (protocol b).handle .kontroler stale (c.node .kontroler) m = some (devices, [])) ∧
    ∀ m rest stale, c.link .commandLine .kontroler = m :: rest →
      ∃ (mes : Mes) (x : Word), mes.IsCommand ∧ mes.Carried m.payload ∧
        Kontroler.target mes = some x ∧
        ∃ c', step (protocol b) c (.deliver .commandLine .kontroler stale) = some c' ∧
          (¬ Kontroler.Known (c.node .kontroler) x.text →
            Answered b c c' rest [⟨Topic.ui, deviceNotFound⟩] ∧
              (∀ n, n ≠ .commandLine → c'.link .kontroler n = c.link .kontroler n) ∧
              ∀ s, (protocol b).handle .commandLine stale s ⟨Topic.ui, deviceNotFound⟩ =
                some (s, [])) ∧
          (∀ p v, mes = .set p x v → Kontroler.Known (c.node .kontroler) x.text →
            Answered b c c' rest [⟨Topic.ui, Kontroler.acknowledgement p⟩,
              ⟨Kontroler.forwardTopic p, m.payload⟩]) := by
  have hr := h.mono (CommandsIn.mono fun _ => Typed.userCommand)
  have hK := contract_holds hr
  refine ⟨answers_eq hr, fun o ho m hm stale => ?_, fun m rest stale hl => ?_⟩
  · have hann : Announced (b.table o) m := by
      rcases ho with rfl | rfl <;> exact hK.link _ _ m hm
    obtain ⟨p, id, v, -, -, -, ha⟩ := Sound.kontroler_announced (hK.node .kontroler) hann stale
    exact ⟨_, ha⟩
  · obtain ⟨-, -, mes, hcmd, hcar⟩ := hK.link .commandLine .kontroler m (hl ▸ List.mem_cons_self)
    obtain ⟨x, hx⟩ : ∃ x, Kontroler.target mes = some x := by
      cases mes with
      | get _ id | set _ id _ => exact ⟨id, rfl⟩
      | changed _ _ _ | reading _ => exact absurd hcmd not_false
    refine ⟨mes, x, hcmd, hcar, hx, ?_⟩
    by_cases hk : Kontroler.Known (c.node .kontroler) x.text
    · obtain ⟨answer, ha⟩ := Kontroler.handle_command stale (c.node .kontroler) m.topic hcar hcmd
      obtain ⟨c', hs, hc'⟩ := answered (b := b) hl ha
      refine ⟨c', hs, fun hn => absurd hk hn, ?_⟩
      rintro p v rfl -
      rw [Kontroler.handle_set stale _ _ hcar hk] at ha
      have hms := (Prod.mk.inj (Option.some.inj ha)).2
      rw [hms]
      exact hc'
    · have ha := Kontroler.handle_unknown stale (c.node .kontroler) m.topic hcar hx hk
      obtain ⟨c', hs, hc'⟩ := answered (b := b) hl ha
      refine ⟨c', hs, fun _ => ⟨hc', fun n hn => hc'.only_answer hn, fun _ => rfl⟩, ?_⟩
      exact fun p v _ hn => absurd hn hk

/-- A command for a device that does not exist, answered. -/
def unknownRun : List SysEvent :=
  [.act .commandLine (.command "Get_Dev_Info.cellar".toList), .deliver .commandLine .kontroler []]

theorem one_answer_per_command_cellar :
    answers (Boot.zero.after unknownRun) =
      ((Boot.zero.after unknownRun).handledFrom .commandLine .kontroler).length := by
  have hcmd : Typed "Get_Dev_Info.cellar".toList :=
    UserCommand.typed ⟨by decide, .get .info ⟨"cellar".toList, by decide⟩, trivial, Or.inl rfl⟩
  have hreach : Reachable (protocol Boot.zero) (CommandsIn Typed) Boot.zero.start
      (Boot.zero.after unknownRun) :=
    Boot.reachable_after (by decide +kernel) ⟨hcmd, trivial⟩
  exact (one_answer_per_command hreach).1

end SmartHome
