/-
# `Acknowledge` — what an acknowledged `Set` has done once it has arrived

The controller acknowledges a `Set` for every target it lets through and passes
it on.  `devices/func` is heard by the actuator Pi alone, `devices/info` by both
Pis.  Here is exactly when the acknowledged text is in a Pi's table at the
moment the last subscriber has handled the request.
-/
import SmartHome.Log

namespace SmartHome

open Traced PubSub Register

/-- The command at the head of the command line's link, a `Set`, is handled by the controller,
which answers that it has been carried out. -/
structure Acknowledged (b : Boot) (c c' : Sys) (p : Property) (id v : Word) (m : Msg) : Prop where
  carried : (Mes.set p id v).Carried m.payload
  head : (c.link .commandLine .kontroler).head? = some m
  step : ∃ stale, PubSub.step (protocol b) c (.deliver .commandLine .kontroler stale) = some c'
  answer : ⟨Topic.ui, Kontroler.acknowledgement p⟩ ∈
    (c'.published .kontroler).drop (c.published .kontroler).length

/-- Every subscriber of the topic a `Set` is passed on to has handled what the controller had
published for it in `c`. -/
def Arrived (b : Boot) (p : Property) (c c' : Sys) : Prop :=
  ∀ n, Kontroler.forwardTopic p ∈ b.subscriptions n →
    ((c.published .kontroler).filter ((protocol b).subscribed n)).length ≤
      (c'.handledFrom .kontroler n).length

def InPlace (c : Sys) (p : Property) (id v : CStr) : Prop :=
  ∃ o, Owns o ∧ ∃ d ∈ c.node o, d.id = id ∧ p.get d = v

/-- The text a message wants to be the info of the device with an id. -/
def infoFor (id : CStr) (m : Msg) : Option CStr :=
  match Fields.fields delimiter (stringCpy m.payload) with
  | [t, x, v] => if t = MesType.setDevInfo ∧ id = x then some v else none
  | _ => none

/-- Where a request has an effect.  A value: on a device of the actuator Pi, or on a sensor that
shows it in `c`, just before the actuator Pi handles the request.  An info: on a device of a Pi, if
the last request for that info the Pi has handled by then asks for the same text. -/
def Takes (b : Boot) (c c' : Sys) : Property → CStr → CStr → Prop
  | .value, id, v => (∃ d ∈ b.table .aktuatorski, d.id = id) ∨
      ∃ d ∈ c.node .senzorski, d.id = id ∧ d.value = v
  | .info, id, v => ∃ o, Owns o ∧ (∃ d ∈ b.table o, d.id = id) ∧
      last (infoFor id) ((c'.handled o).map Prod.snd) = some v

/-! ## The request on its way -/

section Request

variable {b : Boot} {c c₁ c₂ c₃ : Sys} {p : Property} {id v : Word} {m : Msg}

theorem Acknowledged.passed_on (h : Acknowledged b c c₁ p id v m) :
    c₁.published .kontroler = c.published .kontroler ++
      [⟨Topic.ui, Kontroler.acknowledgement p⟩, ⟨Kontroler.forwardTopic p, m.payload⟩] := by
  obtain ⟨hcar, hhead, ⟨stale, hs⟩, hans⟩ := h
  obtain ⟨rest, hl⟩ : ∃ rest, c.link .commandLine .kontroler = m :: rest := by
    cases hl : c.link .commandLine .kontroler with
    | nil => rw [hl] at hhead; cases hhead
    | cons m' rest => rw [hl] at hhead; cases hhead; exact ⟨rest, rfl⟩
  by_cases hk : Kontroler.Known (c.node .kontroler) id.text
  · have ha : (protocol b).handle .kontroler stale (c.node .kontroler) m = _ :=
      Kontroler.handle_set stale (c.node .kontroler) m.topic hcar hk
    rw [step_deliver hl ha] at hs
    cases hs
    simp [Config.commit, Config.take]
  · have ha : (protocol b).handle .kontroler stale (c.node .kontroler) m = _ :=
      Kontroler.handle_unknown stale (c.node .kontroler) m.topic hcar rfl hk
    rw [step_deliver hl ha] at hs
    cases hs
    simp only [Config.commit, Config.take, Function.update_self, List.drop_left,
      List.mem_singleton, Msg.mk.injEq, true_and] at hans
    cases p <;> exact absurd hans (by decide)

theorem Acknowledged.filter_eq (h : Acknowledged b c c₁ p id v m) {n : Node}
    (hn : Kontroler.forwardTopic p ∈ b.subscriptions n) :
    ∃ before, (c₁.published .kontroler).filter ((protocol b).subscribed n) =
      before ++ [⟨Kontroler.forwardTopic p, m.payload⟩] := by
  refine ⟨(c.published .kontroler ++ [(⟨Topic.ui, Kontroler.acknowledgement p⟩ : Msg)]).filter
    ((protocol b).subscribed n), ?_⟩
  have hsub : (protocol b).subscribed n ⟨Kontroler.forwardTopic p, m.payload⟩ = true :=
    subscribed_iff.mpr hn
  rw [h.passed_on, List.append_cons, List.filter_append, List.filter_cons_of_pos hsub,
    List.filter_nil]

theorem Acknowledged.handled (h : Acknowledged b c c₁ p id v m)
    (hpub : c₁.published .kontroler <+: c₃.published .kontroler) (horder : InOrder (protocol b) c₃)
    (harr : Arrived b p c₁ c₃) {n : Node} (hn : Kontroler.forwardTopic p ∈ b.subscriptions n) :
    ⟨Kontroler.forwardTopic p, m.payload⟩ ∈ (c₃.handled n).map Prod.snd := by
  obtain ⟨before, hbefore⟩ := h.filter_eq hn
  have hpre := horder.handledFrom_grows hpub (harr n hn)
  rw [hbefore] at hpre
  have hmem := hpre.subset (List.mem_append_right before (List.mem_singleton_self _))
  obtain ⟨x, hx, heq⟩ := List.mem_map.mp hmem
  rw [← heq]
  exact List.mem_map_of_mem (List.mem_of_mem_filter hx)

/-- With one subscriber, the step that completes the arrival handles the request itself. -/
theorem Acknowledged.last_step (h : Acknowledged b c c₁ p id v m)
    (hpub : c₁.published .kontroler <+: c₃.published .kontroler) (horder : InOrder (protocol b) c₃)
    {e : SysEvent} (hs : PubSub.step (protocol b) c₂ e = some c₃) (hnot : ¬ Arrived b p c₁ c₂)
    (harr : Arrived b p c₁ c₃) {n : Node}
    (hn : ∀ n', Kontroler.forwardTopic p ∈ b.subscriptions n' ↔ n' = n) :
    ∃ stale s ms rest, (protocol b).handle n stale (c₂.node n)
        ⟨Kontroler.forwardTopic p, m.payload⟩ = some (s, ms) ∧
      c₃ = (c₂.take .kontroler n ⟨Kontroler.forwardTopic p, m.payload⟩ rest).commit
        (protocol b) n s ms := by
  have hsub := (hn n).mpr rfl
  have hlt : (c₂.handledFrom .kontroler n).length <
      ((c₁.published .kontroler).filter ((protocol b).subscribed n)).length := by
    by_contra hge
    refine hnot fun n' hn' => ?_
    obtain rfl := (hn n').mp hn'
    exact Nat.not_lt.mp hge
  rcases handledFrom_step hs .kontroler n with heq | ⟨stale, x, rest, s, ms, -, -, hh, hc₃, heq⟩
  · have hge := harr n hsub
    rw [heq] at hge
    omega
  · obtain ⟨before, hbefore⟩ := h.filter_eq hsub
    have hpre := horder.handledFrom_grows hpub (harr n hsub)
    have hlen := harr n hsub
    rw [heq, List.length_append, List.length_singleton] at hlen
    have hfull : before ++ [⟨Kontroler.forwardTopic p, m.payload⟩] =
        c₂.handledFrom .kontroler n ++ [x] := by
      rw [← hbefore, ← heq]
      refine hpre.eq_of_length ?_
      rw [heq, List.length_append, List.length_singleton]
      omega
    have hx := (List.append_inj' hfull rfl).2
    cases hx
    exact ⟨stale, s, ms, rest, hh, hc₃⟩

end Request

/-! ## Its effect -/

theorem subscribers_value {b : Boot} (n : Node) :
    Kontroler.forwardTopic .value ∈ b.subscriptions n ↔ n = .aktuatorski := by
  constructor
  · intro h
    rcases subscriber_forward h with h | ⟨-, h⟩
    · exact h
    · cases h
  · rintro rfl
    exact of_decide_eq_true rfl

theorem subscribes_info {b : Boot} {o : Node} (ho : Owns o) :
    Kontroler.forwardTopic .info ∈ b.subscriptions o := by
  rcases ho with rfl | rfl <;> exact of_decide_eq_true rfl

theorem inPlace_value {b : Boot} {c₂ c₃ : Sys} {id v : Word} {m : Msg} {rest : List Msg}
    {stale : CStr} {s : List Device} {ms : List Msg} (hK : (contract b).Holds c₂)
    (hcar : (Mes.set .value id v).Carried m.payload)
    (hh : (protocol b).handle .aktuatorski stale (c₂.node .aktuatorski)
      ⟨Kontroler.forwardTopic .value, m.payload⟩ = some (s, ms))
    (hc₃ : c₃ = (c₂.take .kontroler .aktuatorski ⟨Kontroler.forwardTopic .value, m.payload⟩
      rest).commit (protocol b) .aktuatorski s ms) :
    InPlace c₃ .value id.text v.text ↔ Takes b c₂ c₃ .value id.text v.text := by
  have hh' : completed (Pi.handle (c₂.node .aktuatorski) (Kontroler.forwardTopic .value)
      m.payload) = some (s, ms) := hh
  rw [Pi.handle_carried hcar] at hh'
  cases hh'
  have hakt : c₃.node .aktuatorski = (c₂.node .aktuatorski).map fun d =>
      d.meet ((Mes.set .value id v).demand (stringCpy (Kontroler.forwardTopic .value)) d) := by
    rw [hc₃, commit_node_self]
  have hsenz : c₃.node .senzorski = c₂.node .senzorski := by
    rw [hc₃, commit_node_of_ne _ _ _ _ (by decide), take_node]
  constructor
  · rintro ⟨o, rfl | rfl, d, hd, hid, hv⟩
    · rw [hsenz] at hd
      exact Or.inr ⟨d, hd, hid, hv⟩
    · rw [hakt] at hd
      obtain ⟨e, he, rfl⟩ := List.mem_map.mp hd
      rw [Device.meet_id] at hid
      obtain ⟨e₀, he₀, hf⟩ := (hK.node .aktuatorski).mem_frame he
      exact Or.inl ⟨e₀, he₀, (congrArg Frame.id hf).trans hid⟩
  · rintro (⟨d₀, hd₀, hid⟩ | ⟨d, hd, hid, hv⟩)
    · obtain ⟨e, he, hf⟩ := (hK.node .aktuatorski).mem_frame' hd₀
      have heid : e.id = id.text := (congrArg Frame.id hf).trans hid
      refine ⟨.aktuatorski, Or.inr rfl, _, hakt ▸ List.mem_map_of_mem he, ?_, ?_⟩
      · rw [Device.meet_id, heid]
      · rw [Mes.demand, if_pos heid, Device.meet]
        exact Property.get_put .value v.text e
    · exact ⟨.senzorski, Or.inl rfl, d, hsenz ▸ hd, hid, hv⟩

theorem demanded_info {d : Device} {id : CStr} (hid : d.id = id) (m : Msg) :
    demanded .info d m = infoFor id m := by
  unfold demanded infoFor
  split
  · rename_i t arg hf
    rw [hf, if_neg fun h => by cases h.1]
  · rename_i t x v hf
    rw [hf, hid]
    rfl
  · rename_i hf₂ hf₃
    split
    · rename_i t x v hf
      exact absurd hf (hf₃ t x v)
    · rfl

/-- A device whose info was last asked to be `t` shows `t`. -/
theorem inPlace_info {b : Boot} {c : Sys}
    (h : Reachable (protocol b) (CommandsIn UserCommand) b.start c) {id v : CStr}
    (hlog : ∀ o, Owns o → ∃ m ∈ (c.handled o).map Prod.snd, infoFor id m ≠ none) :
    InPlace c .info id v ↔ Takes b c c .info id v := by
  have hK := contract_holds h
  have hshow : ∀ o, Owns o → ∀ d ∈ c.node o, d.id = id →
      (d.info = v ↔ last (infoFor id) ((c.handled o).map Prod.snd) = some v) := by
    intro o ho d hd hid
    obtain ⟨i, hi⟩ := List.getElem?_of_mem hd
    obtain ⟨d₀, hd₀⟩ := (hK.node o).entry hi
    have hid₀ : d₀.id = id := by
      rw [← hid]
      exact (congrArg Frame.id ((hK.node o).frame_eq hi hd₀)).symm
    have hinfo : d.info = read d₀.info (demanded .info d₀) ((c.handled o).map Prod.snd) :=
      owner_logged h (q := .info) ho (fun _ => rfl) i d₀ d hd₀ hi
    rw [hinfo, Register.read, last_congr fun m _ => demanded_info hid₀ m]
    cases hl : last (infoFor id) ((c.handled o).map Prod.snd) with
    | none =>
        obtain ⟨m, hm, hne⟩ := hlog o ho
        exact absurd (last_eq_none.mp hl m hm) hne
    | some t => simp
  constructor
  · rintro ⟨o, ho, d, hd, hid, hv⟩
    obtain ⟨d₀, hd₀, hf⟩ := (hK.node o).mem_frame hd
    exact ⟨o, ho, ⟨d₀, hd₀, (congrArg Frame.id hf).trans hid⟩, (hshow o ho d hd hid).mp hv⟩
  · rintro ⟨o, ho, ⟨d₀, hd₀, hid⟩, hl⟩
    obtain ⟨d, hd, hf⟩ := (hK.node o).mem_frame' hd₀
    have hdid := (congrArg Frame.id hf).trans hid
    exact ⟨o, ho, d, hd, hdid, (hshow o ho d hd hdid).mpr hl⟩

/-- In any run of the closed system: a `Set` is acknowledged between `c` and `c₁`, and in the
step from `c₂` to `c₃` the last subscriber has handled it.  The text is then in a Pi's table
exactly where the request has an effect. -/
theorem acknowledged_inPlace_iff {b : Boot} {c c₁ c₂ c₃ : Sys} {e : SysEvent} {p : Property}
    {id v : Word} {m : Msg}
    (hc : Reachable (protocol b) (CommandsIn Typed) b.start c)
    (hack : Acknowledged b c c₁ p id v m)
    (hc₂ : Reachable (protocol b) (CommandsIn Typed) c₁ c₂)
    (he : CommandsIn Typed e) (hs : step (protocol b) c₂ e = some c₃)
    (hnot : ¬ Arrived b p c₁ c₂) (harr : Arrived b p c₁ c₃) :
    InPlace c₃ p id.text v.text ↔ Takes b c₂ c₃ p id.text v.text := by
  obtain ⟨stale, hstep⟩ := hack.step
  have hdeliver : CommandsIn Typed (.deliver .commandLine .kontroler stale) := trivial
  have hc₁ : Reachable (protocol b) (CommandsIn Typed) b.start c₁ :=
    hc.trans (.one hdeliver hstep)
  have hr₂ := (hc₁.trans hc₂).mono (CommandsIn.mono fun _ => Typed.userCommand)
  have hr₃ : Reachable (protocol b) (CommandsIn UserCommand) b.start c₃ :=
    hr₂.trans (.one (CommandsIn.mono (fun _ => Typed.userCommand) e he) hs)
  have hpub : c₁.published .kontroler <+: c₃.published .kontroler :=
    (hc₂.trans (.one he hs)).published_grows .kontroler
  cases p with
  | value =>
      obtain ⟨stale, s, ms, rest, hh, hc₃⟩ :=
        hack.last_step hpub hr₃.inOrder hs hnot harr subscribers_value
      exact inPlace_value (contract_holds hr₂) hack.carried hh hc₃
  | info =>
      refine inPlace_info hr₃ fun o ho => ?_
      refine ⟨_, hack.handled hpub hr₃.inOrder harr (subscribes_info ho), ?_⟩
      have hf : Fields.fields delimiter (stringCpy m.payload) =
          [MesType.setDevInfo, id.text, v.text] := fields_stringCpy hack.carried
      simp [infoFor, hf]

/-! ## Two requests -/

def requestRun (payload : CStr) : List SysEvent := [.act .commandLine (.command payload)]

def answeredRun (payload : CStr) : List SysEvent :=
  requestRun payload ++ [.deliver .commandLine .kontroler []]

def arrivedRun (payload : CStr) : List SysEvent :=
  answeredRun payload ++ [.deliver .kontroler .aktuatorski []]

theorem reachable_request {id v : Word}
    (hlen : (Mes.set .value id v).text.length ≤ 39)
    (hrun : (run (protocol Boot.zero) Boot.zero.start
      (requestRun (Mes.set .value id v).text)).isSome) :
    Reachable (protocol Boot.zero) (CommandsIn Typed) Boot.zero.start
      (Boot.zero.after (requestRun (Mes.set .value id v).text)) :=
  Boot.reachable_after hrun
    (UserCommand.typed ⟨hlen, Mes.set .value id v, trivial, Mes.carried_text _⟩)

theorem arrived_value {c c' : Sys}
    (h : ((c.published .kontroler).filter ((protocol Boot.zero).subscribed .aktuatorski)).length ≤
      (c'.handledFrom .kontroler .aktuatorski).length) : Arrived Boot.zero .value c c' := by
  intro n hn
  obtain rfl := (subscribers_value n).mp hn
  exact h

def lightBulbId : Word := ⟨"light_bulb".toList, by decide⟩
def ovenId : Word := ⟨"temp_sensor_oven".toList, by decide⟩
def fiveWord : Word := ⟨"5".toList, by decide⟩

def lightText : CStr := (Mes.set .value lightBulbId onWord).text
def ovenText : CStr := (Mes.set .value ovenId fiveWord).text

theorem acknowledged_inPlace_light :
    InPlace (Boot.zero.after (arrivedRun lightText)) .value lightBulbId.text onWord.text ↔
      Takes Boot.zero (Boot.zero.after (answeredRun lightText))
        (Boot.zero.after (arrivedRun lightText)) .value lightBulbId.text onWord.text := by
  have hack : Acknowledged Boot.zero (Boot.zero.after (requestRun lightText))
      (Boot.zero.after (answeredRun lightText)) .value lightBulbId onWord
      ⟨Topic.controler, lightText⟩ := {
    carried := Mes.carried_text _
    head := by decide +kernel
    step := ⟨[], Boot.step_after (by decide +kernel)⟩
    answer := by decide +kernel }
  have hok : CommandsIn Typed (.deliver .kontroler .aktuatorski []) := trivial
  refine acknowledged_inPlace_iff (reachable_request (by decide +kernel) (by decide +kernel)) hack
    (.refl _ _ _) hok (Boot.step_after (by decide +kernel)) ?_ (arrived_value (by decide +kernel))
  exact fun h => absurd (h .aktuatorski (by decide)) (by decide +kernel)

/-- `Set_Dev_Value.temp_sensor_oven.5` is acknowledged, and nobody who hears it has the oven. -/
theorem acknowledged_not_inPlace : ¬ ∀ (b : Boot) (c c₁ c₂ c₃ : Sys) (e : SysEvent) (p : Property)
    (id v : Word) (m : Msg), Reachable (protocol b) (CommandsIn Typed) b.start c →
      Acknowledged b c c₁ p id v m → Reachable (protocol b) (CommandsIn Typed) c₁ c₂ →
        CommandsIn Typed e → step (protocol b) c₂ e = some c₃ → ¬ Arrived b p c₁ c₂ →
          Arrived b p c₁ c₃ → InPlace c₃ p id.text v.text := by
  intro h
  have hack : Acknowledged Boot.zero (Boot.zero.after (requestRun ovenText))
      (Boot.zero.after (answeredRun ovenText)) .value ovenId fiveWord
      ⟨Topic.controler, ovenText⟩ := {
    carried := Mes.carried_text _
    head := by decide +kernel
    step := ⟨[], Boot.step_after (by decide +kernel)⟩
    answer := by decide +kernel }
  have hok : CommandsIn Typed (.deliver .kontroler .aktuatorski []) := trivial
  obtain ⟨o, ho, d, hd, hid, hv⟩ := h .zero _ _ _ (Boot.zero.after (arrivedRun ovenText)) _ .value
    ovenId fiveWord _ (reachable_request (by decide +kernel) (by decide +kernel)) hack
    (.refl _ _ _) hok (Boot.step_after (by decide +kernel))
    (fun h => absurd (h .aktuatorski (by decide)) (by decide +kernel))
    (arrived_value (by decide +kernel))
  have hnone : ∀ o ∈ [Node.senzorski, .aktuatorski],
      ∀ d ∈ (Boot.zero.after (arrivedRun ovenText)).node o,
        d.id = ovenId.text → d.value ≠ fiveWord.text := by decide +kernel
  have hmem : o ∈ [Node.senzorski, .aktuatorski] := by rcases ho with rfl | rfl <;> decide
  exact hnone o hmem d hd hid hv

end SmartHome
