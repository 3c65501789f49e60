/-
# `Commands` — what a user can make the command line publish

A pass of the loop is two copies, the asserts of `str_split` and a decision from the
tokens, `verdict` (`CommandLine.loop_eq`).  It publishes a word exactly when that carries
a `Get` or a `Set` (`CommandLine.published_loop`), so everything that leaves it is a
command the contract of the closed system admits (`Typed.userCommand`).
-/
import SmartHome.Invariant

namespace SmartHome

open Traced Fields

theorem isWord_of_mem_fields {s t : CStr} (hs : nul ∉ s) (h : t ∈ fields delimiter s) :
    IsWord t := by
  obtain ⟨hne, hd⟩ := isField_of_mem_fields h
  exact ⟨hne, hd, fun hn => hs (mem_of_mem_fields h hn)⟩

theorem carried_of_fields {m : Mes} {s : CStr} (hs : Clean delimiter s)
    (h : fields delimiter s = m.tokens) : m.Carried s := by
  obtain ⟨fs, -, hall, rfl | rfl⟩ := clean_iff_join.mp hs
  · rw [fields_join hall] at h
    exact Or.inl (by rw [h, Mes.text])
  · rw [fields_join_trailing hall] at h
    exact Or.inr (by rw [h, Mes.text])

/-! ## What the loop decides -/

def IsGet (t : CStr) : Prop := t = MesType.getDevInfo ∨ t = MesType.getDevValue

def IsSet (t : CStr) : Prop := t = MesType.setDevInfo ∨ t = MesType.setDevValue

instance (t : CStr) : Decidable (IsGet t) := inferInstanceAs (Decidable (_ ∨ _))

instance (t : CStr) : Decidable (IsSet t) := inferInstanceAs (Decidable (_ ∨ _))

theorem IsGet.isField {t : CStr} (h : IsGet t) : IsField delimiter t := by
  rcases h with rfl | rfl <;> decide

theorem IsSet.isField {t : CStr} (h : IsSet t) : IsField delimiter t := by
  rcases h with rfl | rfl <;> decide

theorem IsSet.not_isGet {t : CStr} (h : IsSet t) : ¬ IsGet t := by
  rcases h with rfl | rfl <;> decide

namespace CommandLine

inductive Verdict where
  | accept
  | invalidNumber
  | help
  | unrecognized
  deriving DecidableEq, Repr

/-- The decision of a pass, from the tokens. -/
def verdict : List CStr → Verdict
  | [] => .unrecognized
  | t :: ts =>
      if IsGet t then (if ts.length = 1 then .accept else .invalidNumber)
      else if IsSet t then (if ts.length = 2 then .accept else .invalidNumber)
      else if t = help then .help
      else .unrecognized

/-- What a pass prints once it has decided. -/
def Verdict.text (commands w : CStr) : Verdict → CStr
  | .accept => "Publishing: ".toList ++ w ++ "\n".toList
  | .invalidNumber => CommandLine.invalidNumber
  | .help => commands
  | .unrecognized => CommandLine.unrecognized

/-- What a pass does once it has decided. -/
def Verdict.effects (commands w : CStr) (v : Verdict) : List Effect :=
  .print (v.text commands w) :: if v = .accept then [.publish Topic.controler w] else []

theorem publishCommand_eq (expected tokensLength : Nat) (commands w : CStr) :
    publishCommand expected tokensLength w =
      ⟨(if tokensLength = expected then Verdict.accept else .invalidNumber).effects commands w,
        .ok ()⟩ := by
  unfold publishCommand
  by_cases h : tokensLength = expected
  · rw [if_neg (not_not_intro h), if_pos h]
    rfl
  · rw [if_pos h, if_neg h]
    rfl

theorem reply_eq (commands w t : CStr) (ts : List CStr) :
    (if t = MesType.getDevInfo ∨ t = MesType.getDevValue then
        publishCommand 2 (t :: ts).length w
      else if t = MesType.setDevInfo ∨ t = MesType.setDevValue then
        publishCommand 3 (t :: ts).length w
      else if t = help then print commands else print unrecognized) =
      ⟨(verdict (t :: ts)).effects commands w, .ok ()⟩ := by
  by_cases hget : t = MesType.getDevInfo ∨ t = MesType.getDevValue
  · have hget' : IsGet t := hget
    rw [if_pos hget, publishCommand_eq _ _ commands, verdict, if_pos hget']
    simp only [List.length_cons, Nat.reduceEqDiff]
  have hget' : ¬ IsGet t := hget
  by_cases hset : t = MesType.setDevInfo ∨ t = MesType.setDevValue
  · have hset' : IsSet t := hset
    rw [if_neg hget, if_pos hset, publishCommand_eq _ _ commands, verdict, if_neg hget',
      if_pos hset']
    simp only [List.length_cons, Nat.reduceEqDiff]
  have hset' : ¬ IsSet t := hset
  rw [if_neg hget, if_neg hset, verdict, if_neg hget', if_neg hset']
  split <;> rfl

/-- **One pass.**  Two copies, then the asserts of `str_split`, then the decision. -/
theorem loop_eq (commands : CStr) (word : List Char) :
    loop commands word =
      if Clean delimiter (cstr word) then
        ⟨.write .input (cstr word) :: .write .command (cstr word) ::
          (verdict (fields delimiter (cstr word))).effects commands (cstr word), .ok ()⟩
      else ⟨[.write .input (cstr word), .write .command (cstr word)], .error .assertFailed⟩ := by
  by_cases hc : Clean delimiter (cstr word)
  · obtain ⟨t, ts, hf⟩ := List.exists_cons_of_ne_nil (fields_ne_nil_of_clean hc)
    have hsplit := strSplit_of_clean hc
    have hload : load (t :: ts) 0 = pure (some t) := rfl
    rw [hf] at hsplit
    rw [if_pos hc, hf]
    simp only [loop, hsplit, pure_bind, hload, use_some, reply_eq]
    rfl
  · rw [if_neg hc]
    simp only [loop, strSplit_of_not_clean hc, stop_bind]
    rfl

theorem published_loop_eq (commands : CStr) (word : List Char) :
    published (loop commands word) =
      if Clean delimiter (cstr word) ∧ verdict (fields delimiter (cstr word)) = .accept then
        [⟨Topic.controler, cstr word⟩] else [] := by
  rw [loop_eq]
  by_cases hc : Clean delimiter (cstr word)
  · simp only [hc, true_and, if_true]
    cases verdict (fields delimiter (cstr word)) <;> rfl
  · simp only [hc, false_and, if_false]
    rfl

theorem verdict_accept {ts : List CStr} : verdict ts = .accept ↔
    (∃ t f, IsGet t ∧ ts = [t, f]) ∨ ∃ t f g, IsSet t ∧ ts = [t, f, g] := by
  constructor
  · intro h
    cases ts with
    | nil => cases h
    | cons t ts =>
        rw [verdict] at h
        split at h
        · rename_i hget
          split at h
          · rename_i hlen
            obtain ⟨f, rfl⟩ := List.length_eq_one_iff.mp hlen
            exact Or.inl ⟨t, f, hget, rfl⟩
          · cases h
        split at h
        · rename_i hset
          split at h
          · rename_i hlen
            obtain ⟨f, g, rfl⟩ := List.length_eq_two.mp hlen
            exact Or.inr ⟨t, f, g, hset, rfl⟩
          · cases h
        split at h <;> cases h
  · rintro (⟨t, f, hget, rfl⟩ | ⟨t, f, g, hset, rfl⟩)
    · rw [verdict, if_pos hget]
      rfl
    · rw [verdict, if_neg hset.not_isGet, if_pos hset]
      rfl

/-! ## What it publishes -/

/-- What the loop accepts is well formed. -/
theorem carried_of_published {commands : CStr} {word : List Char} {m : Msg}
    (hm : m ∈ published (loop commands word)) :
    m = ⟨Topic.controler, cstr word⟩ ∧ ∃ mes : Mes, mes.IsCommand ∧ mes.Carried (cstr word) := by
  rw [published_loop_eq] at hm
  split at hm
  · rename_i hv
    obtain ⟨hc, hv⟩ := hv
    refine ⟨List.mem_singleton.mp hm, ?_⟩
    have hword : ∀ x ∈ fields delimiter (cstr word), IsWord x := fun x hx =>
      isWord_of_mem_fields (nul_not_mem_cstr word) hx
    rcases verdict_accept.mp hv with ⟨t, id, ht, hf⟩ | ⟨t, id, v, ht, hf⟩
    · have hid : IsWord id := hword id (by simp [hf])
      rcases ht with rfl | rfl
      · exact ⟨.get .info ⟨id, hid⟩, trivial, carried_of_fields hc hf⟩
      · exact ⟨.get .value ⟨id, hid⟩, trivial, carried_of_fields hc hf⟩
    · have hid : IsWord id := hword id (by simp [hf])
      have hval : IsWord v := hword v (by simp [hf])
      rcases ht with rfl | rfl
      · exact ⟨.set .info ⟨id, hid⟩ ⟨v, hval⟩, trivial, carried_of_fields hc hf⟩
      · exact ⟨.set .value ⟨id, hid⟩ ⟨v, hval⟩, trivial, carried_of_fields hc hf⟩
  · cases hm

theorem published_of_carried (commands : CStr) {word : List Char} {mes : Mes}
    (hcmd : mes.IsCommand) (hcar : mes.Carried (cstr word)) :
    ⟨Topic.controler, cstr word⟩ ∈ published (loop commands word) := by
  have hv : verdict mes.tokens = .accept := by
    rw [verdict_accept]
    cases mes with
    | get p id => exact Or.inl ⟨p.getType.text, id.text, by cases p <;> decide, rfl⟩
    | set p id v => exact Or.inr ⟨p.setType.text, id.text, v.text, by cases p <;> decide, rfl⟩
    | changed _ _ _ | reading _ => exact absurd hcmd not_false
  rw [published_loop_eq, if_pos ⟨hcar.clean, by rw [hcar.fields_eq]; exact hv⟩]
  exact List.mem_singleton_self _

theorem published_loop {commands : CStr} {word : List Char} {m : Msg} :
    m ∈ published (loop commands word) ↔
      m = ⟨Topic.controler, cstr word⟩ ∧ ∃ mes : Mes, mes.IsCommand ∧ mes.Carried (cstr word) := by
  constructor
  · exact carried_of_published
  · rintro ⟨rfl, mes, hcmd, hcar⟩
    exact published_of_carried commands hcmd hcar

end CommandLine

/-- Published by the command line for a word of at most 39 bytes; `commands` is the help text. -/
def Typed (payload : CStr) : Prop :=
  ∃ (commands : CStr) (word : List Char), word.length ≤ 39 ∧
    ⟨Topic.controler, payload⟩ ∈ published (CommandLine.loop commands word)

theorem Typed.userCommand {payload : CStr} (h : Typed payload) : UserCommand payload := by
  obtain ⟨commands, word, hlen, hm⟩ := h
  obtain ⟨heq, mes, hcmd, hcar⟩ := CommandLine.published_loop.mp hm
  cases heq
  exact ⟨(length_cstr_le word).trans hlen, mes, hcmd, hcar⟩

theorem UserCommand.typed {payload : CStr} (h : UserCommand payload) : Typed payload := by
  obtain ⟨hlen, mes, hcmd, hcar⟩ := h
  have hself : cstr payload = payload := hcar.stringCpy
  exact ⟨[], payload, hlen,
    CommandLine.published_loop.mpr ⟨by rw [hself], mes, hcmd, hself.symm ▸ hcar⟩⟩

theorem CommandsIn.mono {P Q : CStr → Prop} (h : ∀ payload, P payload → Q payload) :
    ∀ e, CommandsIn P e → CommandsIn Q e
  | .act _ (.command payload), he => h payload he
  | .act _ (.sense _ _), _ => trivial
  | .deliver _ _ _, _ => trivial

end SmartHome
