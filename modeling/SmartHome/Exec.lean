/-
# `Exec` — what the code of a node does: buffer writes, table accesses, publishes

Every function of the programs that touches a buffer, a table or the broker is a
`Traced` computation over the effects below.  Writes record the whole text the
destination holds afterwards, so that capacity is a property of the trace and
not a branch of the code: C does not check it either.  A handler stops on a
failed `assert`, on a null or missing token, or on a table index outside the
table.  Publishing is taken to succeed: a publish that `mqtt_publish` refuses,
and the exit of `client_error_check` after an error of the client, are left out.
-/
import SmartHome.CString
import SmartHome.Lib.Traced

namespace SmartHome

/-- The fixed-size buffers the programs store strings in. -/
inductive Buffer where
  /-- `value`, `info` of a `Device` -/
  | value | info
  /-- `new_dev_value`, in `automation_control` -/
  | newDevValue
  /-- `temp`, in `read_pin` -/
  | pinText
  /-- `message`, in the functions of `device.c` -/
  | deviceMessage
  /-- `message`, in `sensors_value_publish` -/
  | sensorMessage
  /-- `message_cpy`, in the controller -/
  | messageCpy
  /-- `message`, in the controller: one answer, and a listing of all devices -/
  | reply | listing
  /-- `input` and `message`, in the command line interface -/
  | input | command
  deriving DecidableEq, Repr

/-- The declared sizes, in bytes. -/
def Buffer.size : Buffer → Nat
  | .value | .info => 100
  | .newDevValue => 5
  | .pinText => 20
  | .deviceMessage => 400
  | .sensorMessage => 120
  | .messageCpy | .reply => 200
  | .listing => 1400
  | .input | .command => 40

inductive Effect where
  /-- the buffer holds this text afterwards, and its NUL -/
  | write (dest : Buffer) (text : CStr)
  /-- `Devices[i]` -/
  | access (i : Int)
  /-- `mqtt_publish` -/
  | publish (topic payload : CStr)
  /-- `printf`, where it is the program's answer to the user -/
  | print (text : CStr)
  deriving DecidableEq, Repr

inductive Fault where
  | assertFailed
  /-- a null `char *` is read: a token that is not there, or a null from `strtok` -/
  | nullToken
  /-- the token array is read past its terminating null -/
  | tokenBounds
  | badIndex (i : Int)
  deriving DecidableEq, Repr

abbrev Exec := Traced Effect Fault

open Traced

def write (dest : Buffer) (text : CStr) : Exec Unit := emit (.write dest text)

def publish (topic payload : CStr) : Exec Unit := emit (.publish topic payload)

def print (text : CStr) : Exec Unit := emit (.print text)

/-- A message as the broker carries it. -/
structure Msg where
  topic : CStr
  payload : CStr
  deriving DecidableEq, Repr

def Effect.msg? : Effect → Option Msg
  | .publish topic payload => some ⟨topic, payload⟩
  | _ => none

def published {α : Type} (x : Exec α) : List Msg := x.trace.filterMap Effect.msg?

/-- The value and the publications of a computation that returned. -/
def completed {α : Type} (x : Exec α) : Option (α × List Msg) :=
  match x.outcome with
  | .ok a => some (a, published x)
  | .error _ => none

def stopped {α : Type} (x : Exec α) : Option Fault :=
  match x.outcome with
  | .ok _ => none
  | .error e => some e

/-- The text and its NUL fit the destination. -/
def Effect.Fits : Effect → Prop
  | .write dest text => text.length + 1 ≤ dest.size
  | _ => True

instance : DecidablePred Effect.Fits
  | .write dest text => inferInstanceAs (Decidable (text.length + 1 ≤ dest.size))
  | .access _ | .publish _ _ | .print _ => isTrue trivial

/-- `Devices[i]` is an element of a table with `len` elements. -/
def Effect.InTable (len : Nat) : Effect → Prop
  | .access i => 0 ≤ i ∧ i < len
  | .write _ _ | .publish _ _ | .print _ => True

instance (len : Nat) : DecidablePred (Effect.InTable len)
  | .access i => inferInstanceAs (Decidable (0 ≤ i ∧ i < len))
  | .write _ _ | .publish _ _ | .print _ => isTrue trivial

/-- `tokens[k]`: a token, the terminating null, or a read past the end. -/
def load (tokens : List CStr) (k : Nat) : Exec (Option CStr) :=
  if k ≤ tokens.length then pure tokens[k]? else stop .tokenBounds

/-- Reading through a `char *`. -/
def use : Option CStr → Exec CStr
  | some s => pure s
  | none => stop .nullToken

/-- `table[i]`, for an index the code computed. -/
def access {α : Type} (table : List α) (i : Int) : Exec α := do
  emit (.access i)
  match i with
  | .ofNat k =>
      match table[k]? with
      | some d => pure d
      | none => stop (.badIndex i)
  | .negSucc _ => stop (.badIndex i)

@[simp] theorem use_some (s : CStr) : use (some s) = pure s := rfl

@[simp] theorem use_none : use none = stop .nullToken := rfl

theorem load_of_lt {tokens : List CStr} {k : Nat} {t : CStr} (h : tokens[k]? = some t) :
    load tokens k = pure (some t) := by
  have hk : k ≤ tokens.length := by
    have := (List.getElem?_eq_some_iff.mp h).1
    omega
  rw [load, if_pos hk, h]

theorem access_ofNat {α : Type} {table : List α} {k : Nat} {d : α} (h : table[k]? = some d) :
    access table k = ⟨[.access k], .ok d⟩ := by
  unfold access
  simp [h, bind_of_ok]

theorem access_of_none {α : Type} {table : List α} {k : Nat} (h : table[k]? = none) :
    access table k = ⟨[.access k], .error (.badIndex k)⟩ := by
  unfold access
  simp only [h]
  rfl

/-! ## Running the primitives

A computation is followed in two respects: `completed` is what it returns and
publishes, `Emits` is what holds of every effect on the way. -/

section Primitives

variable {α β : Type}

@[simp] theorem completed_pure (a : α) : completed (pure a : Exec α) = some (a, []) := rfl

theorem completed_eq_some {x : Exec α} {a : α} {ms : List Msg} :
    completed x = some (a, ms) ↔ x.outcome = .ok a ∧ published x = ms := by
  unfold completed
  cases x.outcome with
  | ok a' => simp
  | error e => simp

theorem completed_bind {x : Exec α} {a : α} {ms : List Msg} (h : completed x = some (a, ms))
    (f : α → Exec β) :
    completed (x >>= f) = (completed (f a)).map fun r => (r.1, ms ++ r.2) := by
  obtain ⟨ho, hp⟩ := completed_eq_some.mp h
  rw [bind_of_ok ho]
  cases hf : (f a).outcome with
  | ok b =>
      simp only [completed, hf, Option.map_some]
      rw [← hp]
      exact congrArg (fun l => some (b, l)) List.filterMap_append
  | error e => simp [completed, hf]

@[simp] theorem completed_map (f : α → β) (x : Exec α) :
    completed (f <$> x) = (completed x).map fun r => (f r.1, r.2) := by
  rw [← bind_pure_comp]
  cases h : x.outcome with
  | ok a =>
      have hx := completed_eq_some.mpr ⟨h, rfl⟩
      rw [completed_bind hx, hx]
      simp
  | error e => rw [bind_of_error h]; simp [completed, h]

@[simp] theorem completed_write (dest : Buffer) (s : CStr) :
    completed (write dest s) = some ((), []) := rfl

@[simp] theorem completed_publish (t s : CStr) :
    completed (publish t s) = some ((), [⟨t, s⟩]) := rfl

@[simp] theorem completed_write_bind (dest : Buffer) (s : CStr) (f : Unit → Exec β) :
    completed (write dest s >>= f) = completed (f ()) := by
  rw [completed_bind (completed_write dest s)]
  simp

theorem completed_access {table : List α} {k : Nat} {d : α} (h : table[k]? = some d) :
    completed (access table k) = some (d, []) := by
  rw [access_ofNat h]; rfl

theorem completed_sweep {body : α → Exec α} {g : α → α} {ms : α → List Msg}
    (h : ∀ a, completed (body a) = some (g a, ms a)) (as : List α) :
    completed (sweep body as) = some (as.map g, as.flatMap ms) := by
  induction as with
  | nil => rfl
  | cons a as ih =>
      rw [sweep, completed_bind (h a), completed_bind ih]
      simp

theorem published_emit_bind (e : Effect) (f : Unit → Exec β) :
    published (emit e >>= f) = e.msg?.toList ++ published (f ()) := by
  unfold published
  rw [trace_emit_bind, List.filterMap_cons]
  cases e.msg? <;> rfl

@[simp] theorem published_write_bind (dest : Buffer) (s : CStr) (f : Unit → Exec β) :
    published (write dest s >>= f) = published (f ()) := published_emit_bind _ f

@[simp] theorem stopped_pure (a : α) : stopped (pure a : Exec α) = none := rfl

theorem stopped_eq_none {x : Exec α} : stopped x = none ↔ ∃ a, x.outcome = .ok a := by
  unfold stopped
  cases x.outcome with
  | ok a => simp
  | error e => simp

theorem stopped_of_completed {x : Exec α} {r : α × List Msg} (h : completed x = some r) :
    stopped x = none := stopped_eq_none.mpr ⟨r.1, (completed_eq_some.mp h).1⟩

theorem stopped_bind {x : Exec α} (h : stopped x = none) (f : α → Exec β) :
    ∃ a, x.outcome = .ok a ∧ stopped (x >>= f) = stopped (f a) := by
  obtain ⟨a, ha⟩ := stopped_eq_none.mp h
  exact ⟨a, ha, by rw [bind_of_ok ha]; rfl⟩

@[simp] theorem stopped_write_bind (dest : Buffer) (s : CStr) (f : Unit → Exec β) :
    stopped (write dest s >>= f) = stopped (f ()) := rfl

@[simp] theorem stopped_map (f : α → β) (x : Exec α) : stopped (f <$> x) = stopped x := by
  rw [← bind_pure_comp]
  unfold stopped
  cases h : x.outcome with
  | ok a => rw [bind_of_ok h]; rfl
  | error e => rw [bind_of_error h]

/-- A loop whose body can stop in one way only. -/
theorem stopped_sweep {body : α → Exec α} {e : Fault} {p : α → Prop} [DecidablePred p]
    (h : ∀ a, stopped (body a) = if p a then some e else none) (as : List α) :
    stopped (sweep body as) = if ∃ a ∈ as, p a then some e else none := by
  induction as with
  | nil => simp [sweep]
  | cons a as ih =>
      by_cases hp : p a
      · have hbody : (body a).outcome = .error e := by
          have := h a
          rw [if_pos hp] at this
          unfold stopped at this
          cases hb : (body a).outcome with
          | ok b => rw [hb] at this; cases this
          | error e' => rw [hb] at this; cases this; rfl
        rw [if_pos ⟨a, List.mem_cons_self, hp⟩, sweep, bind_of_error hbody]
        rfl
      · have hnone : stopped (body a) = none := by rw [h a, if_neg hp]
        obtain ⟨b, -, hb⟩ := stopped_bind hnone fun a' =>
          sweep body as >>= fun as' => pure (a' :: as')
        rw [sweep, hb, bind_pure_comp, stopped_map, ih]
        simp only [List.exists_mem_cons_iff, hp, false_or]

variable {P : Effect → Prop}

@[simp] theorem emits_write {dest : Buffer} {s : CStr} :
    (write dest s).Emits P ↔ P (.write dest s) := emits_emit

@[simp] theorem emits_publish {t s : CStr} :
    (publish t s).Emits P ↔ P (.publish t s) := emits_emit

@[simp] theorem emits_write_bind {dest : Buffer} {s : CStr} {f : Unit → Exec β} :
    (write dest s >>= f).Emits P ↔ P (.write dest s) ∧ (f ()).Emits P := emits_emit_bind

@[simp] theorem emits_publish_bind {t s : CStr} {f : Unit → Exec β} :
    (publish t s >>= f).Emits P ↔ P (.publish t s) ∧ (f ()).Emits P := emits_emit_bind

@[simp] theorem emits_map {f : α → β} {x : Exec α} : (f <$> x).Emits P ↔ x.Emits P := by
  rw [← bind_pure_comp]
  cases h : x.outcome with
  | ok a => rw [bind_of_ok h]; simp [Emits]
  | error e => rw [bind_of_error h]; rfl

theorem emits_load (tokens : List CStr) (k : Nat) : (load tokens k).Emits P := by
  unfold load
  split
  · exact emits_pure P _
  · exact emits_stop P _

theorem emits_use : ∀ s : Option CStr, (use s).Emits P
  | some _ => emits_pure P _
  | none => emits_stop P _

theorem emits_access {table : List α} {i : Int} (h : P (.access i)) :
    (access table i).Emits P := by
  refine emits_emit_bind.mpr ⟨h, ?_⟩
  cases i with
  | ofNat k =>
      cases hk : table[k]? with
      | some d => simp only [hk]; exact emits_pure P _
      | none => simp only [hk]; exact emits_stop P _
  | negSucc k => exact emits_stop P _

theorem emits_access_bind {table : List α} {k : Nat} {d : α} (h : table[k]? = some d)
    {f : α → Exec β} :
    (access table k >>= f).Emits P ↔ P (.access k) ∧ (f d).Emits P := by
  have heq : access table k = emit (.access k) >>= fun _ => pure d := by
    unfold access
    simp only [h]
  rw [heq, bind_assoc, emits_emit_bind, pure_bind]

end Primitives

end SmartHome
