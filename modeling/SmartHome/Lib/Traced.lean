/-
# `Lib.Traced` — computations that leave a trace and may stop

A `Traced ε φ α` emits effects of type `ε` in program order and either returns
an `α` or stops with a fault `φ`.  The effects emitted before a fault are kept:
a program that writes, publishes and then crashes has written and published.

The monad is the writer over `Except`, with the log *outside* the failure.  Two
judgments are all the developments on top of it need:

    x.Emits P      every effect `x` emits satisfies `P`, whether or not it stops
    x.outcome      what it returns, or the fault it stops with

and both have a rule for sequencing.  The loop `sweep` visits the entries of a
table in order and replaces each by what the body returns.
-/
import Mathlib.Data.List.Forall2

/-- A computation with a log of effects that survives failure. -/
structure Traced (ε φ α : Type) where
  trace : List ε
  outcome : Except φ α

namespace Traced

variable {ε φ α β : Type}

/-- Sequencing: the second part runs only if the first returned. -/
def bind (x : Traced ε φ α) (f : α → Traced ε φ β) : Traced ε φ β :=
  match x.outcome with
  | .ok a => ⟨x.trace ++ (f a).trace, (f a).outcome⟩
  | .error e => ⟨x.trace, .error e⟩

instance : Monad (Traced ε φ) where
  pure a := ⟨[], .ok a⟩
  bind := bind

def emit (e : ε) : Traced ε φ Unit := ⟨[e], .ok ()⟩

def stop (e : φ) : Traced ε φ α := ⟨[], .error e⟩

@[ext] theorem ext {x y : Traced ε φ α} (ht : x.trace = y.trace)
    (ho : x.outcome = y.outcome) : x = y := by
  cases x; cases y; cases ht; cases ho; rfl

instance : LawfulMonad (Traced ε φ) := LawfulMonad.mk' _
  (by rintro α ⟨t, _ | a⟩ <;> simp [Functor.map, bind])
  (by
    intro α β a f
    exact ext (List.nil_append _) rfl)
  (by
    rintro α β γ ⟨t, _ | a⟩ f g
    · rfl
    · show bind (bind _ f) g = bind _ fun a => bind (f a) g
      cases h : (f a).outcome <;> simp [bind, h])

/-! ## Computing with the operations -/

@[simp] theorem trace_pure (a : α) : (pure a : Traced ε φ α).trace = [] := rfl

@[simp] theorem outcome_pure (a : α) : (pure a : Traced ε φ α).outcome = .ok a := rfl

@[simp] theorem trace_emit (e : ε) : (emit e : Traced ε φ Unit).trace = [e] := rfl

@[simp] theorem outcome_emit (e : ε) : (emit e : Traced ε φ Unit).outcome = .ok () := rfl

@[simp] theorem trace_stop (e : φ) : (stop e : Traced ε φ α).trace = [] := rfl

@[simp] theorem outcome_stop (e : φ) : (stop e : Traced ε φ α).outcome = .error e := rfl

@[simp] theorem stop_bind (e : φ) (f : α → Traced ε φ β) :
    (stop e : Traced ε φ α) >>= f = stop e := rfl

@[simp] theorem trace_emit_bind (e : ε) (f : Unit → Traced ε φ β) :
    (emit e >>= f).trace = e :: (f ()).trace := rfl

theorem bind_of_ok {x : Traced ε φ α} {a : α} (h : x.outcome = .ok a)
    (f : α → Traced ε φ β) : x >>= f = ⟨x.trace ++ (f a).trace, (f a).outcome⟩ := by
  show bind x f = _
  simp only [bind, h]

theorem bind_of_error {x : Traced ε φ α} {e : φ} (h : x.outcome = .error e)
    (f : α → Traced ε φ β) : x >>= f = ⟨x.trace, .error e⟩ := by
  show bind x f = _
  simp only [bind, h]

theorem outcome_bind_eq_ok {x : Traced ε φ α} {f : α → Traced ε φ β} {b : β} :
    (x >>= f).outcome = .ok b ↔ ∃ a, x.outcome = .ok a ∧ (f a).outcome = .ok b := by
  cases h : x.outcome with
  | ok a => simp [bind_of_ok h]
  | error e => simp [bind_of_error h]

theorem mem_trace_bind {x : Traced ε φ α} {f : α → Traced ε φ β} {e : ε} (h : e ∈ x.trace) :
    e ∈ (x >>= f).trace := by
  cases hx : x.outcome with
  | ok a => rw [bind_of_ok hx]; exact List.mem_append_left _ h
  | error _ => rw [bind_of_error hx]; exact h

/-! ## What holds of every effect -/

/-- Every effect emitted satisfies `P`. -/
def Emits (P : ε → Prop) (x : Traced ε φ α) : Prop := ∀ e ∈ x.trace, P e

instance {P : ε → Prop} [DecidablePred P] (x : Traced ε φ α) : Decidable (x.Emits P) :=
  inferInstanceAs (Decidable (∀ e ∈ x.trace, P e))

@[simp] theorem emits_pure (P : ε → Prop) (a : α) : (pure a : Traced ε φ α).Emits P := by
  simp [Emits]

@[simp] theorem emits_stop (P : ε → Prop) (e : φ) : (stop e : Traced ε φ α).Emits P := by
  simp [Emits]

@[simp] theorem emits_emit {P : ε → Prop} {e : ε} :
    (emit e : Traced ε φ Unit).Emits P ↔ P e := by
  simp [Emits]

theorem Emits.bind {P : ε → Prop} {x : Traced ε φ α} {f : α → Traced ε φ β}
    (hx : x.Emits P) (hf : ∀ a, x.outcome = .ok a → (f a).Emits P) : (x >>= f).Emits P := by
  cases h : x.outcome with
  | ok a =>
      rw [bind_of_ok h]
      intro e he
      rcases List.mem_append.mp he with he | he
      · exact hx e he
      · exact hf a h e he
  | error e => rw [bind_of_error h]; exact hx

@[simp] theorem emits_emit_bind {P : ε → Prop} {e : ε} {f : Unit → Traced ε φ β} :
    (emit e >>= f).Emits P ↔ P e ∧ (f ()).Emits P := by
  simp [Emits]

/-! ## The loop over a table -/

/-- Visit the entries in order; each is replaced by what the body returns for it. -/
def sweep (body : α → Traced ε φ α) : List α → Traced ε φ (List α)
  | [] => pure []
  | a :: as => do
      let a' ← body a
      let as' ← sweep body as
      pure (a' :: as')

theorem Emits.sweep {P : ε → Prop} {body : α → Traced ε φ α} {as : List α}
    (h : ∀ a ∈ as, (body a).Emits P) : (sweep body as).Emits P := by
  induction as with
  | nil => exact emits_pure P _
  | cons a as ih =>
      obtain ⟨ha, has⟩ := List.forall_mem_cons.mp h
      exact ha.bind fun _ _ => (ih has).bind fun _ _ => emits_pure P _

theorem outcome_sweep {body : α → Traced ε φ α} : ∀ {as as' : List α},
    (sweep body as).outcome = .ok as' → List.Forall₂ (fun a a' => (body a).outcome = .ok a') as as'
  | [], as', h => by
      cases h
      exact .nil
  | a :: as, as', h => by
      obtain ⟨a', ha, h⟩ := outcome_bind_eq_ok.mp h
      obtain ⟨bs, has, h⟩ := outcome_bind_eq_ok.mp h
      cases h
      exact .cons ha (outcome_sweep has)

theorem emits_bind_of_ok {P : ε → Prop} {x : Traced ε φ α} {a : α} (h : x.outcome = .ok a)
    {f : α → Traced ε φ β} : (x >>= f).Emits P ↔ x.Emits P ∧ (f a).Emits P := by
  rw [bind_of_ok h]
  exact List.forall_mem_append

/-- A loop whose body always returns emits what the body emits on the entries. -/
theorem emits_sweep_iff {P : ε → Prop} {body : α → Traced ε φ α}
    (hok : ∀ a, ∃ a', (body a).outcome = .ok a') : ∀ as : List α,
    (sweep body as).Emits P ↔ ∀ a ∈ as, (body a).Emits P
  | [] => iff_of_true (emits_pure P _) (by simp)
  | a :: as => by
      obtain ⟨a', ha⟩ := hok a
      have ih := emits_sweep_iff (P := P) hok as
      have htail : (sweep body as >>= fun as' => pure (a' :: as')).Emits P ↔
          (sweep body as).Emits P :=
        ⟨fun h e he => h e (mem_trace_bind he), fun h => h.bind fun _ _ => emits_pure P _⟩
      rw [sweep, emits_bind_of_ok ha, htail, ih, List.forall_mem_cons]

end Traced
