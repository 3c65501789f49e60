/-
# `Lib.Slot` — handlers that read their message from one shared slot

A receiver stores every message in the same slot and starts a handler for it;
the handler runs later, in any order, and reads the slot as it then is.  What a
handler leaves in the slot after reading it is `cut` of what it read.  Some
handlers do not read at all.

A pending handler and an entry of the log of what was acted on carry, as
ghosts, the message the handler was started for.

**Rules proved here.**

    Kept                   every handler acted on its own message, none lost, none twice
    TimelyRun.kept         it holds along every run in which no message arrives over a
                           handler that has yet to read, unless it is that handler's
                           message again and reading leaves it as it is
    not_kept_of_untimely   over a different message it fails once that handler has run
-/
import Mathlib.Data.List.Basic
import Mathlib.Data.List.Perm.Basic

namespace Slot

/-- `σ` is the rest of the node's state, `R` what arrives, `M` what the slot holds, `C` the
choices a handler's run leaves open. -/
structure Machine (σ R M C : Type) where
  /-- what is stored, and whether the handler started for it reads the slot -/
  receive : σ → R → Option (M × Bool)
  act : σ → C → M → Option σ
  cut : M → M

structure State (σ M : Type) where
  node : σ
  slot : Option M
  /-- the handlers started and not yet run: their message, and whether they read -/
  pending : List (M × Bool)
  arrived : List M
  /-- the handlers that have run: their message, and the one they acted on -/
  acted : List (M × M)

def State.start {σ M : Type} (node : σ) : State σ M := ⟨node, none, [], [], []⟩

inductive Event (R C : Type) where
  | arrive (r : R)
  /-- the `k`-th pending handler runs -/
  | run (k : Nat) (c : C)

variable {σ R M C : Type}

def step (A : Machine σ R M C) (s : State σ M) : Event R C → Option (State σ M)
  | .arrive r =>
      match A.receive s.node r with
      | none => none
      | some (m, reads) =>
          some ⟨s.node, some m, s.pending ++ [(m, reads)], s.arrived ++ [m], s.acted⟩
  | .run k c =>
      match s.pending[k]?, s.slot with
      | some (own, false), _ =>
          some ⟨s.node, s.slot, s.pending.eraseIdx k, s.arrived, s.acted ++ [(own, own)]⟩
      | some (own, true), some m =>
          match A.act s.node c m with
          | none => none
          | some node =>
              some ⟨node, some (A.cut m), s.pending.eraseIdx k, s.arrived, s.acted ++ [(own, m)]⟩
      | _, _ => none

def run (A : Machine σ R M C) (s : State σ M) : List (Event R C) → Option (State σ M)
  | [] => some s
  | e :: es => (step A s e).bind fun s' => run A s' es

theorem step_cases {A : Machine σ R M C} {s s' : State σ M} {e : Event R C}
    (h : step A s e = some s') :
    (∃ r m reads, e = .arrive r ∧ A.receive s.node r = some (m, reads) ∧
      s' = ⟨s.node, some m, s.pending ++ [(m, reads)], s.arrived ++ [m], s.acted⟩) ∨
    (∃ k c own, e = .run k c ∧ s.pending[k]? = some (own, false) ∧
      s' = ⟨s.node, s.slot, s.pending.eraseIdx k, s.arrived, s.acted ++ [(own, own)]⟩) ∨
    (∃ k c own m node, e = .run k c ∧ s.pending[k]? = some (own, true) ∧ s.slot = some m ∧
      A.act s.node c m = some node ∧
      s' = ⟨node, some (A.cut m), s.pending.eraseIdx k, s.arrived, s.acted ++ [(own, m)]⟩) := by
  cases e with
  | arrive r =>
      simp only [step] at h
      split at h
      · cases h
      · rename_i m reads hr
        exact Or.inl ⟨r, m, reads, rfl, hr, (Option.some.inj h).symm⟩
  | run k c =>
      simp only [step] at h
      split at h
      · rename_i own hk
        exact Or.inr (Or.inl ⟨k, c, own, rfl, hk, (Option.some.inj h).symm⟩)
      · rename_i own m hk hm
        split at h
        · cases h
        · rename_i node ha
          exact Or.inr (Or.inr ⟨k, c, own, m, node, rfl, hk, hm, ha, (Option.some.inj h).symm⟩)
      · cases h

/-! ## Timely runs -/

/-- An arriving message finds no handler that has yet to read, except for the same message
again, left by reading as it is. -/
def Timely (A : Machine σ R M C) (s : State σ M) : Event R C → Prop
  | .arrive r => ∀ x ∈ A.receive s.node r, ∀ y ∈ s.pending,
      y.2 = true → y.1 = x.1 ∧ A.cut x.1 = x.1
  | .run _ _ => True

/-- Every event of the run is timely where it happens. -/
def TimelyRun (A : Machine σ R M C) : State σ M → List (Event R C) → Prop
  | _, [] => True
  | s, e :: es => Timely A s e ∧ ∀ s' ∈ step A s e, TimelyRun A s' es

instance [DecidableEq M] (A : Machine σ R M C) (s : State σ M) (e : Event R C) :
    Decidable (Timely A s e) :=
  match e with
  | .arrive r => inferInstanceAs (Decidable (∀ x ∈ A.receive s.node r, ∀ y ∈ s.pending,
      y.2 = true → y.1 = x.1 ∧ A.cut x.1 = x.1))
  | .run _ _ => isTrue trivial

def decTimelyRun [DecidableEq M] (A : Machine σ R M C) : ∀ (s : State σ M) (es : List (Event R C)),
    Decidable (TimelyRun A s es)
  | _, [] => isTrue trivial
  | s, e :: es =>
      have : ∀ s', Decidable (TimelyRun A s' es) := fun s' => decTimelyRun A s' es
      inferInstanceAs (Decidable (Timely A s e ∧ ∀ s' ∈ step A s e, TimelyRun A s' es))

instance [DecidableEq M] (A : Machine σ R M C) (s : State σ M) (es : List (Event R C)) :
    Decidable (TimelyRun A s es) := decTimelyRun A s es

/-- Every handler that has run acted on its own message, and these, with those still pending,
are the messages that arrived, each once. -/
structure Kept (s : State σ M) : Prop where
  own : ∀ x ∈ s.acted, x.2 = x.1
  perm : (s.acted.map Prod.snd ++ s.pending.map Prod.fst).Perm s.arrived

/-- The slot holds the message of every handler that has yet to read; where there are two of
them, reading leaves it as it is. -/
structure Intact (A : Machine σ R M C) (s : State σ M) : Prop where
  slot : ∀ own, (own, true) ∈ s.pending → s.slot = some own
  cut : 2 ≤ s.pending.countP Prod.snd → ∀ own, (own, true) ∈ s.pending → A.cut own = own

theorem kept_run {s : State σ M} (h : Kept s) {k : Nat} {own m : M} {reads : Bool} (hm : m = own)
    (hk : s.pending[k]? = some (own, reads)) (node : σ) (slot : Option M) :
    Kept (⟨node, slot, s.pending.eraseIdx k, s.arrived, s.acted ++ [(own, m)]⟩ : State σ M) where
  own x hx := by
    rcases List.mem_append.mp hx with hx | hx
    · exact h.own x hx
    · rw [List.mem_singleton.mp hx]
      exact hm
  perm := by
    have herase : (own :: (s.pending.eraseIdx k).map Prod.fst).Perm (s.pending.map Prod.fst) := by
      have hi := (List.getElem?_eq_some_iff.mp hk).1
      have hp := (List.getElem_cons_eraseIdx_perm hi).map Prod.fst
      rwa [(List.getElem?_eq_some_iff.mp hk).2] at hp
    have hsplit : ((s.acted ++ [(own, m)]).map Prod.snd ++ (s.pending.eraseIdx k).map Prod.fst).Perm
        (s.acted.map Prod.snd ++ (own :: (s.pending.eraseIdx k).map Prod.fst)) := by
      rw [List.map_append, List.append_assoc, hm]
      exact List.Perm.refl _
    exact hsplit.trans ((herase.append_left _).trans h.perm)

theorem intact_run {A : Machine σ R M C} {s : State σ M} (h : Intact A s) (k : Nat) (node : σ)
    {slot : Option M} (acted : List (M × M))
    (hslot : ∀ own, (own, true) ∈ s.pending.eraseIdx k → slot = some own) :
    Intact A ⟨node, slot, s.pending.eraseIdx k, s.arrived, acted⟩ where
  slot := hslot
  cut htwo own hown := by
    have hsub : (s.pending.eraseIdx k).Sublist s.pending := List.eraseIdx_sublist _ _
    exact h.cut (Nat.le_trans htwo hsub.countP_le) own (hsub.mem hown)

theorem kept_arrive {A : Machine σ R M C} {s : State σ M} (hk : Kept s) {m : M}
    (hown : ∀ own, (own, true) ∈ s.pending → own = m ∧ A.cut m = m) (reads : Bool) :
    Kept (⟨s.node, some m, s.pending ++ [(m, reads)], s.arrived ++ [m], s.acted⟩ : State σ M) ∧
      Intact A ⟨s.node, some m, s.pending ++ [(m, reads)], s.arrived ++ [m], s.acted⟩ := by
  refine ⟨⟨hk.own, ?_⟩, ?_, ?_⟩
  · rw [List.map_append, ← List.append_assoc]
    exact hk.perm.append_right [m]
  · intro own ho
    rcases List.mem_append.mp ho with ho | ho
    · rw [(hown own ho).1]
    · cases List.mem_singleton.mp ho
      rfl
  · intro htwo own ho
    rw [List.countP_append] at htwo
    have hone : 0 < s.pending.countP Prod.snd := by
      have hle : [(m, reads)].countP Prod.snd ≤ 1 := List.countP_le_length
      omega
    obtain ⟨⟨x, _⟩, hx, rfl⟩ := List.countP_pos_iff.mp hone
    obtain ⟨rfl, hcut⟩ := hown x hx
    rcases List.mem_append.mp ho with ho | ho
    · rw [(hown own ho).1]
      exact hcut
    · cases List.mem_singleton.mp ho
      exact hcut

theorem Intact.cut_read {A : Machine σ R M C} {s : State σ M} (hi : Intact A s) {k : Nat}
    {own o : M} (hp : s.pending[k]? = some (own, true)) (ho : (o, true) ∈ s.pending.eraseIdx k) :
    A.cut o = o := by
  have hcount : s.pending.countP Prod.snd = (s.pending.eraseIdx k).countP Prod.snd + 1 := by
    have hlt := (List.getElem?_eq_some_iff.mp hp).1
    have hperm := List.getElem_cons_eraseIdx_perm hlt
    rw [← hperm.countP_eq, (List.getElem?_eq_some_iff.mp hp).2, List.countP_cons_of_pos rfl]
  have hpos : 0 < (s.pending.eraseIdx k).countP Prod.snd := List.countP_pos_iff.mpr ⟨_, ho, rfl⟩
  exact hi.cut (by omega) o ((List.eraseIdx_sublist _ _).mem ho)

theorem kept_step {A : Machine σ R M C} {s s' : State σ M} {e : Event R C} (hk : Kept s)
    (hi : Intact A s) (ht : Timely A s e) (hs : step A s e = some s') :
    Kept s' ∧ Intact A s' := by
  obtain ⟨r, m, reads, rfl, hr, rfl⟩ | ⟨k, c, own, rfl, hp, rfl⟩ |
    ⟨k, c, own, m, node, rfl, hp, hm, -, rfl⟩ := step_cases hs
  · exact kept_arrive hk (fun own ho => ht (m, reads) hr (own, true) ho rfl) reads
  · -- a handler that does not read
    refine ⟨kept_run hk rfl hp s.node s.slot, intact_run hi k s.node _ fun o ho => ?_⟩
    exact hi.slot o ((List.eraseIdx_sublist _ _).mem ho)
  · -- a handler that reads: the slot holds its message
    have hown : m = own := by
      have h := hi.slot own (List.mem_of_getElem? hp)
      exact Option.some.inj (hm.symm.trans h)
    refine ⟨kept_run hk hown hp node _, intact_run hi k node _ fun o ho => ?_⟩
    have ho' : (o, true) ∈ s.pending := (List.eraseIdx_sublist _ _).mem ho
    have hom : o = m := Option.some.inj ((hi.slot o ho').symm.trans hm)
    rw [← hom, hi.cut_read hp ho]

/-- Along a timely run nothing is lost, nothing is acted on twice, and every handler acts on
its own message. -/
theorem TimelyRun.kept {A : Machine σ R M C} : ∀ {es : List (Event R C)} {s s' : State σ M},
    TimelyRun A s es → Kept s → Intact A s → run A s es = some s' → Kept s' ∧ Intact A s' := by
  intro es
  induction es with
  | nil =>
      intro s s' _ hk hi hr
      cases hr
      exact ⟨hk, hi⟩
  | cons e es ih =>
      intro s s' ht hk hi hr
      obtain ⟨he, hes⟩ := ht
      obtain ⟨s₁, hs, hr⟩ := Option.bind_eq_some_iff.mp hr
      obtain ⟨hk₁, hi₁⟩ := kept_step hk hi he hs
      exact ih (hes s₁ hs) hk₁ hi₁ hr

theorem kept_start (A : Machine σ R M C) (node : σ) :
    Kept (State.start node : State σ M) ∧ Intact A (State.start node : State σ M) := by
  refine ⟨⟨?_, List.Perm.refl _⟩, ?_, ?_⟩
  · intro x hx
    cases hx
  · intro own ho
    cases ho
  · intro _ own ho
    cases ho

/-- The other way round: a message arrives over the different one of a handler that has yet to
read, and when that handler runs, it acts on the wrong one. -/
theorem not_kept_of_untimely {A : Machine σ R M C} {s s' : State σ M} {r : R} {m own : M}
    {reads : Bool} {k : Nat} {c : C} (hr : A.receive s.node r = some (m, reads))
    (hk : s.pending[k]? = some (own, true)) (hne : m ≠ own)
    (hrun : run A s [.arrive r, .run k c] = some s') : ¬ Kept s' := by
  have harrive : step A s (.arrive r) =
      some ⟨s.node, some m, s.pending ++ [(m, reads)], s.arrived ++ [m], s.acted⟩ := by
    simp only [step, hr]
  have hk' : (s.pending ++ [(m, reads)])[k]? = some (own, true) := by
    rw [List.getElem?_append_left (List.getElem?_eq_some_iff.mp hk).1, hk]
  rw [run, harrive, Option.bind_some, run] at hrun
  obtain ⟨s₂, hs, hrun⟩ := Option.bind_eq_some_iff.mp hrun
  cases hrun
  simp only [step, hk'] at hs
  split at hs
  · cases hs
  · cases hs
    intro hkept
    exact hne (hkept.own (own, m) (List.mem_append_right _ (List.mem_singleton_self _)))

end Slot
