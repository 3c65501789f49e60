/-
# `Lib.Interleave` — threads that take turns on a shared state

A thread is a value `τ`; one step of it reads and writes the shared state `σ`.
A schedule is the list of the threads that move, by number.  A thread that
cannot move is done, and the rules here are about threads that stay so.

**Rules proved here.**

    Throughout.invariant    what every step of a run that meets a condition keeps
    run_invariant           what every step keeps, unconditionally
    runs_out                a thread alone can be run until it is done
    all_but_finish          so can any set of threads, with the rest left where they are
    run_duo_cons            two threads: the first step of a run is one's or the other's
-/
import Mathlib.Data.List.Basic

namespace Interleave

structure State (σ τ : Type) where
  shared : σ
  threads : List τ

variable {σ τ : Type} {next : σ → τ → Option (σ × τ)}

def step (next : σ → τ → Option (σ × τ)) (s : State σ τ) (k : Nat) : Option (State σ τ) :=
  s.threads[k]?.bind fun t => (next s.shared t).map fun r => ⟨r.1, s.threads.set k r.2⟩

def run (next : σ → τ → Option (σ × τ)) (s : State σ τ) : List Nat → Option (State σ τ)
  | [] => some s
  | k :: ks => (step next s k).bind fun s' => run next s' ks

/-- No thread can move. -/
def Finished (next : σ → τ → Option (σ × τ)) (s : State σ τ) : Prop :=
  ∀ t ∈ s.threads, (next s.shared t).isNone

instance (s : State σ τ) : Decidable (Finished next s) :=
  inferInstanceAs (Decidable (∀ t ∈ s.threads, (next s.shared t).isNone = true))

/-! ## Steps and runs -/

theorem step_eq_some {s s' : State σ τ} {k : Nat} :
    step next s k = some s' ↔ ∃ t a t', s.threads[k]? = some t ∧
      next s.shared t = some (a, t') ∧ s' = ⟨a, s.threads.set k t'⟩ := by
  simp only [step, Option.bind_eq_some_iff, Option.map_eq_some_iff]
  constructor
  · rintro ⟨t, ht, ⟨a, t'⟩, hn, rfl⟩
    exact ⟨t, a, t', ht, hn, rfl⟩
  · rintro ⟨t, a, t', ht, hn, rfl⟩
    exact ⟨t, ht, (a, t'), hn, rfl⟩

theorem mem_of_mem_set {ts : List τ} {k : Nat} {t t' u : τ} (hk : ts[k]? = some t) (hu : u ∈ ts) :
    u ∈ ts.set k t' ∨ u = t := by
  obtain ⟨j, hj⟩ := List.getElem?_of_mem hu
  by_cases hjk : k = j
  · subst hjk
    exact Or.inr (Option.some.inj (hj.symm.trans hk))
  · exact Or.inl (List.mem_of_getElem? ((List.getElem?_set_ne hjk).trans hj))

theorem mem_set_self {ts : List τ} {k : Nat} {t : τ} (hk : ts[k]? = some t) (t' : τ) :
    t' ∈ ts.set k t' :=
  List.mem_set (List.getElem?_eq_some_iff.mp hk).1 t'

theorem run_append (s : State σ τ) (ks ls : List Nat) :
    run next s (ks ++ ls) = (run next s ks).bind fun s' => run next s' ls := by
  induction ks generalizing s with
  | nil => rfl
  | cons k ks ih =>
      simp only [List.cons_append, run]
      cases step next s k with
      | none => rfl
      | some s' => exact ih s'

theorem run_trans {s s₁ s₂ : State σ τ} {ks ls : List Nat} (h₁ : run next s ks = some s₁)
    (h₂ : run next s₁ ls = some s₂) : run next s (ks ++ ls) = some s₂ := by
  rw [run_append, h₁]
  exact h₂

theorem run_one {s s' : State σ τ} {k : Nat} (h : step next s k = some s') :
    run next s [k] = some s' := by
  rw [run, h]
  rfl

theorem run_single {a a' : σ} {t t' : τ} (h : next a t = some (a', t')) (n : Nat) :
    run next ⟨a, [t]⟩ (List.replicate (n + 1) 0) = run next ⟨a', [t']⟩ (List.replicate n 0) := by
  have hs : step next ⟨a, [t]⟩ 0 = some ⟨a', [t']⟩ := step_eq_some.mpr ⟨t, a', t', rfl, h, rfl⟩
  rw [List.replicate_succ, run, hs]
  rfl

theorem length_step {s s' : State σ τ} {k : Nat} (h : step next s k = some s') :
    s'.threads.length = s.threads.length := by
  obtain ⟨t, a, t', -, -, rfl⟩ := step_eq_some.mp h
  exact List.length_set

/-! ## Runs under a condition -/

/-- Every step of the run meets the condition where it is taken. -/
def Throughout (next : σ → τ → Option (σ × τ)) (P : State σ τ → Nat → Prop) :
    State σ τ → List Nat → Prop
  | _, [] => True
  | s, k :: ks => P s k ∧ ∀ s' ∈ step next s k, Throughout next P s' ks

def decThroughout (P : State σ τ → Nat → Prop) [∀ s k, Decidable (P s k)] :
    ∀ (s : State σ τ) (ks : List Nat), Decidable (Throughout next P s ks)
  | _, [] => isTrue trivial
  | s, k :: ks =>
      have : ∀ s', Decidable (Throughout next P s' ks) := fun s' => decThroughout P s' ks
      inferInstanceAs (Decidable (P s k ∧ ∀ s' ∈ step next s k, Throughout next P s' ks))

instance (P : State σ τ → Nat → Prop) [∀ s k, Decidable (P s k)] (s : State σ τ) (ks : List Nat) :
    Decidable (Throughout next P s ks) := decThroughout P s ks

theorem Throughout.invariant {P : State σ τ → Nat → Prop} {I : State σ τ → Prop}
    (hstep : ∀ s k s', I s → P s k → step next s k = some s' → I s') :
    ∀ {ks : List Nat} {s s' : State σ τ}, Throughout next P s ks → I s →
      run next s ks = some s' → I s' := by
  intro ks
  induction ks with
  | nil =>
      intro s s' _ hi hr
      cases hr
      exact hi
  | cons k ks ih =>
      intro s s' ht hi hr
      obtain ⟨hk, hks⟩ := ht
      obtain ⟨s₁, hs, hr⟩ := Option.bind_eq_some_iff.mp hr
      exact ih (hks s₁ hs) (hstep s k s₁ hi hk hs) hr

theorem throughout_of_forall {P : State σ τ → Nat → Prop} {ks : List Nat}
    (h : ∀ s, ∀ k ∈ ks, P s k) (s : State σ τ) : Throughout next P s ks := by
  induction ks generalizing s with
  | nil => trivial
  | cons k ks ih =>
      refine ⟨h s k List.mem_cons_self, fun s' _ => ih (fun s l hl => ?_) s'⟩
      exact h s l (List.mem_cons_of_mem k hl)

/-- The invariant need only be kept by the threads that move. -/
theorem run_invariant {I : State σ τ → Prop} {ks : List Nat} {s s' : State σ τ}
    (hstep : ∀ s, ∀ k ∈ ks, ∀ s', I s → step next s k = some s' → I s') (hi : I s)
    (hr : run next s ks = some s') : I s' := by
  have ht : Throughout next (fun _ k => k ∈ ks) s ks := throughout_of_forall (fun _ _ hk => hk) s
  exact ht.invariant (fun s k s' hi hk hs => hstep s k hk s' hi hs) hi hr

/-! ## Finishing -/

theorem length_run {ks : List Nat} {s s' : State σ τ} (hr : run next s ks = some s') :
    s'.threads.length = s.threads.length :=
  run_invariant (I := fun s₁ => s₁.threads.length = s.threads.length)
    (fun _ _ _ _ hi hs => (length_step hs).trans hi) rfl hr

theorem run_frame {ks : List Nat} {s s' : State σ τ} (hr : run next s ks = some s') {j : Nat}
    (hj : j ∉ ks) : s'.threads[j]? = s.threads[j]? := by
  refine run_invariant (I := fun s₁ => s₁.threads[j]? = s.threads[j]?) ?_ rfl hr
  intro s₁ k hk s₂ hi hs
  obtain ⟨t, a, t', -, -, rfl⟩ := step_eq_some.mp hs
  have hne : k ≠ j := fun h => hj (h ▸ hk)
  rw [List.getElem?_set_ne hne]
  exact hi

/-- Each step of a thread lowers `measure`: alone, it is done after finitely many. -/
theorem runs_out (measure : σ → τ → Nat)
    (hdown : ∀ a t a' t', next a t = some (a', t') → measure a' t' < measure a t) {k : Nat} :
    ∀ (m : Nat) (s : State σ τ) (t : τ), s.threads[k]? = some t → measure s.shared t ≤ m →
      ∃ n s' t', run next s (List.replicate n k) = some s' ∧ s'.threads[k]? = some t' ∧
        next s'.shared t' = none := by
  intro m
  induction m with
  | zero =>
      intro s t ht hm
      refine ⟨0, s, t, rfl, ht, ?_⟩
      cases hn : next s.shared t with
      | none => rfl
      | some r => exact absurd (hdown _ _ _ _ hn) (by omega)
  | succ m ih =>
      intro s t ht hm
      cases hn : next s.shared t with
      | none => exact ⟨0, s, t, rfl, ht, hn⟩
      | some r =>
          obtain ⟨a, t₁⟩ := r
          have hs : step next s k = some ⟨a, s.threads.set k t₁⟩ :=
            step_eq_some.mpr ⟨t, a, t₁, ht, hn, rfl⟩
          have hk : k < s.threads.length := (List.getElem?_eq_some_iff.mp ht).1
          have ht₁ : (s.threads.set k t₁)[k]? = some t₁ := List.getElem?_set_self hk
          have hlt := hdown _ _ _ _ hn
          obtain ⟨n, s', t', hr, ht', hd⟩ := ih ⟨a, s.threads.set k t₁⟩ t₁ ht₁ (by
            show measure a t₁ ≤ m
            omega)
          refine ⟨n + 1, s', t', ?_, ht', hd⟩
          rw [List.replicate_succ, run, hs]
          exact hr

theorem done_run
    (hstays : ∀ a t t₁ a' t', next a t = none → next a t₁ = some (a', t') → next a' t = none)
    {ks : List Nat} {s s' : State σ τ}
    (hr : run next s ks = some s') {j : Nat} {t : τ} (ht : s.threads[j]? = some t)
    (hd : next s.shared t = none) : s'.threads[j]? = some t ∧ next s'.shared t = none := by
  refine run_invariant
    (I := fun s₁ => s₁.threads[j]? = some t ∧ next s₁.shared t = none) ?_ ⟨ht, hd⟩ hr
  rintro s₁ k - s₂ ⟨ht₁, hd₁⟩ hs
  obtain ⟨t₁, a, t₂, hk, hn, rfl⟩ := step_eq_some.mp hs
  have hne : k ≠ j := by
    rintro rfl
    rw [ht₁] at hk
    cases hk
    rw [hd₁] at hn
    cases hn
  refine ⟨?_, hstays _ _ _ _ _ hd₁ hn⟩
  rw [List.getElem?_set_ne hne]
  exact ht₁

theorem others_finish (measure : σ → τ → Nat)
    (hdown : ∀ a t a' t', next a t = some (a', t') → measure a' t' < measure a t)
    (hstays : ∀ a t t₁ a' t', next a t = none → next a t₁ = some (a', t') → next a' t = none) :
    ∀ (ks : List Nat) (s : State σ τ), ∃ es s', (∀ e ∈ es, e ∈ ks) ∧ run next s es = some s' ∧
      ∀ k ∈ ks, ∀ t, s'.threads[k]? = some t → next s'.shared t = none := by
  intro ks
  induction ks with
  | nil =>
      intro s
      refine ⟨[], s, ?_, rfl, ?_⟩
      · intro e he
        cases he
      · intro k hk
        cases hk
  | cons k ks ih =>
      intro s
      cases ht : s.threads[k]? with
      | none =>
          obtain ⟨es, s', hes, hr, hd⟩ := ih s
          refine ⟨es, s', fun e he => List.mem_cons_of_mem k (hes e he), hr, ?_⟩
          intro j hj t hjt
          rcases List.mem_cons.mp hj with rfl | hj
          · have hlen : s'.threads.length = s.threads.length :=
              run_invariant (I := fun s₁ => s₁.threads.length = s.threads.length)
                (fun s₁ _ _ _ hi hs => (length_step hs).trans hi) rfl hr
            have hlt := (List.getElem?_eq_some_iff.mp hjt).1
            have hle := List.getElem?_eq_none_iff.mp ht
            omega
          · exact hd j hj t hjt
      | some t =>
          obtain ⟨n, s₁, t₁, hr₁, ht₁, hd₁⟩ :=
            runs_out measure hdown (measure s.shared t) s t ht (Nat.le_refl _)
          obtain ⟨es, s', hes, hr, hd⟩ := ih s₁
          refine ⟨List.replicate n k ++ es, s', ?_, run_trans hr₁ hr, ?_⟩
          · intro e he
            rcases List.mem_append.mp he with he | he
            · rw [List.eq_of_mem_replicate he]
              exact List.mem_cons_self
            · exact List.mem_cons_of_mem k (hes e he)
          · intro j hj t' hjt
            rcases List.mem_cons.mp hj with rfl | hj
            · obtain ⟨hj₁, hd'⟩ := done_run hstays hr ht₁ hd₁
              rw [hj₁] at hjt
              cases hjt
              exact hd'
            · exact hd j hj t' hjt

/-- All threads but those in `stay` can be run until they are done; those are left alone. -/
theorem all_but_finish (measure : σ → τ → Nat)
    (hdown : ∀ a t a' t', next a t = some (a', t') → measure a' t' < measure a t)
    (hstays : ∀ a t t₁ a' t', next a t = none → next a t₁ = some (a', t') → next a' t = none)
    (stay : List Nat) (s : State σ τ) : ∃ es s', run next s es = some s' ∧
      (∀ k ∈ stay, s'.threads[k]? = s.threads[k]?) ∧
      ∀ k t, k ∉ stay → s'.threads[k]? = some t → next s'.shared t = none := by
  obtain ⟨es, s', hes, hr, hdone⟩ := others_finish measure hdown hstays
    ((List.range s.threads.length).filter (· ∉ stay)) s
  refine ⟨es, s', hr, fun k hk => run_frame hr fun hmem => ?_, fun k t hk ht => ?_⟩
  · have hout := (List.mem_filter.mp (hes k hmem)).2
    exact of_decide_eq_true hout hk
  · refine hdone k (List.mem_filter.mpr ⟨List.mem_range.mpr ?_, decide_eq_true hk⟩) t ht
    rw [← length_run hr]
    exact (List.getElem?_eq_some_iff.mp ht).1

/-! ## Two threads -/

/-- Two threads, `a` in place `k`. -/
def duo (k : Nat) (a b : τ) : List τ := if k = 0 then [a, b] else [b, a]

def Places (k j : Nat) : Prop := (k = 0 ∧ j = 1) ∨ (k = 1 ∧ j = 0)

theorem Places.ne {k j : Nat} (h : Places k j) : k ≠ j := by
  rcases h with ⟨rfl, rfl⟩ | ⟨rfl, rfl⟩
  · exact Nat.zero_ne_one
  · exact Nat.one_ne_zero

theorem Places.symm {k j : Nat} (h : Places k j) : Places j k :=
  (Or.symm h).imp And.symm And.symm

theorem Places.duo {k j : Nat} (h : Places k j) (a b : τ) :
    Interleave.duo k a b = Interleave.duo j b a := by
  rcases h with ⟨rfl, rfl⟩ | ⟨rfl, rfl⟩ <;> rfl

theorem step_duo {k j : Nat} (h : Places k j) (x : σ) (a b : τ) :
    step next ⟨x, duo k a b⟩ k = (next x a).map fun r => ⟨r.1, duo k r.2 b⟩ := by
  rcases h with ⟨rfl, rfl⟩ | ⟨rfl, rfl⟩ <;> rfl

theorem step_duo_of_ne {k j i : Nat} (h : Places k j) (hk : i ≠ k) (hj : i ≠ j) (x : σ) (a b : τ) :
    step next ⟨x, duo k a b⟩ i = none := by
  have hout : (duo k a b)[i]? = none := by
    refine List.getElem?_eq_none ?_
    rcases h with ⟨rfl, rfl⟩ | ⟨rfl, rfl⟩
    · show 2 ≤ i
      omega
    · show 2 ≤ i
      omega
  rw [step, hout]
  rfl

theorem run_duo_cons {k j : Nat} (h : Places k j) {x : σ} {a b : τ} {i : Nat} {ks : List Nat}
    {s' : State σ τ} : run next ⟨x, duo k a b⟩ (i :: ks) = some s' ↔
      (i = k ∧ ∃ x' a', next x a = some (x', a') ∧ run next ⟨x', duo k a' b⟩ ks = some s') ∨
      (i = j ∧ ∃ x' b', next x b = some (x', b') ∧ run next ⟨x', duo k a b'⟩ ks = some s') := by
  have hmove : ∀ (m : Option (σ × τ)) (g : σ × τ → State σ τ),
      ((m.map g).bind fun s₁ => run next s₁ ks) = some s' ↔
        ∃ x' t', m = some (x', t') ∧ run next (g (x', t')) ks = some s' := by
    intro m g
    cases m with
    | none => simp
    | some r => simp [Prod.ext_iff]
  rw [run]
  by_cases hik : i = k
  · subst hik
    rw [step_duo h, hmove]
    simp [h.ne]
  by_cases hij : i = j
  · subst hij
    rw [h.duo a b, step_duo h.symm, hmove]
    simp [hik, h.duo]
  · rw [step_duo_of_ne h hik hij]
    simp [hik, hij]

end Interleave
