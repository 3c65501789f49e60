/-
# `Lib.Soup` — messages in flight, in no order

The receivers have one state between them; the messages in flight are a multiset.
A step delivers one of them and puts what the receivers send in its place.  When
everything sent ranks below the message it was sent for, in a well-founded order,
the multiset falls in the hydra order, however many are sent at once: no run goes
on forever (`no_infinite_run`).
-/
import Mathlib.Logic.Hydra

namespace Soup

open Relation

/-- The receivers, and what is in flight. -/
structure Config (σ μ : Type) where
  state : σ
  flying : Multiset μ

variable {σ μ : Type}

/-- One message is delivered.  `deliver s m s' out`: on `m` the receivers can go from `s` to
`s'` and send `out`. -/
inductive Step (deliver : σ → μ → σ → List μ → Prop) : Config σ μ → Config σ μ → Prop where
  | deliver {s s' : σ} {m : μ} {out : List μ} (rest : Multiset μ) :
      deliver s m s' out → Step deliver ⟨s, m ::ₘ rest⟩ ⟨s', rest + out⟩

/-- What is sent for a message is below it. -/
def Falls (deliver : σ → μ → σ → List μ → Prop) (below : μ → μ → Prop) : Prop :=
  ∀ s m s' out, deliver s m s' out → ∀ m' ∈ out, below m' m

variable {deliver : σ → μ → σ → List μ → Prop} {below : μ → μ → Prop}

theorem Step.cutExpand (hfall : Falls deliver below) {c c' : Config σ μ}
    (h : Step deliver c c') : CutExpand below c'.flying c.flying := by
  cases h with
  | @deliver s s' m out rest h =>
      refine ⟨out, m, ?_, ?_⟩
      · intro m' hm'
        exact hfall s m s' out h m' (Multiset.mem_coe.mp hm')
      · show rest + out + {m} = m ::ₘ rest + out
        rw [← Multiset.singleton_add, add_right_comm, add_comm rest]

theorem step_wellFounded (hwf : WellFounded below) (hfall : Falls deliver below) :
    WellFounded fun c' c : Config σ μ => Step deliver c c' :=
  Subrelation.wf (fun h => h.cutExpand hfall) (InvImage.wf Config.flying hwf.cutExpand)

/-- Every run is finite. -/
theorem no_infinite_run (hwf : WellFounded below) (hfall : Falls deliver below) :
    ¬ ∃ run : Nat → Config σ μ, ∀ k, Step deliver (run k) (run (k + 1)) := by
  rintro ⟨run, hrun⟩
  have hwf := step_wellFounded hwf hfall
  exact (wellFounded_iff_isEmpty_descending_chain.mp hwf).false ⟨run, hrun⟩

end Soup
