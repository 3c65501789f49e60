/-
# `Lib.Register` — last-writer-wins registers, read off a log

A log of events, each of which may write a register: the register holds what
the last writing event wrote, or what it held at first.  Which events write
what is a parameter, so one log serves any number of registers.

**Rules proved here.**

    read_concat       one more event
    last_append       two logs in a row
    last_filter       events that are dropped are events that do not write
    last_of_covered   writes that are always overwritten do not count
-/
import Mathlib.Data.List.Basic
import Mathlib.Data.List.Induction

namespace Register

variable {E F V W : Type}

/-- What the last writing event wrote. -/
def last (w : E → Option V) (log : List E) : Option V := (log.filterMap w).getLast?

/-- The register's content after the log. -/
def read (init : V) (w : E → Option V) (log : List E) : V := (last w log).getD init

theorem last_append (w : E → Option V) (log log' : List E) :
    last w (log ++ log') = (last w log').or (last w log) := by
  rw [last, List.filterMap_append, List.getLast?_append]
  rfl

@[simp] theorem last_singleton (w : E → Option V) (e : E) : last w [e] = w e := by
  rw [last, List.filterMap_cons]
  cases w e <;> rfl

theorem last_concat (w : E → Option V) (log : List E) (e : E) :
    last w (log ++ [e]) = (w e).or (last w log) := by
  rw [last_append, last_singleton]

theorem read_concat (init : V) (w : E → Option V) (log : List E) (e : E) :
    read init w (log ++ [e]) = (w e).getD (read init w log) := by
  rw [read, last_concat]
  cases w e <;> rfl

theorem last_congr {w w' : E → Option V} {log : List E} (h : ∀ e ∈ log, w e = w' e) :
    last w log = last w' log := by
  rw [last, last, List.filterMap_congr h]

theorem last_eq_none {w : E → Option V} {log : List E} :
    last w log = none ↔ ∀ e ∈ log, w e = none := by
  rw [last, List.getLast?_eq_none_iff, List.filterMap_eq_nil_iff]

theorem last_map (w : F → Option V) (f : E → F) (log : List E) :
    last w (log.map f) = last (fun e => w (f e)) log := by
  rw [last, List.filterMap_map]
  rfl

theorem last_filter (w : E → Option V) (p : E → Bool) (log : List E) :
    last w (log.filter p) = last (fun e => if p e then w e else none) log := by
  rw [last, List.filterMap_filter]
  rfl

theorem last_option_map (f : V → W) (w : E → Option V) (log : List E) :
    last (fun e => (w e).map f) log = (last w log).map f := by
  rw [last, last, ← List.map_filterMap, List.getLast?_map]

/-- If every write outside `p` is followed by one inside, the writes inside decide. -/
theorem last_of_covered {w : E → Option V} {p : E → Bool} {log : List E}
    (h : ∀ before e after, log = before ++ e :: after → p e = false → w e ≠ none →
      ∃ x ∈ after, p x = true ∧ w x ≠ none) :
    last w log = last (fun e => if p e then w e else none) log := by
  induction log using List.reverseRecOn with
  | nil => rfl
  | append_singleton log e ih =>
      rw [last_concat, last_concat]
      cases he : w e with
      | some v =>
          have hp : p e = true := by
            by_contra hp
            have hwrites : w e ≠ none := by rw [he]; exact Option.some_ne_none v
            have hcov := h log e [] rfl (by simpa using hp) hwrites
            obtain ⟨x, hx, -⟩ := hcov
            exact absurd hx List.not_mem_nil
          rw [if_pos hp]
          rfl
      | none =>
          have hih := ih fun before x after hlog hpx hwx => by
            obtain ⟨y, hy, hpy, hwy⟩ := h before x (after ++ [e]) (by rw [hlog]; simp) hpx hwx
            rcases List.mem_append.mp hy with hy | hy
            · exact ⟨y, hy, hpy, hwy⟩
            · rw [List.mem_singleton.mp hy, he] at hwy
              exact absurd rfl hwy
          rw [hih]
          split <;> rfl

end Register
