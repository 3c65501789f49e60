/-
# `Lib.Fields` — the maximal delimiter-free runs of a string

`fields d s` lists, in order, the maximal non-empty runs of `s` that avoid `d`.
Two facts about it are used over and over.

* **Count.**  A string has at most as many fields as it has delimiters, plus one
  when it does not end in a delimiter; the bound is attained exactly by the
  *clean* strings, which are non-empty, do not start with `d` and contain no two
  adjacent `d` (`length_fields_eq_iff`).
* **Shape.**  A clean string is its fields joined with `d`, up to one trailing
  `d`, and splitting what was joined gives the fields back (`fields_join`,
  `fields_join_trailing`, `clean_iff_join`).
-/
import Mathlib.Data.List.Basic
import Mathlib.Data.List.Chain

namespace Fields

/-- Fields joined with the delimiter. -/
def join {α : Type} (d : α) (fs : List (List α)) : List α := [d].intercalate fs

@[simp] theorem join_nil {α : Type} (d : α) : join d [] = [] := rfl

@[simp] theorem join_singleton {α : Type} (d : α) (f : List α) : join d [f] = f := by
  simp [join]

@[simp] theorem join_cons_cons {α : Type} (d : α) (f g : List α) (fs : List (List α)) :
    join d (f :: g :: fs) = f ++ d :: join d (g :: fs) := by
  simp [join, List.intercalate_cons_cons]

theorem mem_join {α : Type} {d x : α} : ∀ {fs : List (List α)}, x ∈ join d fs →
    x = d ∨ ∃ f ∈ fs, x ∈ f
  | [], h => absurd h List.not_mem_nil
  | [f], h => Or.inr ⟨f, by simp, by simpa using h⟩
  | f :: g :: fs, h => by
      rw [join_cons_cons] at h
      rcases List.mem_append.mp h with h | h
      · exact Or.inr ⟨f, by simp, h⟩
      · rcases List.mem_cons.mp h with h | h
        · exact Or.inl h
        · rcases mem_join h with h | ⟨f', hf', hx⟩
          · exact Or.inl h
          · exact Or.inr ⟨f', List.mem_cons_of_mem _ hf', hx⟩

theorem length_le_length_join {α : Type} {d : α} {f : List α} : ∀ {fs : List (List α)}, f ∈ fs →
    f.length ≤ (join d fs).length
  | [], h => absurd h List.not_mem_nil
  | [g], h => by rw [List.mem_singleton.mp h, join_singleton]
  | g :: g' :: fs, h => by
      rw [join_cons_cons, List.length_append, List.length_cons]
      rcases List.mem_cons.mp h with rfl | h
      · omega
      · have := length_le_length_join (d := d) h
        omega

variable {α : Type} [DecidableEq α]

/-- The maximal `d`-free runs of `s`, in order. -/
def fields (d : α) (s : List α) : List (List α) := (s.splitOn d).filter (· ≠ [])

/-- `1` when `s` does not end in `d` (an empty `s` does not). -/
def trailing (d : α) (s : List α) : Nat := if s.getLast? = some d then 0 else 1

/-- No leading delimiter, no two adjacent ones, and not empty. -/
def Clean (d : α) (s : List α) : Prop :=
  s ≠ [] ∧ s.head? ≠ some d ∧ s.IsChain fun a b => ¬ (a = d ∧ b = d)

instance (d : α) (s : List α) : Decidable (Clean d s) :=
  inferInstanceAs (Decidable (_ ∧ _ ∧ _))

/-- The fields of a record: non-empty and free of the delimiter. -/
def IsField (d : α) (f : List α) : Prop := f ≠ [] ∧ d ∉ f

instance (d : α) (f : List α) : Decidable (IsField d f) :=
  inferInstanceAs (Decidable (_ ∧ _))

/-! ## The fields of a string, one run at a time -/

@[simp] theorem fields_nil (d : α) : fields d [] = [] := by
  simp [fields, List.splitOn_eq_splitOnP]

@[simp] theorem fields_cons_self (d : α) (s : List α) : fields d (d :: s) = fields d s := by
  simp [fields, List.splitOn_cons_eq_if_modifyHead]

theorem fields_of_not_mem {d : α} {f : List α} (h : d ∉ f) (hf : f ≠ []) :
    fields d f = [f] := by
  simp [fields, List.splitOn_eq_singleton h, hf]

theorem fields_append_cons {d : α} {f : List α} (h : IsField d f) (s : List α) :
    fields d (f ++ d :: s) = f :: fields d s := by
  rw [fields, List.splitOn_append_cons_self_of_not_mem h.2,
    List.filter_cons_of_pos (by simpa using h.1)]
  rfl

theorem isField_of_mem_fields {d : α} {s f : List α} (h : f ∈ fields d s) : IsField d f := by
  refine ⟨by simpa using (List.mem_filter.mp h).2, ?_⟩
  have hmem := (List.mem_filter.mp h).1
  clear h
  induction s generalizing f with
  | nil => simp [List.splitOn_eq_splitOnP] at hmem; simp [hmem]
  | cons a s ih =>
      rw [List.splitOn_cons_eq_if_modifyHead] at hmem
      by_cases ha : a = d
      · rw [if_pos (by simpa using ha)] at hmem
        rcases List.mem_cons.mp hmem with rfl | hmem
        · exact List.not_mem_nil
        · exact ih hmem
      · rw [if_neg (by simpa using ha)] at hmem
        obtain ⟨g, gs, hg⟩ := List.exists_cons_of_ne_nil (List.splitOn_ne_nil d s)
        rw [hg, List.modifyHead_cons] at hmem
        rcases List.mem_cons.mp hmem with rfl | hmem
        · intro hd
          rcases List.mem_cons.mp hd with rfl | hd
          · exact ha rfl
          · exact ih (hg ▸ List.mem_cons_self) hd
        · exact ih (hg ▸ List.mem_cons_of_mem _ hmem)

/-! ## Joining and splitting -/

theorem fields_join {d : α} : ∀ {fs : List (List α)}, (∀ f ∈ fs, IsField d f) →
    fields d (join d fs) = fs
  | [], _ => fields_nil d
  | [f], h => by
      have hf := h f List.mem_cons_self
      rw [join_singleton, fields_of_not_mem hf.2 hf.1]
  | f :: g :: fs, h => by
      rw [join_cons_cons, fields_append_cons (h f List.mem_cons_self),
        fields_join fun x hx => h x (List.mem_cons_of_mem _ hx)]

theorem fields_join_trailing {d : α} : ∀ {fs : List (List α)}, (∀ f ∈ fs, IsField d f) →
    fields d (join d fs ++ [d]) = fs
  | [], _ => by simp
  | [f], h => by
      rw [join_singleton, fields_append_cons (h f List.mem_cons_self), fields_nil]
  | f :: g :: fs, h => by
      rw [join_cons_cons, List.append_assoc, List.cons_append,
        fields_append_cons (h f List.mem_cons_self),
        fields_join_trailing fun x hx => h x (List.mem_cons_of_mem _ hx)]

/-! ## Induction over the runs

Every string is either one delimiter-free run, or such a run, a delimiter and a
shorter string.  This is the recursion of a tokeniser. -/

theorem runInduction {d : α} {P : List α → Prop} (last : ∀ f, d ∉ f → P f)
    (step : ∀ f s, d ∉ f → P s → P (f ++ d :: s)) (s : List α) : P s := by
  induction hn : s.length using Nat.strong_induction_on generalizing s with
  | _ n ih =>
      by_cases hd : d ∈ s
      · obtain ⟨f, s', rfl, hf⟩ := List.eq_append_cons_of_mem hd
        refine step f s' hf (ih s'.length ?_ s' rfl)
        rw [← hn, List.length_append, List.length_cons]
        omega
      · exact last s hd

omit [DecidableEq α] in
theorem clean_of_not_mem {d : α} {f : List α} (h : d ∉ f) : Clean d f ↔ f ≠ [] := by
  refine ⟨fun hc => hc.1, fun hf => ⟨hf, ?_, ?_⟩⟩
  · intro hh
    exact h (List.mem_of_mem_head? hh)
  · refine List.isChain_iff_forall_rel_of_append_cons_cons.mpr ?_
    rintro a b l₁ l₂ rfl ⟨rfl, -⟩
    exact h (by simp)

omit [DecidableEq α] in
/-- Cleanness without the chain: nowhere two delimiters in a row. -/
theorem clean_iff_infix {d : α} {s : List α} :
    Clean d s ↔ s ≠ [] ∧ s.head? ≠ some d ∧ ¬ [d, d] <:+: s := by
  refine and_congr_right fun _ => and_congr_right fun _ => ?_
  rw [List.isChain_iff_forall_rel_of_append_cons_cons]
  constructor
  · rintro hchain ⟨l₁, l₂, h⟩
    have heq : s = l₁ ++ d :: d :: l₂ := by
      rw [← h, List.append_assoc]
      rfl
    exact hchain heq ⟨rfl, rfl⟩
  · rintro hfix a b l₁ l₂ rfl ⟨rfl, rfl⟩
    exact hfix ⟨l₁, l₂, by simp⟩

omit [DecidableEq α] in
theorem clean_append_cons {d : α} {f s : List α} (h : d ∉ f) :
    Clean d (f ++ d :: s) ↔ f ≠ [] ∧ (s = [] ∨ Clean d s) := by
  cases f with
  | nil => simp [Clean]
  | cons a f =>
      have hchain : (a :: f).IsChain fun a b => ¬ (a = d ∧ b = d) :=
        ((clean_of_not_mem h).mpr (List.cons_ne_nil _ _)).2.2
      have ha : a ≠ d := fun h' => h (h' ▸ List.mem_cons_self)
      have hlast : (a :: f).getLast? ≠ some d := fun h' => h (List.mem_of_mem_getLast? h')
      cases s with
      | nil =>
          simp only [Clean, List.isChain_append, List.isChain_singleton]
          have hends : ∀ x, (a :: f).getLast? = some x → ¬ x = d :=
            fun x hx hxd => hlast (hxd ▸ hx)
          simpa [ha] using And.intro hchain hends
      | cons b s =>
          simp only [Clean, List.isChain_append, List.isChain_cons_cons]
          simp only [List.head?_cons]
          constructor
          · rintro ⟨-, -, -, ⟨hb, hs⟩, -⟩
            exact ⟨by simp, Or.inr ⟨by simp, by simpa using hb, hs⟩⟩
          · rintro ⟨-, hs | ⟨-, hb, hs⟩⟩
            · exact absurd hs (by simp)
            · refine ⟨by simp, by simpa using ha, hchain, ⟨by simpa using hb, hs⟩, ?_⟩
              intro x hx y hy
              rintro ⟨rfl, -⟩
              exact hlast hx

omit [DecidableEq α] in
theorem clean_join {d : α} : ∀ {fs : List (List α)}, fs ≠ [] → (∀ f ∈ fs, IsField d f) →
    Clean d (join d fs) ∧ Clean d (join d fs ++ [d])
  | [], hne, _ => absurd rfl hne
  | [f], _, h => by
      have hf := h f List.mem_cons_self
      rw [join_singleton]
      exact ⟨(clean_of_not_mem hf.2).mpr hf.1, (clean_append_cons hf.2).mpr ⟨hf.1, Or.inl rfl⟩⟩
  | f :: g :: fs, _, h => by
      have hf := h f List.mem_cons_self
      obtain ⟨h₁, h₂⟩ := clean_join (List.cons_ne_nil g fs)
        fun x hx => h x (List.mem_cons_of_mem _ hx)
      rw [join_cons_cons, List.append_assoc, List.cons_append]
      exact ⟨(clean_append_cons hf.2).mpr ⟨hf.1, Or.inr h₁⟩,
        (clean_append_cons hf.2).mpr ⟨hf.1, Or.inr h₂⟩⟩

/-- A clean string is a record, with at most one trailing delimiter. -/
theorem clean_iff_join {d : α} {s : List α} :
    Clean d s ↔ ∃ fs, fs ≠ [] ∧ (∀ f ∈ fs, IsField d f) ∧
      (s = join d fs ∨ s = join d fs ++ [d]) := by
  constructor
  · intro hc
    induction s using runInduction (d := d) with
    | last f hf =>
        have hne := (clean_of_not_mem hf).mp hc
        exact ⟨[f], by simp, by simpa using ⟨hne, hf⟩, Or.inl (by simp)⟩
    | step f s hf ih =>
        obtain ⟨hne, rfl | hs⟩ := (clean_append_cons hf).mp hc
        · exact ⟨[f], by simp, by simpa using ⟨hne, hf⟩, Or.inr (by simp)⟩
        · obtain ⟨fs, hfs, hall, heq⟩ := ih hs
          obtain ⟨g, fs, rfl⟩ := List.exists_cons_of_ne_nil hfs
          refine ⟨f :: g :: fs, by simp, List.forall_mem_cons.mpr ⟨⟨hne, hf⟩, hall⟩, ?_⟩
          rcases heq with rfl | rfl
          · exact Or.inl (by simp)
          · exact Or.inr (by simp)
  · rintro ⟨fs, hne, hall, rfl | rfl⟩
    · exact (clean_join hne hall).1
    · exact (clean_join hne hall).2

theorem mem_of_mem_fields {d x : α} {f s : List α} (h : f ∈ fields d s) (hx : x ∈ f) : x ∈ s := by
  induction s using runInduction (d := d) with
  | last g hg =>
      by_cases hne : g = []
      · subst hne; exact absurd h (by simp)
      · rw [fields_of_not_mem hg hne] at h
        exact List.mem_singleton.mp h ▸ hx
  | step g s hg ih =>
      rw [List.mem_append, List.mem_cons]
      by_cases hne : g = []
      · subst hne
        rw [List.nil_append, fields_cons_self] at h
        exact Or.inr (Or.inr (ih h))
      · rw [fields_append_cons ⟨hne, hg⟩] at h
        rcases List.mem_cons.mp h with rfl | h
        · exact Or.inl hx
        · exact Or.inr (Or.inr (ih h))

theorem fields_ne_nil_of_clean {d : α} {s : List α} (h : Clean d s) : fields d s ≠ [] := by
  obtain ⟨fs, hne, hall, rfl | rfl⟩ := clean_iff_join.mp h
  · rw [fields_join hall]; exact hne
  · rw [fields_join_trailing hall]; exact hne

/-- A clean string is its first field, or goes on behind it with a delimiter. -/
theorem eq_or_append_of_head?_fields {d : α} {f s : List α} (hc : Clean d s)
    (h : (fields d s).head? = some f) : s = f ∨ ∃ r, s = f ++ d :: r := by
  induction s using runInduction (d := d) with
  | last g hg =>
      rw [fields_of_not_mem hg ((clean_of_not_mem hg).mp hc)] at h
      exact Or.inl (Option.some.inj h)
  | step g s hg _ =>
      rw [fields_append_cons ⟨((clean_append_cons hg).mp hc).1, hg⟩] at h
      obtain rfl : g = f := Option.some.inj h
      exact Or.inr ⟨s, rfl⟩

/-! ## Counting

A tokeniser that allocates by counting delimiters allocates enough, and exactly
enough on the clean strings. -/

theorem trailing_of_not_mem {d : α} {f : List α} (h : d ∉ f) : trailing d f = 1 :=
  if_neg fun hl => h (List.mem_of_mem_getLast? hl)

theorem trailing_append_cons {d : α} (f s : List α) :
    trailing d (f ++ d :: s) = if s = [] then 0 else trailing d s := by
  cases s with
  | nil => simp [trailing]
  | cons a s => simp [trailing, List.getLast?_append]

theorem length_fields_eq_iff_and_le {d : α} (s : List α) :
    (fields d s).length ≤ s.count d + trailing d s ∧
      ((fields d s).length = s.count d + trailing d s ↔ Clean d s) := by
  induction s using runInduction (d := d) with
  | last f hf =>
      rw [List.count_eq_zero_of_not_mem hf, trailing_of_not_mem hf, clean_of_not_mem hf]
      by_cases hne : f = []
      · simp [hne]
      · simp [fields_of_not_mem hf hne, hne]
  | step f s hf ih =>
      obtain ⟨hle, hiff⟩ := ih
      have hcount : (f ++ d :: s).count d = s.count d + 1 := by
        simp [List.count_eq_zero_of_not_mem hf]
      have hlen : (fields d (f ++ d :: s)).length
          = (fields d s).length + if f = [] then 0 else 1 := by
        by_cases hne : f = []
        · simp [hne]
        · simp [fields_append_cons ⟨hne, hf⟩, hne]
      rw [hcount, hlen, trailing_append_cons, clean_append_cons hf]
      by_cases hs : s = []
      · subst hs
        by_cases hne : f = [] <;> simp [hne]
      · rw [if_neg hs]
        by_cases hne : f = []
        · simp only [hne, if_pos, Nat.add_zero, ne_eq, not_true_eq_false, false_and, iff_false]
          omega
        · rw [if_neg hne, ← hiff]
          simp only [ne_eq, hne, not_false_eq_true, true_and, hs, false_or]
          omega

theorem length_fields_le {d : α} (s : List α) :
    (fields d s).length ≤ s.count d + trailing d s := (length_fields_eq_iff_and_le s).1

theorem length_fields_eq_iff {d : α} {s : List α} :
    (fields d s).length = s.count d + trailing d s ↔ Clean d s :=
  (length_fields_eq_iff_and_le s).2

end Fields
