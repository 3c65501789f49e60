/-
# `Strtok` — two calls of `str_split` at once

`strtok` remembers where it stands in one place for the whole process.  A call of
`str_split` hands it its own string once and from then on asks for the next token,
whoever's string that is from.  Here two calls take turns, one call of `strtok` at
a time (`splitStep`).  Both get their own tokens exactly on the schedules where each
takes all of its tokens without the other calling in between (`InTurn`).
-/
import SmartHome.Parse
import SmartHome.Lib.Interleave

namespace SmartHome

open Traced Fields Interleave

/-! ## `str_split`, one call of `strtok` at a time -/

/-- A call of `str_split` between two calls of `strtok`. -/
inductive Splitting where
  /-- before the first of them -/
  | ready (s : CStr)
  /-- in the loop, with the slots allocated and what is stored so far -/
  | loop (count : Nat) (result : List CStr)
  | returned (result : List CStr)
  /-- an assert failed -/
  | aborted
  deriving DecidableEq, Repr

/-- `strtok` called where `pos` is left to scan, and the loop up to its next call.  The
first component is the position `strtok` saves. -/
def strtokCall (delim : Char) (count : Nat) (result : List CStr) (pos : CStr) :
    CStr × Splitting :=
  match strtok delim pos with
  | some (token, save) =>
      (save, if result.length < count then .loop count (result ++ [token]) else .aborted)
  | none => ([], if result.length = count - 1 then .returned result else .aborted)

/-- The next call of `strtok`: the first passes the string, the others a null pointer. -/
def splitStep (delim : Char) (save : CStr) : Splitting → Option (CStr × Splitting)
  | .ready s => some (strtokCall delim (slotCount s delim) [] s)
  | .loop count result => some (strtokCall delim count result save)
  | .returned _ | .aborted => none

/-- How `str_split` ends. -/
def Splitting.ended : Except Fault (List CStr) → Splitting
  | .ok result => .returned result
  | .error _ => .aborted

variable {d : Char}

theorem strtokCall_cons {count : Nat} {result : List CStr} {pos t : CStr} {ts : List CStr}
    (hpos : fields d pos = t :: ts) (hroom : result.length < count) :
    ∃ save, strtokCall d count result pos = (save, .loop count (result ++ [t])) ∧
      fields d save = ts := by
  have hf := fields_strtok d pos
  unfold strtokCall
  cases hs : strtok d pos with
  | none =>
      rw [hs, hpos] at hf
      cases hf
  | some p =>
      obtain ⟨token, save⟩ := p
      rw [hs, hpos] at hf
      obtain ⟨rfl, rfl⟩ := List.cons.inj hf
      exact ⟨save, by simp only [if_pos hroom], rfl⟩

theorem strtokCall_nil {count : Nat} {result : List CStr} {pos : CStr}
    (hpos : fields d pos = []) :
    strtokCall d count result pos =
      ([], if result.length = count - 1 then .returned result else .aborted) := by
  have hf := fields_strtok d pos
  unfold strtokCall
  cases hs : strtok d pos with
  | none => rfl
  | some p =>
      rw [hs, hpos] at hf
      cases hf

/-- Alone, the calls of `strtok` do what `strSplit` does with them. -/
theorem splitStep_alone (s save : CStr) : ∃ n save',
    run (splitStep d) ⟨save, [.ready s]⟩ (List.replicate n 0) =
      some ⟨save', [.ended (strSplit s d).outcome]⟩ := by
  have hone : ∀ {save x : CStr} {t t' : Splitting}, splitStep d save t = some (x, t') →
      run (splitStep d) ⟨save, [t]⟩ (List.replicate 1 0) = some ⟨x, [t']⟩ := by
    intro save x t t' h
    rw [run_single h]
    rfl
  have hloop : ∀ (count fuel : Nat) (pos : CStr) (result : List CStr) (save : CStr)
      (t : Splitting), pos.length < fuel →
      splitStep d save t = some (strtokCall d count result pos) → ∃ n save',
        run (splitStep d) ⟨save, [t]⟩ (List.replicate n 0) = some ⟨save', [.ended
          (tokenLoop d count fuel pos result >>= fun result =>
            if result.length = count - 1 then pure result else stop .assertFailed).outcome]⟩ := by
    intro count fuel
    induction fuel with
    | zero =>
        intro pos result save t hfuel
        exact absurd hfuel (Nat.not_lt_zero _)
    | succ fuel ih =>
        intro pos result save t hfuel ht
        rw [tokenLoop]
        rw [strtokCall] at ht
        cases hs : strtok d pos with
        | none =>
            rw [hs] at ht
            refine ⟨1, [], ?_⟩
            rw [hone ht]
            simp only [pure_bind]
            split <;> rfl
        | some p =>
            obtain ⟨token, save'⟩ := p
            rw [hs] at ht
            have hshort := length_strtok_lt hs
            by_cases hroom : result.length < count
            · simp only [if_pos hroom] at ht ⊢
              obtain ⟨n, x, hn⟩ := ih save' (result ++ [token]) save'
                (.loop count (result ++ [token])) (by omega) rfl
              exact ⟨n + 1, x, (run_single ht n).trans hn⟩
            · simp only [if_neg hroom] at ht ⊢
              exact ⟨1, save', hone ht⟩
  exact hloop (slotCount s d) (s.length + 1) s [] save (.ready s) (Nat.lt_succ_self _) rfl

/-! ## Two calls at once -/

/-- Calls `k` and `j`, as they stand, come back with `T` and `U` on the schedule `ks`. -/
def Ends (d : Char) (k : Nat) (T U : List CStr) (save : CStr) (a b : Splitting) (ks : List Nat) :
    Prop :=
  ∃ save', run (splitStep d) ⟨save, duo k a b⟩ ks = some ⟨save', duo k (.returned T) (.returned U)⟩

section Ends

variable {k j : Nat} {T U : List CStr} {save : CStr} {a b : Splitting} {ks : List Nat}

theorem Ends.swap (h : Places k j) : Ends d k T U save a b ks ↔ Ends d j U T save b a ks := by
  have hends : duo k (Splitting.returned T) (.returned U) = duo j (.returned U) (.returned T) :=
    h.duo _ _
  unfold Ends
  rw [h.duo a b, hends]

theorem duo_inj {τ : Type} {a b a' b' : τ} (h : duo k a b = duo k a' b') : a = a' ∧ b = b' := by
  unfold duo at h
  split at h
  · cases h
    exact ⟨rfl, rfl⟩
  · cases h
    exact ⟨rfl, rfl⟩

theorem ends_nil : Ends d k T U save a b [] ↔ a = .returned T ∧ b = .returned U := by
  constructor
  · rintro ⟨save', h⟩
    exact duo_inj (congrArg State.threads (Option.some.inj h))
  · rintro ⟨rfl, rfl⟩
    exact ⟨save, rfl⟩

theorem ends_cons (h : Places k j) {i : Nat} : Ends d k T U save a b (i :: ks) ↔
    (i = k ∧ ∃ x a', splitStep d save a = some (x, a') ∧ Ends d k T U x a' b ks) ∨
    (i = j ∧ ∃ x b', splitStep d save b = some (x, b') ∧ Ends d k T U x a b' ks) := by
  unfold Ends
  simp only [run_duo_cons h]
  constructor
  · rintro ⟨save', ⟨hi, x, a', hn, hr⟩ | ⟨hi, x, b', hn, hr⟩⟩
    · exact Or.inl ⟨hi, x, a', hn, save', hr⟩
    · exact Or.inr ⟨hi, x, b', hn, save', hr⟩
  · rintro (⟨hi, x, a', hn, save', hr⟩ | ⟨hi, x, b', hn, save', hr⟩)
    · exact ⟨save', Or.inl ⟨hi, x, a', hn, hr⟩⟩
    · exact ⟨save', Or.inr ⟨hi, x, b', hn, hr⟩⟩

theorem ends_cons_second (h : Places k j) (ha : splitStep d save a = none) {x : CStr}
    {b' : Splitting} (hb : splitStep d save b = some (x, b')) {i : Nat} :
    Ends d k T U save a b (i :: ks) ↔ i = j ∧ Ends d k T U x a b' ks := by
  rw [ends_cons h, ha, hb]
  simp

theorem ends_cons_both (h : Places k j) {x y : CStr} {a' b' : Splitting}
    (ha : splitStep d save a = some (x, a')) (hb : splitStep d save b = some (y, b')) {i : Nat} :
    Ends d k T U save a b (i :: ks) ↔
      (i = k ∧ Ends d k T U x a' b ks) ∨ (i = j ∧ Ends d k T U y a b' ks) := by
  rw [ends_cons h, ha, hb]
  simp

theorem ends_done (h : Places k j) :
    Ends d k T U save (.returned T) (.returned U) ks ↔ ks = [] := by
  cases ks with
  | nil => exact iff_of_true (ends_nil.mpr ⟨rfl, rfl⟩) rfl
  | cons i ks =>
      refine iff_of_false ?_ (List.cons_ne_nil i ks)
      rw [ends_cons h]
      rintro (⟨-, _, _, hn, -⟩ | ⟨-, _, _, hn, -⟩) <;> cases hn

/-! ### Tokens are not made up for

Once both calls have passed their strings on, a token taken by one is lost to the other. -/

/-- The tokens a call has that it can still return. -/
def Splitting.got : Splitting → Nat
  | .ready _ | .aborted => 0
  | .loop _ result | .returned result => result.length

def Splitting.Started : Splitting → Prop
  | .ready _ => False
  | .loop _ _ | .returned _ | .aborted => True

theorem got_step {save x : CStr} {a a' : Splitting} (ha : a.Started)
    (h : splitStep d save a = some (x, a')) : a'.Started ∧
      a'.got + (fields d x).length ≤ a.got + (fields d save).length ∧
      (a' = .aborted ∨ a.got ≤ a'.got) := by
  cases a with
  | ready s => exact absurd ha not_false
  | returned result => cases h
  | aborted => cases h
  | loop count result =>
      have hf := fields_strtok d save
      simp only [splitStep, strtokCall, Option.some.injEq] at h
      cases hs : strtok d save with
      | none =>
          simp only [hs, Prod.mk.injEq] at h
          obtain ⟨rfl, rfl⟩ := h
          split
          · exact ⟨trivial, by simp [Splitting.got], Or.inr (Nat.le_refl _)⟩
          · exact ⟨trivial, by simp [Splitting.got], Or.inl rfl⟩
      | some p =>
          obtain ⟨token, save'⟩ := p
          rw [hs] at hf
          simp only [hs, Prod.mk.injEq] at h
          obtain ⟨rfl, rfl⟩ := h
          simp only at hf
          rw [hf, List.length_cons]
          split
          · refine ⟨trivial, ?_, Or.inr ?_⟩
            · simp only [Splitting.got, List.length_append, List.length_singleton]
              omega
            · simp [Splitting.got]
          · refine ⟨trivial, ?_, Or.inl rfl⟩
            simp only [Splitting.got]
            omega

theorem not_ends_aborted (h : Places k j) : ¬ Ends d k T U save .aborted b ks := by
  induction ks generalizing save b with
  | nil =>
      intro he
      cases (ends_nil.mp he).1
  | cons i ks ih =>
      rw [ends_cons h]
      rintro (⟨-, _, _, hn, -⟩ | ⟨-, _, _, -, he⟩)
      · cases hn
      · exact ih he

/-- No call can have more tokens than it comes back with. -/
theorem ends_got_le (h : Places k j) (ha : a.Started) (he : Ends d k T U save a b ks) :
    a.got ≤ T.length := by
  induction ks generalizing save a b with
  | nil =>
      obtain ⟨rfl, -⟩ := ends_nil.mp he
      exact Nat.le_refl _
  | cons i ks ih =>
      rcases (ends_cons h).mp he with ⟨-, x, a', hn, he'⟩ | ⟨-, x, b', hn, he'⟩
      · obtain ⟨ha', -, rfl | hle⟩ := got_step ha hn
        · exact absurd he' (not_ends_aborted h)
        · exact hle.trans (ih ha' he')
      · exact ih ha he'

/-- What both have and what is left must be enough for both. -/
theorem ends_supply (h : Places k j) (ha : a.Started) (hb : b.Started)
    (he : Ends d k T U save a b ks) :
    T.length + U.length ≤ a.got + b.got + (fields d save).length := by
  induction ks generalizing save a b with
  | nil =>
      obtain ⟨rfl, rfl⟩ := ends_nil.mp he
      exact Nat.le_add_right _ _
  | cons i ks ih =>
      rcases (ends_cons h).mp he with ⟨-, x, a', hn, he'⟩ | ⟨-, x, b', hn, he'⟩
      · obtain ⟨ha', hsum, -⟩ := got_step ha hn
        have := ih ha' hb he'
        omega
      · obtain ⟨hb', hsum, -⟩ := got_step hb hn
        have := ih ha hb' he'
        omega

/-! ### The schedules, from the end -/

/-- A call in the loop with the slots for `T` and all of `T` comes back on its next. -/
theorem splitStep_full (hq : fields d save = []) :
    splitStep d save (.loop (T.length + 1) T) = some ([], .returned T) := by
  rw [splitStep, strtokCall_nil hq, if_pos (Nat.add_sub_cancel T.length 1).symm]

/-- One that has `r` of `r ++ t :: q` gets `t`. -/
theorem splitStep_next {t : CStr} {q r : List CStr} (hq : fields d save = t :: q)
    (hT : r ++ t :: q = T) : ∃ x, fields d x = q ∧ r ++ [t] ++ q = T ∧
      splitStep d save (.loop (T.length + 1) r) =
        some (x, .loop (T.length + 1) (r ++ [t])) := by
  have hroom : r.length < T.length + 1 := by
    rw [← hT, List.length_append]
    omega
  obtain ⟨x, hcall, hx⟩ := strtokCall_cons hq hroom
  refine ⟨x, hx, ?_, congrArg some hcall⟩
  rw [← hT, List.append_assoc]
  rfl

/-- `k` is back, and `j` has still to take the tokens `q`. -/
theorem ends_last (h : Places k j) {q r : List CStr} (hq : fields d save = q) (hU : r ++ q = U) :
    Ends d k T U save (.returned T) (.loop (U.length + 1) r) ks ↔
      ks = List.replicate (q.length + 1) j := by
  have hnil : ∀ {save r}, ¬ Ends d k T U save (.returned T) (.loop (U.length + 1) r) [] := by
    intro save r he
    cases (ends_nil.mp he).2
  induction q generalizing save r ks with
  | nil =>
      rw [List.append_nil] at hU
      subst hU
      cases ks with
      | nil => exact iff_of_false hnil (by simp)
      | cons i ks =>
          rw [ends_cons_second h rfl (splitStep_full hq), ends_done h]
          simp
  | cons t q ih =>
      obtain ⟨x, hx, hU', hcall⟩ := splitStep_next hq hU
      cases ks with
      | nil => exact iff_of_false hnil (by simp)
      | cons i ks =>
          have hrest : (i = j ∧ Ends d k T U x (.returned T) (.loop (U.length + 1) (r ++ [t])) ks) ↔
              i = j ∧ ks = List.replicate (q.length + 1) j := and_congr_right fun _ => ih hx hU'
          rw [ends_cons_second h rfl hcall]
          exact hrest.trans (by simp [List.replicate_succ])

/-- `k` has all its tokens but has not seen the null, and `j` has still to take `q`. -/
theorem ends_both (h : Places k j) {q r : List CStr} (hq : fields d save = q) (hU : r ++ q = U) :
    Ends d k T U save (.loop (T.length + 1) T) (.loop (U.length + 1) r) ks ↔
      ks = List.replicate q.length j ++ [k, j] ∨ ks = List.replicate (q.length + 1) j ++ [k] := by
  have hnil : ∀ {save r}, ¬ Ends d k T U save (.loop (T.length + 1) T)
      (.loop (U.length + 1) r) [] := by
    intro save r he
    cases (ends_nil.mp he).1
  induction q generalizing save r ks with
  | nil =>
      rw [List.append_nil] at hU
      subst hU
      cases ks with
      | nil => exact iff_of_false hnil (by simp)
      | cons i ks =>
          have hnone : fields d [] = [] := fields_nil d
          rw [ends_cons_both h (splitStep_full hq) (splitStep_full hq),
            ends_last h hnone (List.append_nil _), Ends.swap h,
            ends_last h.symm hnone (List.append_nil _)]
          simp
  | cons t q ih =>
      obtain ⟨x, hx, hU', hcall⟩ := splitStep_next hq hU
      obtain ⟨y, hcall', -⟩ := strtokCall_cons hq (Nat.lt_succ_self T.length)
      have hsteal : splitStep d save (.loop (T.length + 1) T) =
          some (y, .loop (T.length + 1) (T ++ [t])) := congrArg some hcall'
      -- a token `k` takes now is one too many for it
      have hover : ¬ Ends d k T U y (.loop (T.length + 1) (T ++ [t])) (.loop (U.length + 1) r)
          ks.tail := by
        intro he
        have hstarted : (Splitting.loop (T.length + 1) (T ++ [t])).Started := trivial
        have hle := ends_got_le h hstarted he
        simp only [Splitting.got, List.length_append, List.length_singleton] at hle
        omega
      cases ks with
      | nil => exact iff_of_false hnil (by simp)
      | cons i ks =>
          have hne := h.ne
          rw [ends_cons_both h hsteal hcall]
          have hrest : (i = j ∧ Ends d k T U x (.loop (T.length + 1) T)
              (.loop (U.length + 1) (r ++ [t])) ks) ↔ i = j ∧
                (ks = List.replicate q.length j ++ [k, j] ∨
                  ks = List.replicate (q.length + 1) j ++ [k]) :=
            and_congr_right fun _ => ih hx hU'
          refine (or_iff_right fun he => hover he.2).trans (hrest.trans ?_)
          rw [and_or_left]
          simp [List.replicate_succ]

end Ends

/-! ## In turn -/

/-- `k` makes the calls for its `m` tokens, then `j` those for its `n`; `k` sees the null before
`j` starts, or after `j` has its tokens. -/
def Follows (k j m n : Nat) (ks : List Nat) : Prop :=
  ks = List.replicate (m + 1) k ++ List.replicate (n + 1) j ∨
    ks = List.replicate m k ++ (List.replicate n j ++ [k, j]) ∨
    ks = List.replicate m k ++ (List.replicate (n + 1) j ++ [k])

/-- One of two calls, for strings of `m` and `n` tokens, takes all of its tokens, and then the
other. -/
def InTurn (m n : Nat) (ks : List Nat) : Prop := Follows 0 1 m n ks ∨ Follows 1 0 n m ks

instance (k j m n : Nat) (ks : List Nat) : Decidable (Follows k j m n ks) :=
  inferInstanceAs (Decidable (_ ∨ _ ∨ _))

instance (m n : Nat) (ks : List Nat) : Decidable (InTurn m n ks) :=
  inferInstanceAs (Decidable (_ ∨ _))

theorem not_follows_nil {k j m n : Nat} : ¬ Follows k j m n [] := by
  simp [Follows, List.replicate_succ]

theorem follows_succ {k j m n i : Nat} {ks : List Nat} :
    Follows k j (m + 1) n (i :: ks) ↔ i = k ∧ Follows k j m n ks := by
  simp only [Follows, List.replicate_succ, List.cons_append, List.cons.injEq, ← and_or_left]

theorem follows_zero {k j n i : Nat} {ks : List Nat} :
    Follows k j 0 (n + 1) (i :: ks) ↔ (i = k ∧ ks = List.replicate (n + 2) j) ∨
      (i = j ∧ (ks = List.replicate n j ++ [k, j] ∨ ks = List.replicate (n + 1) j ++ [k])) := by
  simp only [Follows, List.replicate_succ, List.replicate_zero, List.cons_append, List.nil_append,
    List.cons.injEq, ← and_or_left]

section Turns

variable {k j : Nat} {T U : List CStr} {save s₁ s₂ : CStr} {ks : List Nat}

/-- What a call of `str_split` finds in its string. -/
structure Accepted (d : Char) (s : CStr) (T : List CStr) : Prop where
  fields : fields d s = T
  slots : slotCount s d = T.length + 1
  nonempty : T ≠ []

theorem accepted_of_strSplit {s : CStr} (h : strSplit s d = pure T) : Accepted d s T := by
  rw [strSplit_eq] at h
  split at h
  · rename_i hc
    obtain rfl : Fields.fields d s = T := Except.ok.inj (congrArg Traced.outcome h)
    exact ⟨rfl, by rw [slotCount_eq, length_fields_eq_iff.mpr hc], fields_ne_nil_of_clean hc⟩
  · cases congrArg Traced.outcome h

theorem Accepted.splitStep {s : CStr} (hs : Accepted d s T) (save : CStr) : ∃ x t q,
    T = t :: q ∧ Fields.fields d x = q ∧
      splitStep d save (.ready s) = some (x, .loop (T.length + 1) [t]) := by
  obtain ⟨t, q, hT⟩ := List.exists_cons_of_ne_nil hs.nonempty
  have hroom : ([] : List CStr).length < T.length + 1 := Nat.succ_pos _
  obtain ⟨x, hcall, hx⟩ := strtokCall_cons (hs.fields.trans hT) hroom
  refine ⟨x, t, q, hT, hx, ?_⟩
  rw [SmartHome.splitStep, hs.slots, hcall]
  rfl

theorem ends_second (h : Places k j) (hs : Accepted d s₂ U) :
    Ends d k T U save (.returned T) (.ready s₂) ks ↔ ks = List.replicate (U.length + 1) j := by
  obtain ⟨x, t, q, hU, hx, hcall⟩ := hs.splitStep save
  cases ks with
  | nil =>
      refine iff_of_false (fun he => ?_) (by simp)
      cases (ends_nil.mp he).2
  | cons i ks =>
      rw [ends_cons_second h rfl hcall, ends_last h hx hU.symm, hU]
      simp [List.replicate_succ]

theorem ends_first (h : Places k j) (hs : Accepted d s₂ U) {q r : List CStr}
    (hq : fields d save = q) (hT : r ++ q = T) :
    Ends d k T U save (.loop (T.length + 1) r) (.ready s₂) ks ↔
      Follows k j q.length U.length ks := by
  have hnil : ∀ {save r}, ¬ Ends d k T U save (.loop (T.length + 1) r) (.ready s₂) [] := by
    intro save r he
    cases (ends_nil.mp he).1
  obtain ⟨y, u, p, hU, hy, hload⟩ := hs.splitStep save
  induction q generalizing save r ks with
  | nil =>
      rw [List.append_nil] at hT
      subst hT
      cases ks with
      | nil => exact iff_of_false hnil not_follows_nil
      | cons i ks =>
          rw [ends_cons_both h (splitStep_full hq) hload, ends_second h hs,
            ends_both h hy hU.symm, hU]
          exact follows_zero.symm
  | cons t q ih =>
      obtain ⟨x, hx, hT', hcall⟩ := splitStep_next hq hT
      -- once `j` has started, the tokens `k` still needs are gone
      have hlost : ¬ Ends d k T U y (.loop (T.length + 1) r) (.loop (U.length + 1) [u])
          ks.tail := by
        intro he
        have hstarted : ∀ c result, (Splitting.loop c result).Started := fun _ _ => trivial
        have hle := ends_supply h (hstarted _ _) (hstarted _ _) he
        rw [hy, hU, ← hT] at hle
        simp only [Splitting.got, List.length_append, List.length_cons, List.length_nil] at hle
        omega
      cases ks with
      | nil => exact iff_of_false hnil not_follows_nil
      | cons i ks =>
          have hrest : (i = k ∧ Ends d k T U x (.loop (T.length + 1) (r ++ [t])) (.ready s₂) ks) ↔
              i = k ∧ Follows k j q.length U.length ks :=
            and_congr_right fun _ => ih hx hT' hload
          rw [ends_cons_both h hcall hload, List.length_cons, follows_succ]
          exact (or_iff_left fun he => hlost he.2).trans hrest

theorem ends_start (h : Places k j) (hs₁ : Accepted d s₁ T) (hs₂ : Accepted d s₂ U) :
    Ends d k T U save (.ready s₁) (.ready s₂) ks ↔
      Follows k j T.length U.length ks ∨ Follows j k U.length T.length ks := by
  obtain ⟨x, t, q, hT, hx, hcall₁⟩ := hs₁.splitStep save
  obtain ⟨y, u, p, hU, hy, hcall₂⟩ := hs₂.splitStep save
  cases ks with
  | nil =>
      refine iff_of_false (fun he => ?_) (not_or_intro not_follows_nil not_follows_nil)
      cases (ends_nil.mp he).1
  | cons i ks =>
      rw [ends_cons_both h hcall₁ hcall₂, ends_first h hs₂ hx hT.symm, Ends.swap h,
        ends_first h.symm hs₁ hy hU.symm]
      rw [hT, hU, List.length_cons, List.length_cons, follows_succ, follows_succ]

end Turns

/-- An interleaving of two calls, to the end of both. -/
def Interleaving (d : Char) (s₀ s₁ save : CStr) (ks : List Nat) (c : State CStr Splitting) : Prop :=
  run (splitStep d) ⟨save, [.ready s₀, .ready s₁]⟩ ks = some c ∧ Finished (splitStep d) c

/-- For two strings `str_split` accepts and every interleaving of the two calls: both return
the tokens they return alone exactly when they took them in turn. -/
theorem splits_undisturbed_iff {s₀ s₁ save : CStr} {T₀ T₁ : List CStr}
    (h₀ : strSplit s₀ d = pure T₀) (h₁ : strSplit s₁ d = pure T₁) {ks : List Nat}
    {c : State CStr Splitting} (h : Interleaving d s₀ s₁ save ks c) :
    c.threads = [.returned T₀, .returned T₁] ↔ InTurn T₀.length T₁.length ks := by
  obtain ⟨hrun, -⟩ := h
  have hplaces : Places 0 1 := Or.inl ⟨rfl, rfl⟩
  have hstart : Ends d 0 T₀ T₁ save (.ready s₀) (.ready s₁) ks ↔ InTurn T₀.length T₁.length ks :=
    ends_start hplaces (accepted_of_strSplit h₀) (accepted_of_strSplit h₁)
  rw [← hstart]
  constructor
  · intro hc
    refine ⟨c.shared, hrun.trans ?_⟩
    show some (⟨c.shared, c.threads⟩ : State CStr Splitting) = _
    rw [hc]
    rfl
  · rintro ⟨save', h⟩
    exact congrArg State.threads (Option.some.inj (hrun.symm.trans h))

/-- The second call takes its tokens before the first asks for the null. -/
theorem splits_undisturbed_pair :
    Interleaving '.' "a.b".toList "c".toList [] [0, 0, 1, 0, 1]
        ⟨[], [.returned ["a".toList, "b".toList], .returned ["c".toList]]⟩ ∧
      InTurn 2 1 [0, 0, 1, 0, 1] := by
  have h₀ : strSplit "a.b".toList '.' = pure ["a".toList, "b".toList] := rfl
  have h₁ : strSplit "c".toList '.' = pure ["c".toList] := rfl
  have h : Interleaving '.' "a.b".toList "c".toList [] [0, 0, 1, 0, 1]
      ⟨[], [.returned ["a".toList, "b".toList], .returned ["c".toList]]⟩ :=
    ⟨rfl, by decide⟩
  exact ⟨h, (splits_undisturbed_iff h₀ h₁ h).mp rfl⟩

/-- The first takes the second's last token for its own, and the second's assert fails. -/
theorem splits_mixed : ¬ ∀ (s₀ s₁ save : CStr) (T₀ T₁ : List CStr) (ks : List Nat)
    (c : State CStr Splitting), strSplit s₀ '.' = pure T₀ → strSplit s₁ '.' = pure T₁ →
    Interleaving '.' s₀ s₁ save ks c → c.threads = [.returned T₀, .returned T₁] := by
  intro h
  have hmixed : Interleaving '.' "a.b".toList "c.d".toList [] [0, 1, 0, 1, 0]
      ⟨[], [.returned ["a".toList, "d".toList], .aborted]⟩ := ⟨rfl, by decide⟩
  have hthreads := h _ _ _ ["a".toList, "b".toList] ["c".toList, "d".toList] _ _ rfl rfl hmixed
  exact absurd hthreads (by decide)

end SmartHome
