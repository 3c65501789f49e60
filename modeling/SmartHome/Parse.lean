/-
# `Parse` — `parse.h`

`strSplit` makes two independent passes over the string.  The first counts the
delimiters and remembers where the last one stood, to decide how many slots the
result needs; the second runs `strtok` and asserts that it filled exactly those
slots, short of the one for the terminating null.  `strSplit_eq` says when the
two agree: on the strings that are not empty, do not start with the delimiter
and have no two delimiters in a row.
-/
import SmartHome.Exec

namespace SmartHome

open Traced Fields

/-- `string_cpy`: a NUL-terminated copy of the bytes, read as a C string. -/
def stringCpy (bytes : List Char) : CStr := cstr bytes

/-! ## `str_split` -/

/-- The counting loop, at position `i`: delimiters seen, and `last_comma` where it was set. -/
def countLoop (delim : Char) : CStr → Nat → Nat → Option Nat → Nat × Option Nat
  | [], _, count, lastComma => (count, lastComma)
  | c :: tmp, i, count, lastComma =>
      if delim = c then countLoop delim tmp (i + 1) (count + 1) (some i)
      else countLoop delim tmp (i + 1) count lastComma

/-- `last_comma < a_str + strlen(a_str) - 1`; a null pointer is below every other. -/
def lastCommaBelow (lastComma : Option Nat) (length : Nat) : Bool :=
  match lastComma with
  | none => true
  | some i => (i : Int) < length - 1

/-- The slots `str_split` allocates. -/
def slotCount (s : CStr) (delim : Char) : Nat :=
  let counted := countLoop delim s 0 0 none
  counted.1 + (if lastCommaBelow counted.2 s.length then 1 else 0) + 1

/-- The `strtok` loop: `save` is where `strtok` resumes, `result` what is stored so far.
Each call that finds a token shortens `save`, so a `fuel` above its length is never used up. -/
def tokenLoop (delim : Char) (count : Nat) : Nat → CStr → List CStr → Exec (List CStr)
  | 0, _, result => pure result
  | fuel + 1, save, result =>
      match strtok delim save with
      | some (token, save) =>
          if result.length < count then tokenLoop delim count fuel save (result ++ [token])
          else stop .assertFailed
      | none => pure result

/-- `str_split`; the result is the array up to its terminating null. -/
def strSplit (s : CStr) (delim : Char) : Exec (List CStr) := do
  let count := slotCount s delim
  let result ← tokenLoop delim count (s.length + 1) s []
  if result.length = count - 1 then pure result else stop .assertFailed

/-- The array itself: a slot for each token and one for the null. -/
def resultArray (result : List CStr) : List (Option CStr) := result.map some ++ [none]

/-! ## The counting pass -/

theorem countLoop_fst (d : Char) : ∀ (s : CStr) (i count : Nat) (last : Option Nat),
    (countLoop d s i count last).1 = count + s.count d
  | [], _, _, _ => rfl
  | c :: s, i, count, last => by
      by_cases hc : d = c
      · subst hc
        rw [countLoop, if_pos rfl, countLoop_fst d s, List.count_cons_self]
        omega
      · rw [countLoop, if_neg hc, countLoop_fst d s, List.count_cons_of_ne (Ne.symm hc)]

theorem countLoop_concat (d c : Char) : ∀ (s : CStr) (i count : Nat) (last : Option Nat),
    (countLoop d (s ++ [c]) i count last).2 =
      if d = c then some (i + s.length) else (countLoop d s i count last).2
  | [], i, count, last => by
      by_cases hc : d = c <;> simp [countLoop, hc]
  | a :: s, i, count, last => by
      rw [List.cons_append, countLoop, countLoop]
      split
      · rw [countLoop_concat d c s, List.length_cons, Nat.add_assoc, Nat.add_comm 1]
      · rw [countLoop_concat d c s, List.length_cons, Nat.add_assoc, Nat.add_comm 1]

theorem countLoop_snd_lt (d : Char) : ∀ (s : CStr) (i count : Nat) (last : Option Nat),
    (∀ j, last = some j → j < i) →
      ∀ j, (countLoop d s i count last).2 = some j → j < i + s.length
  | [], i, _, _, hlast, j, h => by simpa using hlast j h
  | c :: s, i, count, last, hlast, j, h => by
      rw [countLoop] at h
      rw [List.length_cons]
      split at h
      · have := countLoop_snd_lt d s (i + 1) (count + 1) (some i) (by simp) j h
        omega
      · have := countLoop_snd_lt d s (i + 1) count last
          (fun k hk => Nat.lt_succ_of_lt (hlast k hk)) j h
        omega

/-- The count pass: a slot per delimiter, one for a token after the last of them, and
one for the null. -/
theorem slotCount_eq (s : CStr) (d : Char) : slotCount s d = s.count d + trailing d s + 1 := by
  have hfst : (countLoop d s 0 0 none).1 = s.count d := by
    rw [countLoop_fst, Nat.zero_add]
  have hbelow : (if lastCommaBelow (countLoop d s 0 0 none).2 s.length then 1 else 0)
      = trailing d s := by
    rcases List.eq_nil_or_concat s with rfl | ⟨t, c, rfl⟩
    · rfl
    · rw [List.concat_eq_append, countLoop_concat, trailing, List.getLast?_concat,
        List.length_append, List.length_singleton]
      by_cases hc : d = c
      · subst hc
        simp [lastCommaBelow]
      · rw [if_neg hc, if_neg fun h => hc (Option.some.inj h).symm]
        have hlt := countLoop_snd_lt d t 0 0 none (by simp)
        cases hlast : (countLoop d t 0 0 none).2 with
        | none => rfl
        | some j =>
            have hj := hlt j hlast
            have hbelow : lastCommaBelow (some j) (t.length + 1) = true := by
              simp only [lastCommaBelow, decide_eq_true_eq]
              omega
            rw [if_pos hbelow]
  simp only [slotCount, hfst, hbelow]

/-! ## The token pass -/

theorem fields_strtok (d : Char) (s : CStr) :
    fields d s = match strtok d s with
      | some (token, save) => token :: fields d save
      | none => [] := by
  induction s using runInduction (d := d) with
  | last f hf =>
      by_cases hne : f = []
      · subst hne; rfl
      · rw [strtok_of_not_mem hf hne, fields_of_not_mem hf hne]
        simp
  | step f s hf ih =>
      by_cases hne : f = []
      · subst hne; simpa [strtok_cons_self] using ih
      · rw [strtok_append_cons hf hne, fields_append_cons ⟨hne, hf⟩]

/-- With room for them, the loop collects exactly the fields. -/
theorem tokenLoop_eq (d : Char) (count : Nat) : ∀ (fuel : Nat) (save : CStr) (result : List CStr),
    save.length < fuel → result.length + (fields d save).length ≤ count →
      tokenLoop d count fuel save result = pure (result ++ fields d save)
  | 0, _, _, hfuel, _ => absurd hfuel (Nat.not_lt_zero _)
  | fuel + 1, save, result, hfuel, hroom => by
      have hf := fields_strtok d save
      rw [tokenLoop]
      cases hs : strtok d save with
      | none =>
          rw [hs] at hf
          simp only at hf
          rw [hf, List.append_nil]
      | some p =>
          obtain ⟨token, save'⟩ := p
          rw [hs] at hf
          simp only at hf ⊢
          rw [hf, List.length_cons] at hroom
          have hshort := length_strtok_lt hs
          rw [if_pos (by omega), tokenLoop_eq d count fuel save' (result ++ [token]) (by omega)
            (by simp; omega), hf, List.append_assoc, List.singleton_append]

/-- **`str_split`, exact domain and result.**  Both asserts hold exactly on the clean
strings, and then the result is the list of their fields. -/
theorem strSplit_eq (s : CStr) (d : Char) :
    strSplit s d = if Clean d s then pure (fields d s) else stop .assertFailed := by
  have hle := length_fields_le (d := d) s
  have hloop : tokenLoop d (s.count d + trailing d s + 1) (s.length + 1) s []
      = pure (fields d s) := by
    rw [tokenLoop_eq d _ _ s [] (Nat.lt_succ_self _) (by simp; omega), List.nil_append]
  have hclean := length_fields_eq_iff (d := d) (s := s)
  simp only [strSplit, slotCount_eq, hloop, pure_bind, Nat.add_sub_cancel]
  by_cases hc : Clean d s
  · rw [if_pos (hclean.mpr hc), if_pos hc]
  · rw [if_neg fun h => hc (hclean.mp h), if_neg hc]

theorem strSplit_of_clean {s : CStr} {d : Char} (h : Clean d s) :
    strSplit s d = pure (fields d s) := by
  rw [strSplit_eq, if_pos h]

theorem strSplit_of_not_clean {s : CStr} {d : Char} (h : ¬ Clean d s) :
    strSplit s d = stop .assertFailed := by
  rw [strSplit_eq, if_neg h]

/-! ## The array -/

@[simp] theorem length_resultArray (result : List CStr) :
    (resultArray result).length = result.length + 1 := by
  simp [resultArray]

theorem load_eq_resultArray (tokens : List CStr) (k : Nat) :
    load tokens k = match (resultArray tokens)[k]? with
      | some slot => pure slot
      | none => stop .tokenBounds := by
  unfold load
  split
  · rename_i hk
    rcases Nat.lt_or_eq_of_le hk with hlt | rfl
    · have hslot : (resultArray tokens)[k]? = some tokens[k]? := by
        simp [resultArray, List.getElem?_append_left, hlt]
      rw [hslot]
    · simp [resultArray]
  · rename_i hk
    have hslot : (resultArray tokens)[k]? = none :=
      List.getElem?_eq_none (by rw [length_resultArray]; omega)
    rw [hslot]

/-- Both asserts hold exactly on the strings that are not empty, do not start with `d` and
contain no two adjacent `d`.  Then the array has the slots allocated for it: the maximal
`d`-free runs in order, and in the last slot the null.  Joined, they are the string up to one
`d` at its end. -/
theorem strSplit_domain_and_result (s : CStr) (d : Char) :
    ((∃ tokens, (strSplit s d).outcome = .ok tokens) ↔
      s ≠ [] ∧ s.head? ≠ some d ∧ ¬ [d, d] <:+: s) ∧
    ∀ tokens, (strSplit s d).outcome = .ok tokens →
      tokens = fields d s ∧ (∀ t ∈ tokens, t ≠ [] ∧ d ∉ t) ∧
      (resultArray tokens).length = slotCount s d ∧
      (resultArray tokens)[slotCount s d - 1]? = some none ∧
      (s = join d tokens ∨ s = join d tokens ++ [d]) := by
  rw [← clean_iff_infix, strSplit_eq]
  by_cases hc : Clean d s
  · rw [if_pos hc]
    refine ⟨iff_of_true ⟨_, rfl⟩ hc, ?_⟩
    rintro tokens ⟨⟩
    have hslots : (fields d s).length + 1 = slotCount s d := by
      rw [slotCount_eq, length_fields_eq_iff.mpr hc]
    refine ⟨rfl, fun t ht => isField_of_mem_fields ht, ?_, ?_, ?_⟩
    · rw [length_resultArray, hslots]
    · rw [← hslots]
      simp [resultArray]
    · obtain ⟨fs, -, hall, rfl | rfl⟩ := clean_iff_join.mp hc
      · exact Or.inl (by rw [fields_join hall])
      · exact Or.inr (by rw [fields_join_trailing hall])
  · rw [if_neg hc]
    refine ⟨iff_of_false ?_ hc, ?_⟩
    · rintro ⟨tokens, h⟩
      cases h
    · intro tokens h
      cases h

/-- Two tokens and a delimiter at the end: three slots, the last of them the null. -/
example : (strSplit "ab.c.".toList '.').outcome = .ok ["ab".toList, "c".toList] ∧
    slotCount "ab.c.".toList '.' = 3 := by decide

end SmartHome
