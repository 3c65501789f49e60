/-
# `CString` — C strings and the library functions the programs call on them

A C string is the list of its characters before the terminating NUL, one `Char`
per byte.  `strcmp(a, b) == 0` is equality of these lists, `strlen` is `length`,
`strcpy` copies the list and `strcat` appends; only the functions with more to
them than that are defined here.
-/
import SmartHome.Lib.Decimal
import SmartHome.Lib.Fields

namespace SmartHome

/-- The characters of a C string, without its NUL. -/
abbrev CStr := List Char

def nul : Char := Char.ofNat 0

theorem forall_ne_of_not_mem {d : Char} {f : List Char} (h : d ∉ f) :
    ∀ c ∈ f, decide (c ≠ d) = true := fun _ hc =>
  decide_eq_true fun hcd => h (hcd ▸ hc)

/-- What C sees of a run of bytes: everything up to the first NUL. -/
def cstr (bytes : List Char) : CStr := bytes.takeWhile (· ≠ nul)

theorem nul_not_mem_cstr (bytes : List Char) : nul ∉ cstr bytes := fun h => by
  simpa using List.mem_takeWhile_imp h

theorem cstr_eq_self {s : CStr} (h : nul ∉ s) : cstr s = s :=
  List.takeWhile_eq_self_iff.mpr (forall_ne_of_not_mem h)

theorem length_cstr_le (bytes : List Char) : (cstr bytes).length ≤ bytes.length :=
  (List.takeWhile_prefix _).length_le

/-! ## `strtok`

One call, from the position where the scan stands: skip delimiters, and if the
string is not exhausted cut off the token that follows.  The second component is
where the next call with a null first argument resumes. -/

def strtok (d : Char) (s : CStr) : Option (CStr × CStr) :=
  match s.dropWhile (· = d) with
  | [] => none
  | c :: rest =>
      some ((c :: rest).takeWhile (· ≠ d), ((c :: rest).dropWhile (· ≠ d)).tail)

/-- What the scanned buffer reads as afterwards: `strtok` has put a NUL over the
delimiter behind the first token. -/
def strtokCut (d : Char) (s : CStr) : CStr :=
  s.takeWhile (· = d) ++ (s.dropWhile (· = d)).takeWhile (· ≠ d)

theorem strtok_eq_none_iff {d : Char} {s : CStr} : strtok d s = none ↔ ∀ c ∈ s, c = d := by
  have hdrop : s.dropWhile (· = d) = [] ↔ ∀ c ∈ s, c = d := by
    simp [List.dropWhile_eq_nil_iff]
  rw [← hdrop, strtok]
  split
  · rename_i h
    simp [h]
  · rename_i c rest h
    simp [h]

theorem strtok_cons_self (d : Char) (s : CStr) : strtok d (d :: s) = strtok d s := by
  simp [strtok]

theorem strtok_of_not_mem {d : Char} {f : CStr} (h : d ∉ f) (hf : f ≠ []) :
    strtok d f = some (f, []) := by
  obtain ⟨c, cs, rfl⟩ := List.exists_cons_of_ne_nil hf
  have hall := forall_ne_of_not_mem h
  have hc : c ≠ d := fun hcd => h (hcd ▸ List.mem_cons_self)
  have hdrop : (c :: cs).dropWhile (· = d) = c :: cs := by simp [hc]
  simp only [strtok, hdrop]
  rw [List.takeWhile_eq_self_iff.mpr hall, List.dropWhile_eq_nil_iff.mpr hall]
  rfl

theorem strtok_append_cons {d : Char} {f : CStr} (h : d ∉ f) (hf : f ≠ []) (s : CStr) :
    strtok d (f ++ d :: s) = some (f, s) := by
  obtain ⟨c, cs, rfl⟩ := List.exists_cons_of_ne_nil hf
  have hall := forall_ne_of_not_mem h
  have hc : c ≠ d := fun hcd => h (hcd ▸ List.mem_cons_self)
  have hdrop : (c :: cs ++ d :: s).dropWhile (· = d) = c :: (cs ++ d :: s) := by simp [hc]
  simp only [strtok, hdrop]
  rw [← List.cons_append, List.takeWhile_append_of_pos hall, List.dropWhile_append_of_pos hall]
  simp

theorem length_strtok_lt {d : Char} {s t rest : CStr} (h : strtok d s = some (t, rest)) :
    rest.length < s.length := by
  unfold strtok at h
  split at h
  · cases h
  · rename_i c r hdrop
    have hle : (c :: r).length ≤ s.length := hdrop ▸ (List.dropWhile_suffix _).length_le
    have hc : c ≠ d := by
      have := List.head?_dropWhile_not (· = d) s
      rw [hdrop] at this
      simpa using this
    obtain ⟨-, rfl⟩ := Prod.mk.inj (Option.some.inj h)
    have : ((c :: r).dropWhile (· ≠ d)).length ≤ r.length := by
      rw [List.dropWhile_cons_of_pos (by simpa using hc)]
      exact (List.dropWhile_suffix _).length_le
    rw [List.length_cons] at hle
    rw [List.length_tail]
    omega

/-! ## Numbers -/

/-- `sprintf("%d", n)`. -/
def sprintfD (n : Int32) : CStr := Decimal.render n.toInt

/-- `(int) strtol(s, NULL, 10)`: the value saturates at the range of `long` and is then
cut to 32 bits. -/
def atoi (s : CStr) : Int32 :=
  Int32.ofInt (max (-2 ^ 63) (min (2 ^ 63 - 1) (Decimal.parse s)))

theorem atoi_sprintfD (n : Int32) : atoi (sprintfD n) = n := by
  have hlo := n.le_toInt
  have hhi := n.toInt_lt
  have hclamp : max (-2 ^ 63) (min (2 ^ 63 - 1) n.toInt) = n.toInt := by omega
  rw [atoi, sprintfD, Decimal.parse_render, hclamp, Int32.ofInt_toInt]

theorem sprintfD_ne_nil (n : Int32) : sprintfD n ≠ [] := Decimal.render_ne_nil _

theorem length_sprintfD_le (n : Int32) : (sprintfD n).length ≤ 11 := by
  have hlo := n.le_toInt
  have hhi := n.toInt_lt
  exact Decimal.length_render_le (by decide) (by omega)

end SmartHome
