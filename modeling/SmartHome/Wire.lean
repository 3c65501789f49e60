/-
# `Wire` — the messages the shipped programs exchange, and their text

A `Word` is what survives splitting: a non-empty C string without the delimiter.
A `Mes` is one of the four message shapes of the protocol with words in it, so a
malformed message cannot be built; `Mes.text` is what the encoders in the
programs write.  The one decoder, `str_split`, gives the words back
(`Carried.strSplit`), also when the user left one delimiter at the end.
-/
import SmartHome.Device

namespace SmartHome

open Traced Fields

/-- Non-empty, without delimiter and without NUL. -/
def IsWord (s : CStr) : Prop := s ≠ [] ∧ delimiter ∉ s ∧ nul ∉ s

instance (s : CStr) : Decidable (IsWord s) := inferInstanceAs (Decidable (_ ∧ _ ∧ _))

structure Word where
  text : CStr
  isWord : IsWord text
  deriving DecidableEq

theorem Word.isField (w : Word) : IsField delimiter w.text := ⟨w.isWord.1, w.isWord.2.1⟩

@[ext] theorem Word.ext {v w : Word} (h : v.text = w.text) : v = w := by
  cases v; cases w; cases h; rfl

theorem isWord_readingText (n : Int32) : IsWord (readingText n) := by
  refine ⟨by simp [readingText], ?_, ?_⟩
  · intro h
    rcases List.mem_append.mp h with h | h
    · exact Decimal.not_mem_render (by decide) (by decide) h
    · exact absurd h (by decide)
  · intro h
    rcases List.mem_append.mp h with h | h
    · exact Decimal.not_mem_render (by decide) (by decide) h
    · exact absurd h (by decide)

theorem length_readingText_le (n : Int32) : (readingText n).length ≤ 13 := by
  have h := length_sprintfD_le n
  have hunit : "lr".toList.length = 2 := rfl
  rw [readingText, List.length_append]
  omega

def readingWord (n : Int32) : Word := ⟨readingText n, isWord_readingText n⟩

/-- `strtok` on the unit and `atoi` recover the reading. -/
theorem strtok_readingText (n : Int32) :
    strtok 'l' (readingText n) = some (sprintfD n, "r".toList) :=
  strtok_append_cons (Decimal.not_mem_render (by decide) (by decide)) (sprintfD_ne_nil n) _

theorem readingText_injective {n n' : Int32} (h : readingText n = readingText n') : n = n' := by
  have htok := congrArg (strtok 'l') h
  rw [strtok_readingText, strtok_readingText] at htok
  have htext := (Prod.mk.inj (Option.some.inj htok)).1
  rw [← atoi_sprintfD n, ← atoi_sprintfD n', htext]

/-! ## Message types as words -/

namespace Property

def word : Property → Word
  | .value => ⟨"Value".toList, by decide⟩
  | .info => ⟨"Info".toList, by decide⟩

def getType : Property → Word
  | .value => ⟨MesType.getDevValue, by decide⟩
  | .info => ⟨MesType.getDevInfo, by decide⟩

def setType : Property → Word
  | .value => ⟨MesType.setDevValue, by decide⟩
  | .info => ⟨MesType.setDevInfo, by decide⟩

theorem setType_eq_iff : ∀ {p q : Property}, p.setType.text = q.setType.text ↔ p = q
  | .value, .value | .info, .info => iff_of_true rfl rfl
  | .value, .info | .info, .value => iff_of_false (by decide) (by decide)

@[simp] theorem word_text (p : Property) : p.word.text = p.name := by cases p <;> rfl

end Property

def changedType : Word := ⟨MesType.propertyChanged, by decide⟩

def readingType : Word := ⟨MesType.sensorMes, by decide⟩

/-! ## Messages -/

inductive Mes where
  /-- `Get_Dev_<property>.id` -/
  | get (p : Property) (id : Word)
  /-- `Set_Dev_<property>.id.v` -/
  | set (p : Property) (id v : Word)
  /-- `PropertyChanged.id.<property>.v` -/
  | changed (p : Property) (id v : Word)
  /-- `Sensor_Mes.<n>lr` -/
  | reading (n : Int32)

namespace Mes

def words : Mes → List Word
  | get p id => [p.getType, id]
  | set p id v => [p.setType, id, v]
  | changed p id v => [changedType, id, p.word, v]
  | reading n => [readingType, readingWord n]

def tokens (m : Mes) : List CStr := m.words.map Word.text

def text (m : Mes) : CStr := join delimiter m.tokens

/-- The messages a user may publish. -/
def IsCommand : Mes → Prop
  | get _ _ | set _ _ _ => True
  | changed _ _ _ | reading _ => False

instance : DecidablePred IsCommand
  | get _ _ | set _ _ _ => isTrue trivial
  | changed _ _ _ | reading _ => isFalse not_false

/-- A payload carries a message when it is its text, up to one delimiter at the end. -/
def Carried (m : Mes) (payload : CStr) : Prop :=
  payload = m.text ∨ payload = m.text ++ [delimiter]

theorem words_ne_nil (m : Mes) : m.words ≠ [] := by cases m <;> exact List.cons_ne_nil _ _

theorem isField_of_mem_tokens {m : Mes} : ∀ t ∈ m.tokens, IsField delimiter t := by
  intro t ht
  obtain ⟨w, -, rfl⟩ := List.mem_map.mp ht
  exact w.isField

theorem nul_not_mem_text (m : Mes) : nul ∉ m.text := by
  intro h
  rcases mem_join h with h | ⟨t, ht, hn⟩
  · exact absurd h (by decide)
  · obtain ⟨w, -, rfl⟩ := List.mem_map.mp ht
    exact w.isWord.2.2 hn

theorem Carried.nul_not_mem {m : Mes} {payload : CStr} (h : m.Carried payload) :
    nul ∉ payload := by
  rcases h with rfl | rfl
  · exact m.nul_not_mem_text
  · intro hn
    rcases List.mem_append.mp hn with hn | hn
    · exact m.nul_not_mem_text hn
    · exact absurd (List.mem_singleton.mp hn) (by decide)

theorem carried_text (m : Mes) : m.Carried m.text := Or.inl rfl

theorem Carried.length_word_le {m : Mes} {payload : CStr} (h : m.Carried payload) {w : Word}
    (hw : w ∈ m.words) : w.text.length ≤ payload.length := by
  have hle : w.text.length ≤ m.text.length := length_le_length_join (List.mem_map_of_mem hw)
  rcases h with rfl | rfl
  · exact hle
  · rw [List.length_append]
    exact Nat.le_add_right_of_le hle

theorem Carried.clean {m : Mes} {payload : CStr} (h : m.Carried payload) :
    Clean delimiter payload := by
  have hne : m.tokens ≠ [] := by simpa [tokens] using m.words_ne_nil
  obtain ⟨htext, hdotted⟩ := clean_join hne m.isField_of_mem_tokens
  rcases h with rfl | rfl
  · exact htext
  · exact hdotted

theorem Carried.fields_eq {m : Mes} {payload : CStr} (h : m.Carried payload) :
    fields delimiter payload = m.tokens := by
  rcases h with rfl | rfl
  · exact fields_join m.isField_of_mem_tokens
  · exact fields_join_trailing m.isField_of_mem_tokens

/-- The decoder inverts every encoder. -/
theorem Carried.strSplit {m : Mes} {payload : CStr} (h : m.Carried payload) :
    SmartHome.strSplit payload delimiter = pure m.tokens := by
  rw [strSplit_of_clean h.clean, h.fields_eq]

theorem Carried.stringCpy {m : Mes} {payload : CStr} (h : m.Carried payload) :
    SmartHome.stringCpy payload = payload := cstr_eq_self h.nul_not_mem

theorem text_changed (p : Property) (id v : Word) :
    (changed p id v).text = sprintfChanged id.text p.name v.text := by
  simp [text, tokens, words, changedType, sprintfChanged, delimiter]

theorem text_reading (n : Int32) :
    (reading n).text = MesType.sensorMes ++ '.' :: readingText n := by
  simp [text, tokens, words, readingType, readingWord, delimiter]

end Mes

end SmartHome
