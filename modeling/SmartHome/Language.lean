/-
# `Language` — what the command line accepts

A `Sentence` is a word the command list offers: a `Get` with an id, or a `Set` with an
id and a value.  The loop never looks at the word as a whole.  It counts tokens, and
splitting has dropped a delimiter at the end by then, so the words it publishes are the
sentences and the sentences with a dot behind them (`verdict_accept_iff`).  A pass
answers as it should exactly on the words that are `Careful`.
-/
import SmartHome.Commands

namespace SmartHome

open Traced Fields

/-! ## The language -/

/-- `Get_Dev_Info.F`, `Get_Dev_Value.F`, `Set_Dev_Info.F.G` and `Set_Dev_Value.F.G`. -/
inductive Sentence : CStr → Prop where
  | get {t f : CStr} : IsGet t → IsField delimiter f → Sentence (t ++ delimiter :: f)
  | set {t f g : CStr} : IsSet t → IsField delimiter f → IsField delimiter g →
      Sentence (t ++ delimiter :: f ++ delimiter :: g)

namespace CommandLine

/-! ## What it decides for a word -/

theorem verdict_help {ts : List CStr} : verdict ts = .help ↔ ts.head? = some help := by
  cases ts with
  | nil => exact iff_of_false (by decide) (by simp)
  | cons t ts =>
      rw [List.head?_cons, Option.some.injEq, verdict]
      by_cases ht : t = help
      · subst ht
        exact iff_of_true (by rfl) rfl
      · refine iff_of_false ?_ ht
        rw [if_neg ht]
        split
        · split <;> decide
        split
        · split <;> decide
        decide

theorem sentence_iff {w : CStr} : Sentence w ↔
    ∃ ts, verdict ts = .accept ∧ (∀ f ∈ ts, IsField delimiter f) ∧ w = join delimiter ts := by
  constructor
  · rintro (⟨ht, hf⟩ | ⟨ht, hf, hg⟩)
    · rename_i t f
      refine ⟨[t, f], verdict_accept.mpr (Or.inl ⟨t, f, ht, rfl⟩), ?_, by simp⟩
      simp only [List.forall_mem_cons]
      exact ⟨ht.isField, hf, by simp⟩
    · rename_i t f g
      refine ⟨[t, f, g], verdict_accept.mpr (Or.inr ⟨t, f, g, ht, rfl⟩), ?_, by simp⟩
      simp only [List.forall_mem_cons]
      exact ⟨ht.isField, hf, hg, by simp⟩
  · rintro ⟨ts, hv, hall, rfl⟩
    rcases verdict_accept.mp hv with ⟨t, f, ht, rfl⟩ | ⟨t, f, g, ht, rfl⟩
    · have hw := Sentence.get ht (hall f (by simp))
      simpa using hw
    · have hw := Sentence.set ht (hall f (by simp)) (hall g (by simp))
      simpa using hw

/-- The loop publishes the sentences, with or without a dot behind them. -/
theorem verdict_accept_iff {w : CStr} :
    Clean delimiter w ∧ verdict (fields delimiter w) = .accept ↔
      Sentence w ∨ ∃ v, Sentence v ∧ w = v ++ [delimiter] := by
  constructor
  · rintro ⟨hc, hv⟩
    obtain ⟨ts, -, hall, rfl | rfl⟩ := clean_iff_join.mp hc
    · rw [fields_join hall] at hv
      exact Or.inl (sentence_iff.mpr ⟨ts, hv, hall, rfl⟩)
    · rw [fields_join_trailing hall] at hv
      exact Or.inr ⟨_, sentence_iff.mpr ⟨ts, hv, hall, rfl⟩, rfl⟩
  · have hne : ∀ {ts : List CStr}, verdict ts = .accept → ts ≠ [] := by
      rintro _ h rfl
      cases h
    rintro (hw | ⟨v, hv, rfl⟩)
    · obtain ⟨ts, hacc, hall, rfl⟩ := sentence_iff.mp hw
      rw [fields_join hall]
      exact ⟨(clean_join (hne hacc) hall).1, hacc⟩
    · obtain ⟨ts, hacc, hall, rfl⟩ := sentence_iff.mp hv
      rw [fields_join_trailing hall]
      exact ⟨(clean_join (hne hacc) hall).2, hacc⟩

theorem not_sentence_concat {v : CStr} (hv : Sentence v) : ¬ Sentence (v ++ [delimiter]) := by
  intro hw
  obtain ⟨ts, -, hall, rfl⟩ := sentence_iff.mp hv
  obtain ⟨ts', -, hall', heq⟩ := sentence_iff.mp hw
  have hts := fields_join_trailing hall
  rw [heq, fields_join hall'] at hts
  subst hts
  have hlen := congrArg List.length heq
  rw [List.length_append, List.length_singleton] at hlen
  omega

/-! ## The help text -/

section HelpText

variable {text : CStr}

/-- `help` prints the file, and on to the next NUL on the stack. -/
theorem helpPrints_some (hnul : nul ∉ text) (hlen : text.length ≤ maxBufLen) (src : List Char) :
    helpPrints (some text) src = text ++ cstr (src.drop text.length) := by
  show cstr (text.take maxBufLen ++ src.drop (text.take maxBufLen).length) = _
  rw [List.take_of_length_le hlen]
  exact List.takeWhile_append_of_pos (forall_ne_of_not_mem hnul)

theorem helpPrints_eq_iff (hnul : nul ∉ text) (hlen : text.length ≤ maxBufLen)
    (src : List Char) :
    helpPrints (some text) src = text ↔ ∀ c ∈ src[text.length]?, c = nul := by
  rw [helpPrints_some hnul hlen, List.append_right_eq_self, ← List.head?_drop]
  cases src.drop text.length with
  | nil => exact iff_of_true rfl (by simp)
  | cons c bytes => simp [cstr]

/-- The file of the repository: no NUL, room in the buffer, and no message of the loop. -/
theorem commandsFile_text : nul ∉ commandsFile ∧ commandsFile.length ≤ maxBufLen ∧
    commandsFile.head? = some 'A' := by
  decide +kernel

theorem helpPrints_ne_message (src : List Char) :
    helpPrints (some commandsFile) src ≠ invalidNumber ∧
      helpPrints (some commandsFile) src ≠ unrecognized := by
  obtain ⟨hnul, hlen, hfile⟩ := commandsFile_text
  have hhead : (helpPrints (some commandsFile) src).head? = some 'A' := by
    rw [helpPrints_some hnul hlen, List.head?_append, hfile]
    rfl
  constructor
  · intro h
    rw [h] at hhead
    exact absurd hhead (by decide)
  · intro h
    rw [h] at hhead
    exact absurd hhead (by decide)

end HelpText

/-! ## A pass that answers as it should -/

end CommandLine

def Effect.text? : Effect → Option CStr
  | .print text => some text
  | _ => none

def printed {α : Type} (x : Exec α) : List CStr := x.trace.filterMap Effect.text?

namespace CommandLine

/-- A pass on the word `w` keeps to its buffers and returns.  It publishes a sentence as it is,
once; for any other word it publishes nothing and prints the command list, if asked for, or one
of the two messages. -/
structure Answers (w : CStr) (pass : Exec Unit) : Prop where
  fits : pass.Emits Effect.Fits
  returns : pass.outcome = .ok ()
  sentence : Sentence w → published pass = [⟨Topic.controler, w⟩]
  other : ¬ Sentence w → published pass = [] ∧ ∃ text, printed pass = [text] ∧
    (w = help → text = commandsFile) ∧ (w ≠ help → text = invalidNumber ∨ text = unrecognized)

/-- At most 39 bytes, no dot in front and no two in a row; no sentence with a dot behind it, and
nothing behind `--help`, where the buffer has to have a NUL behind the text by chance. -/
structure Careful (src : List Char) (w : CStr) : Prop where
  length : w.length ≤ 39
  clean : Clean delimiter w
  undotted : ∀ v, Sentence v → w ≠ v ++ [delimiter]
  alone : ∀ r, w ≠ help ++ delimiter :: r
  ended : w = help → ∀ c ∈ src[commandsFile.length]?, c = nul

section Pass

variable (commands : CStr) {w : CStr}

theorem loop_of_clean (hw : nul ∉ w) (hc : Clean delimiter w) :
    loop commands w = ⟨.write .input w :: .write .command w ::
      (verdict (fields delimiter w)).effects commands w, .ok ()⟩ := by
  rw [loop_eq, cstr_eq_self hw, if_pos hc]

theorem published_of_clean (hw : nul ∉ w) (hc : Clean delimiter w) :
    published (loop commands w) =
      if verdict (fields delimiter w) = .accept then [⟨Topic.controler, w⟩] else [] := by
  rw [published_loop_eq, cstr_eq_self hw]
  simp only [hc, true_and]

theorem printed_of_clean (hw : nul ∉ w) (hc : Clean delimiter w) :
    printed (loop commands w) = [(verdict (fields delimiter w)).text commands w] := by
  rw [loop_of_clean _ hw hc]
  cases verdict (fields delimiter w) <;> rfl

theorem emits_of_clean (hw : nul ∉ w) (hc : Clean delimiter w) :
    (loop commands w).Emits Effect.Fits ↔ w.length ≤ 39 := by
  have heffects : ∀ v : Verdict, ∀ e ∈ v.effects commands w, e.Fits := by
    intro v e he
    rcases List.mem_cons.mp he with rfl | he
    · trivial
    · split at he
      · rw [List.mem_singleton.mp he]
        trivial
      · cases he
  have hinput : Buffer.input.size = 40 := rfl
  have hcommand : Buffer.command.size = 40 := rfl
  rw [loop_of_clean _ hw hc]
  simp only [Traced.Emits, List.forall_mem_cons, Effect.Fits, hinput, hcommand]
  constructor
  · rintro ⟨h, -⟩
    omega
  · intro h
    exact ⟨by omega, by omega, heffects _⟩

end Pass

theorem verdict_of_help {w : CStr} (hc : Clean delimiter w) :
    verdict (fields delimiter w) = .help ↔ w = help ∨ ∃ r, w = help ++ delimiter :: r := by
  have hfield : IsField delimiter help := by decide
  rw [verdict_help]
  constructor
  · exact eq_or_append_of_head?_fields hc
  · rintro (rfl | ⟨r, rfl⟩)
    · rw [fields_of_not_mem hfield.2 hfield.1]
      rfl
    · rw [fields_append_cons hfield]
      rfl

theorem careful_of_answers {src : List Char} {w : CStr} (hw : nul ∉ w) (hc : Clean delimiter w)
    (h : Answers w (loop (helpPrints (some commandsFile) src) w)) : Careful src w := by
  have haccept : verdict (fields delimiter w) = .accept → Sentence w := by
    intro hv
    by_contra hs
    have hnone := (h.other hs).1
    rw [published_of_clean _ hw hc, if_pos hv] at hnone
    cases hnone
  -- no sentence begins with `--help`, so what is printed is the answer to another word
  have hanswer : verdict (fields delimiter w) = .help →
      (w = help → helpPrints (some commandsFile) src = commandsFile) ∧ ¬ w ≠ help := by
    intro hv
    have hs : ¬ Sentence w := by
      intro hs
      rw [(verdict_accept_iff.mpr (Or.inl hs)).2] at hv
      cases hv
    obtain ⟨text, htext, hself, hmessage⟩ := (h.other hs).2
    rw [printed_of_clean _ hw hc, hv] at htext
    obtain rfl : helpPrints (some commandsFile) src = text := List.singleton_inj.mp htext
    refine ⟨hself, fun hne => ?_⟩
    rcases hmessage hne with htext | htext
    · exact (helpPrints_ne_message src).1 htext
    · exact (helpPrints_ne_message src).2 htext
  refine ⟨(emits_of_clean _ hw hc).mp h.fits, hc, ?_, ?_, ?_⟩
  · intro v hv heq
    have hs := haccept (verdict_accept_iff.mpr (Or.inr ⟨v, hv, heq⟩)).2
    exact not_sentence_concat hv (heq ▸ hs)
  · intro r heq
    refine (hanswer ((verdict_of_help hc).mpr (Or.inr ⟨r, heq⟩))).2 ?_
    rintro rfl
    have hlength := congrArg List.length heq
    rw [List.length_append, List.length_cons] at hlength
    omega
  · intro heq
    have htext := (hanswer ((verdict_of_help hc).mpr (Or.inl heq))).1 heq
    exact (helpPrints_eq_iff commandsFile_text.1 commandsFile_text.2.1 src).mp htext

theorem answers_of_careful {src : List Char} {w : CStr} (hw : nul ∉ w) (h : Careful src w) :
    Answers w (loop (helpPrints (some commandsFile) src) w) := by
  have hc : Clean delimiter w := h.clean
  refine ⟨(emits_of_clean _ hw hc).mpr h.length, by rw [loop_of_clean _ hw hc], ?_, ?_⟩
  · intro hs
    rw [published_of_clean _ hw hc, if_pos (verdict_accept_iff.mpr (Or.inl hs)).2]
  · intro hs
    have hne : verdict (fields delimiter w) ≠ .accept := by
      intro hv
      rcases verdict_accept_iff.mp ⟨hc, hv⟩ with hs' | ⟨v, hv', heq⟩
      · exact hs hs'
      · exact h.undotted v hv' heq
    have hpublished := published_of_clean (helpPrints (some commandsFile) src) hw hc
    refine ⟨by rw [hpublished, if_neg hne], _, printed_of_clean _ hw hc, ?_, ?_⟩
    · intro heq
      rw [(verdict_of_help hc).mpr (Or.inl heq)]
      exact (helpPrints_eq_iff commandsFile_text.1 commandsFile_text.2.1 src).mpr (h.ended heq)
    · intro heq
      have hhelp : verdict (fields delimiter w) ≠ .help := by
        intro hv
        rcases (verdict_of_help hc).mp hv with heq' | ⟨r, heq'⟩
        · exact heq heq'
        · exact h.alone r heq'
      cases hv : verdict (fields delimiter w) with
      | accept => exact absurd hv hne
      | help => exact absurd hv hhelp
      | invalidNumber => exact Or.inl rfl
      | unrecognized => exact Or.inr rfl

/-- **What the command line answers.**  Whatever the word and whatever `help` finds on its
stack: a pass answers as it should exactly on the careful words. -/
theorem answers_iff (src : List Char) {w : CStr} (hw : nul ∉ w) :
    Answers w (loop (helpPrints (some commandsFile) src) w) ↔ Careful src w := by
  refine ⟨fun h => careful_of_answers hw ?_ h, answers_of_careful hw⟩
  by_contra hc
  have hok := h.returns
  rw [loop_eq, cstr_eq_self hw, if_neg hc] at hok
  cases hok

theorem answers_lightBulb :
    Answers "Set_Dev_Value.light_bulb.ON".toList
      (loop (helpPrints (some commandsFile) []) "Set_Dev_Value.light_bulb.ON".toList) := by
  refine (answers_iff [] (by decide)).mpr ⟨by decide, by decide, ?_, ?_, ?_⟩
  · intro v _ heq
    have hlast := congrArg List.getLast? heq
    rw [List.getLast?_concat] at hlast
    exact absurd hlast (by decide)
  · intro r heq
    have hhead : "Set_Dev_Value.light_bulb.ON".toList.head? = some '-' := congrArg List.head? heq
    exact absurd hhead (by decide)
  · intro heq
    exact absurd heq (by decide)

theorem answers_dots : ¬ ∀ (src : List Char) (w : CStr), w ≠ [] → nul ∉ w →
    (∀ c ∈ w, ¬ c.isWhitespace) →
      Answers w (loop (helpPrints (some commandsFile) src) w) := by
  intro h
  have hw : nul ∉ "Get_Dev_Info..light_bulb".toList := by decide
  have hspace : ∀ c ∈ "Get_Dev_Info..light_bulb".toList, ¬ c.isWhitespace :=
    List.any_eq_false.mp (by decide)
  have hok := (h [] _ (by decide) hw hspace).returns
  rw [loop_eq, cstr_eq_self hw, if_neg (by decide)] at hok
  cases hok

/-- A dot behind a sentence: the loop publishes what it should reject. -/
example : published (loop [] "Get_Dev_Info.light_bulb.".toList) =
    [⟨Topic.controler, "Get_Dev_Info.light_bulb.".toList⟩] := by
  decide +kernel

end CommandLine

end SmartHome
