import DeskCalculator.Evaluation
import DeskCalculator.Proofs.Text.Lowercase

/-! # Texts in normal form

No character of a normal form is blank or has another lower case, and a text of such characters is its own
normal form. A text has the same normal form, and so the same value, wherever blanks are put into it.
-/
namespace DeskCalculator.Text

variable {c : Char} {cs : List Char}

def IsNormal (c : Char) : Prop := isBlank c = false ∧ lowercase c = [c]

instance (c : Char) : Decidable (IsNormal c) :=
  inferInstanceAs (Decidable (isBlank c = false ∧ lowercase c = [c]))

theorem normalChars_cons (cs : List Char) (h : isBlank c = false) :
    normalChars (c :: cs) = lowercase c ++ normalChars cs := by
  simp [normalChars, h]

theorem isNormal_of_mem_normalChars (h : c ∈ normalChars cs) : IsNormal c := by
  obtain ⟨d, hd, hc⟩ := List.mem_flatMap.mp h
  have hblank : isBlank d = false := by simpa using (List.mem_filter.mp hd).2
  exact of_mem_lowercase hblank hc

theorem normalChars_of_isNormal (h : ∀ c ∈ cs, IsNormal c) : normalChars cs = cs := by
  induction cs with
  | nil => rfl
  | cons c cs ih =>
    obtain ⟨⟨hblank, hlow⟩, hcs⟩ := List.forall_mem_cons.mp h
    rw [normalChars_cons cs hblank, hlow, ih hcs, List.singleton_append]

theorem normalChars_eq_self_iff : normalChars cs = cs ↔ ∀ c ∈ cs, IsNormal c := by
  constructor
  · intro h c hc
    rw [← h] at hc
    exact isNormal_of_mem_normalChars hc
  · exact normalChars_of_isNormal

theorem normalChars_normalChars (cs : List Char) : normalChars (normalChars cs) = normalChars cs :=
  normalChars_of_isNormal fun _ => isNormal_of_mem_normalChars

/-- The second text is the first with blanks put anywhere into it. -/
inductive Spaced : List Char → List Char → Prop
  | nil : Spaced [] []
  | keep (c : Char) {s t : List Char} (h : Spaced s t) : Spaced (c :: s) (c :: t)
  | blank {c : Char} {s t : List Char} (hc : isBlank c = true) (h : Spaced s t) : Spaced s (c :: t)

theorem Spaced.refl (cs : List Char) : Spaced cs cs := by
  induction cs with
  | nil => exact .nil
  | cons c cs ih => exact .keep c ih

theorem Spaced.normalChars_eq {s t : List Char} (h : Spaced s t) : normalChars t = normalChars s := by
  induction h with
  | nil => rfl
  | keep c _ ih =>
    cases hc : isBlank c with
    | true => rw [normalChars_cons_blank _ hc, normalChars_cons_blank _ hc, ih]
    | false => rw [normalChars_cons _ hc, normalChars_cons _ hc, ih]
  | blank hc _ ih => rw [normalChars_cons_blank _ hc, ih]

theorem normalize_normalize (s : String) : normalize (normalize s) = normalize s := by
  rw [normalize, normalize, String.toList_ofList, normalChars_normalChars]

theorem normalize_append (s t : String) : normalize (s ++ t) = normalize s ++ normalize t := by
  rw [normalize, String.toList_append, normalChars_append, String.ofList_append]
  rfl

/-- An evaluation and its records know a text by its normal form. -/
theorem evaluate_congr {s t : String} (h : normalize t = normalize s) :
    evaluate t = evaluate s ∧ evaluationRecords t = evaluationRecords s := by
  have htokens : expressionTokens t = expressionTokens s := congrArg Token.tokenize h
  rw [evaluate, evaluate, evaluationRecords, evaluationRecords, htokens, h]
  exact ⟨rfl, rfl⟩

/-- Bringing a text to normal form a second time changes nothing: exactly the texts without a blank and
without a character that has another lower case are in normal form. Parts are brought to normal form
separately. A text, its normal form, and the text with blanks anywhere in it have one value and are
noted alike. -/
theorem normalize_stable (s t : String) :
    normalize (normalize s) = normalize s ∧
      (∀ c ∈ (normalize s).toList, isBlank c = false ∧ lowercase c = [c]) ∧
      (normalize s = s ↔ ∀ c ∈ s.toList, isBlank c = false ∧ lowercase c = [c]) ∧
      normalize (s ++ t) = normalize s ++ normalize t ∧
      evaluate (normalize s) = evaluate s ∧
      (Spaced s.toList t.toList →
        normalize t = normalize s ∧ evaluate t = evaluate s ∧
          evaluationRecords t = evaluationRecords s) := by
  refine ⟨normalize_normalize s, ?_, ?_, normalize_append s t,
    (evaluate_congr (normalize_normalize s)).1, ?_⟩
  · intro c hc
    rw [normalize, String.toList_ofList] at hc
    exact isNormal_of_mem_normalChars hc
  · rw [normalize, ← String.toList_inj, String.toList_ofList]
    exact normalChars_eq_self_iff
  · intro h
    have hnormal : normalize t = normalize s := congrArg String.ofList h.normalChars_eq
    exact ⟨hnormal, evaluate_congr hnormal⟩

/-- Blanks in a symbol and in a numeral, and a letter that has two in its place. -/
theorem normalize_stable_blanks_within :
    Spaced "SIN(1.5)".toList " S\u2003IN(1.\t5)".toList ∧
      normalize " S\u2003IN(1.\t5)" = "sin(1.5)" ∧ normalize "\u0130" = "i\u0307" ∧
      evaluate " S\u2003IN(1.\t5)" = evaluate "SIN(1.5)" ∧
      evaluate "sin(1.5)" = evaluate "SIN(1.5)" := by
  have hspaced : Spaced "SIN(1.5)".toList " S\u2003IN(1.\t5)".toList :=
    .blank (by decide +kernel) (.keep 'S' (.blank (by decide +kernel) (.keep 'I' (.keep 'N' (.keep '('
      (.keep '1' (.keep '.' (.blank (by decide +kernel) (.refl ['5', ')'])))))))))
  have hnormal : normalize "SIN(1.5)" = "sin(1.5)" := by decide +kernel
  obtain ⟨-, -, -, -, hvalue, hblanks⟩ := normalize_stable "SIN(1.5)" " S\u2003IN(1.\t5)"
  obtain ⟨hsame, hevaluate, -⟩ := hblanks hspaced
  exact ⟨hspaced, hsame.trans hnormal, by decide +kernel, hevaluate, hnormal ▸ hvalue⟩

end DeskCalculator.Text
