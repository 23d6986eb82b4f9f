import DeskCalculator.Proofs.Journal.Levels
import DeskCalculator.Proofs.State.History

/-! # The journal of a run

Only `=` notes anything: the tokens and the postfix form as far as the evaluation came, and last the
answer or the refusal. So the answers noted since everything was cleared are those that the history
remembers, and a threshold selects among the records without any effect on the states.
-/
namespace DeskCalculator

def Line.record (l : Line) : Record := ⟨.info, l.expression ++ " = " ++ Binary64.text l.result⟩

def tokensRecord? (x : String) : Option Record :=
  (expressionTokens x).toOption.map fun ts => ⟨.trace, "jetons: " ++ Token.line ts⟩

def postfixRecord? (x : String) : Option Record :=
  (expressionTokens x >>= toPostfix).toOption.map fun ps =>
    ⟨.debug, "rpn de " ++ Text.quoted (Text.normalize x) ++ ": " ++ Token.line ps⟩

theorem evaluationRecords_eq (x : String) :
    evaluationRecords x = (tokensRecord? x).toList ++ (postfixRecord? x).toList := by
  unfold evaluationRecords tokensRecord? postfixRecord?
  cases expressionTokens x with
  | error e => rfl
  | ok ts =>
    have hbind : Except.ok ts >>= toPostfix = toPostfix ts := rfl
    simp only [hbind]
    cases toPostfix ts with
    | error e => rfl
    | ok ps => rfl

theorem level_of_mem_evaluationRecords {x : String} {r : Record} (h : r ∈ evaluationRecords x) :
    r.level ≠ .info := by
  rw [evaluationRecords_eq] at h
  rcases List.mem_append.mp h with h | h
  · obtain ⟨ts, -, rfl⟩ := Option.map_eq_some_iff.mp (Option.mem_toList.mp h)
    exact nofun
  · obtain ⟨ps, -, rfl⟩ := Option.map_eq_some_iff.mp (Option.mem_toList.mp h)
    exact nofun

def answersIn (rs : List Record) : List Record := rs.filter (·.level = .info)

theorem answersIn_append (a b : List Record) : answersIn (a ++ b) = answersIn a ++ answersIn b :=
  List.filter_append ..

theorem answersIn_evaluationRecords (x : String) : answersIn (evaluationRecords x) = [] := by
  refine List.filter_eq_nil_iff.mpr ?_
  intro r hr
  simpa using level_of_mem_evaluationRecords hr

namespace State

variable {settings : Settings} {s : State}

theorem pressRecords_equals_of_ok {v : Float} (h : evaluate s.input = .ok v) :
    s.pressRecords settings .equals = evaluationRecords s.input ++ [(s.line settings v).record] := by
  rw [pressRecords, answer, h]
  rfl

def refusal (s : State) (e : EvalError) : Record :=
  ⟨.warn, "expression refusée " ++ Text.quoted s.input ++ ": " ++ e.message⟩

theorem pressRecords_equals_of_error {e : EvalError} (h : evaluate s.input = .error e) :
    s.pressRecords settings .equals = evaluationRecords s.input ++ [s.refusal e] := by
  rw [pressRecords, answer, h]
  rfl

theorem pressRecords_of_ne {key : Key} (h : key ≠ .equals) : s.pressRecords settings key = [] := by
  cases key with
  | equals => exact absurd rfl h
  | _ => rfl

/-- The answers that a key notes are the lines that it adds to the history. -/
theorem answersIn_pressRecords (key : Key) :
    answersIn (s.pressRecords settings key) = (s.newLines settings key).map Line.record := by
  by_cases h : key = .equals
  · subst h
    cases hv : evaluate s.input with
    | ok v =>
      rw [pressRecords_equals_of_ok hv, answersIn_append, answersIn_evaluationRecords, newLines, hv]
      rfl
    | error e =>
      rw [pressRecords_equals_of_error hv, answersIn_append, answersIn_evaluationRecords, newLines, hv]
      rfl
  · rw [pressRecords_of_ne h, newLines_of_ne h]
    rfl

variable (settings) in
/-- The records of the keys behind the last one that cleared everything. -/
def recordsSinceClear (keys : List Key) : List Record :=
  recordsOf settings (pressAll settings {} (keys.rdropWhile (· ≠ .clear)))
    (keys.rtakeWhile (· ≠ .clear))

theorem recordsSinceClear_concat (keys : List Key) (key : Key) :
    recordsSinceClear settings (keys ++ [key]) = if key = .clear then []
      else recordsSinceClear settings keys ++ (pressAll settings {} keys).pressRecords settings key := by
  unfold recordsSinceClear
  by_cases h : key = .clear
  · rw [if_pos h, List.rtakeWhile_concat_neg _ _ _ (by simpa using h)]
    rfl
  · have hkey : decide (key ≠ .clear) = true := decide_eq_true h
    rw [if_neg h, List.rtakeWhile_concat_pos (· ≠ .clear) keys key hkey,
      List.rdropWhile_concat_pos (· ≠ .clear) keys key hkey, recordsOf_append, ← pressAll_append,
      List.rdropWhile_append_rtakeWhile, recordsOf, recordsOf, List.append_nil]

/-- The answers noted since everything was cleared are the lines of these answers. -/
theorem answersIn_recordsSinceClear (keys : List Key) :
    answersIn (recordsSinceClear settings keys) =
      (answers settings {} [] keys).map Line.record := by
  induction keys using List.reverseRecOn with
  | nil => rfl
  | append_singleton keys key ih =>
    rw [recordsSinceClear_concat, answers_concat]
    by_cases h : key = .clear
    · rw [if_pos h, if_pos h]
      rfl
    · rw [if_neg h, if_neg h, answersIn_append, ih, answersIn_pressRecords, List.map_append]

theorem history_map_record (keys : List Key) :
    (pressAll settings {} keys).history.map Line.record =
      (answersIn (recordsSinceClear settings keys)).rtake settings.historyLimit := by
  rw [history_pressAll, answersIn_recordsSinceClear, recent, List.rtake, List.map_drop,
    List.length_map]

section threshold
variable (settings) (t : Threshold)

theorem pressAll_setThreshold (s : State) (keys : List Key) :
    s.pressAll { settings with threshold := t } keys = s.pressAll settings keys := rfl

theorem recordsOf_setThreshold (s : State) (keys : List Key) :
    s.recordsOf { settings with threshold := t } keys = s.recordsOf settings keys := by
  induction keys generalizing s with
  | nil => rfl
  | cons key keys ih => exact congrArg (s.pressRecords settings key ++ ·) (ih _)

end threshold

/-- An `=` notes last what it comes to, and before that how far it came. -/
theorem exists_last_record (settings : Settings) (s : State) : ∃ last,
    s.pressRecords settings .equals =
      (tokensRecord? s.input).toList ++ (postfixRecord? s.input).toList ++ [last] ∧
    ((s.press settings .equals).error = none →
      ∃ v, evaluate s.input = .ok v ∧ last = (s.line settings v).record) ∧
    ((s.press settings .equals).error ≠ none →
      ∃ e, evaluate s.input = .error e ∧ last = s.refusal e) := by
  rw [← evaluationRecords_eq]
  cases h : evaluate s.input with
  | ok v =>
    have hnone : (s.press settings .equals).error = none := by
      rw [press_equals_of_ok h]
      rfl
    exact ⟨_, pressRecords_equals_of_ok h, fun _ => ⟨v, rfl, rfl⟩, absurd hnone⟩
  | error e =>
    have hsome : (s.press settings .equals).error ≠ none := by
      rw [press_equals_of_error h]
      exact nofun
    exact ⟨_, pressRecords_equals_of_error h, fun hnone => absurd hnone hsome, fun _ => ⟨e, rfl, rfl⟩⟩

/-- Every key but `=` notes nothing, and `=` notes the tokens and the postfix form if the evaluation
comes to them and then its outcome; the history is the last answers noted since everything was cleared;
and at any threshold the states are the same and the records those of its levels, which at `trace` are all. -/
theorem journal_of_pressAll (settings : Settings) (keys : List Key) :
    (∀ (s : State) (key : Key), key ≠ .equals → s.pressRecords settings key = []) ∧
      (∀ s : State, ∃ last,
        s.pressRecords settings .equals =
          (tokensRecord? s.input).toList ++ (postfixRecord? s.input).toList ++ [last] ∧
        ((s.press settings .equals).error = none → ∃ v, evaluate s.input = .ok v ∧ last =
          ⟨.info, s.input ++ " = " ++ Binary64.text (Binary64.roundTo settings.places v)⟩) ∧
        ((s.press settings .equals).error ≠ none → ∃ e, evaluate s.input = .error e ∧ last =
          ⟨.warn, "expression refusée " ++ Text.quoted s.input ++ ": " ++ e.message⟩)) ∧
      (pressAll settings {} keys).history.map Line.record =
        (answersIn (recordsSinceClear settings keys)).rtake settings.historyLimit ∧
      (∀ t : Threshold, pressAll { settings with threshold := t } {} keys = pressAll settings {} keys) ∧
      ∀ filter : LevelFilter, filter.Documented →
        Record.kept filter (some .trace) (recordsOf { settings with threshold := some .trace } {} keys) =
          recordsOf settings {} keys ∧
        ∀ t : Threshold,
          Record.kept filter t (recordsOf { settings with threshold := t } {} keys) =
            (Record.kept filter (some .trace)
              (recordsOf { settings with threshold := some .trace } {} keys)).filter
                fun r => t.any fun l => r.level.rank ≤ l.rank := by
  refine ⟨?_, exists_last_record settings, history_map_record keys, ?_, ?_⟩
  · intro s key h
    exact pressRecords_of_ne h
  · intro t
    exact pressAll_setThreshold settings t {} keys
  · intro filter h
    rw [recordsOf_setThreshold settings (some .trace), Record.kept_trace h]
    refine ⟨rfl, fun t => ?_⟩
    rw [recordsOf_setThreshold settings t, Record.kept_eq_filter h]

/-- Of the three records of a division by zero the warning alone passes at its level. -/
theorem journal_of_pressAll_refusal :
    let keys := [.digit 2, .operator .divide, .digit 0, .equals]
    let rs := recordsOf {} {} keys
    let refusal : Record := ⟨.warn, "expression refusée \"2/0\": division par zéro"⟩
    LevelFilter.standard.Documented ∧
      rs = [⟨.trace, "jetons: 2 / 0"⟩, ⟨.debug, "rpn de \"2/0\": 2 0 /"⟩, refusal] ∧
      Record.kept .standard (some .trace) (recordsOf { threshold := some .trace } {} keys) = rs ∧
      Record.kept .standard (some .warn) (recordsOf { threshold := some .warn } {} keys) = [refusal] := by
  intro keys rs refusal
  have hrs : rs = [⟨.trace, "jetons: 2 / 0"⟩, ⟨.debug, "rpn de \"2/0\": 2 0 /"⟩, refusal] := by
    decide +kernel
  obtain ⟨-, -, -, -, hfilter⟩ := journal_of_pressAll {} keys
  obtain ⟨hall, hkept⟩ := hfilter .standard LevelFilter.standard_documented
  refine ⟨LevelFilter.standard_documented, hrs, hall, ?_⟩
  rw [hkept, hall]
  change List.filter _ rs = _
  rw [hrs]
  rfl

end State
end DeskCalculator
