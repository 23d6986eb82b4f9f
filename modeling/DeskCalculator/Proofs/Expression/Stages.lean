import DeskCalculator.Evaluation
import DeskCalculator.Proofs.Postfix.Counts
import DeskCalculator.Proofs.Token.Reading

/-! # The stages of an evaluation

A text has a value when it passes reading, conversion and evaluation, and an error comes from the first
stage that fails. Errors about the spelling come from reading only. Numbers are finite when they are
read and stay so, because every operator checks its result.
-/
namespace DeskCalculator
open Binary64

def EvalError.isLexical : EvalError → Bool
  | invalidNumber _ | unknownSymbol _ => true
  | _ => false

section stages
variable {s : String} {ts ps : List Token} {v : Float} {e : EvalError}

theorem evaluate_of_unread (h : expressionTokens s = .error e) : evaluate s = .error e := by
  rw [evaluate, h]
  rfl

theorem evaluate_of_unconverted (hts : expressionTokens s = .ok ts) (h : toPostfix ts = .error e) :
    evaluate s = .error e := by
  rw [evaluate, hts]
  change (toPostfix ts).bind evalPostfix = _
  rw [h]
  rfl

theorem evaluate_of_converted (hts : expressionTokens s = .ok ts) (h : toPostfix ts = .ok ps) :
    evaluate s = evalPostfix ps := by
  rw [evaluate, hts]
  change (toPostfix ts).bind evalPostfix = _
  rw [h]
  rfl

theorem evaluate_eq_ok_iff : evaluate s = .ok v ↔
    ∃ ts ps, expressionTokens s = .ok ts ∧ toPostfix ts = .ok ps ∧ evalPostfix ps = .ok v := by
  cases hts : expressionTokens s with
  | error e => simp [evaluate_of_unread hts]
  | ok ts =>
    cases hps : toPostfix ts with
    | error e => simp [evaluate_of_unconverted hts hps, hps]
    | ok ps => simp [evaluate_of_converted hts hps, hps]

theorem eq_unmatchedParenthesis_of_convert {stack : List Pending} (h : convert stack ts = .error e) :
    e = .unmatchedParenthesis := by
  induction ts generalizing stack with
  | nil =>
    simp only [convert] at h
    split at h
    · cases h
    · cases h
      rfl
  | cons t ts ih =>
    cases t with
    | number v => exact ih (map_eq_error_iff.mp h)
    | operator o => exact ih (map_eq_error_iff.mp h)
    | opening => exact ih h
    | closing =>
      simp only [convert] at h
      split at h
      · exact ih (map_eq_error_iff.mp h)
      · cases h
        rfl

theorem not_isLexical_of_apply {o : Operator} {args : List Float} (h : o.apply args = .error e) :
    e.isLexical = false := by
  have hchecked : ∀ {o : Operator} {v : Float}, o.checked v = .error e → e.isLexical = false := by
    intro o v h
    rw [Operator.eq_of_checked_eq_error h]
    rfl
  unfold Operator.apply at h
  split at h
  case h_4 =>
    split at h
    · cases h
      rfl
    · exact hchecked h
  case h_9 =>
    cases h
    rfl
  all_goals exact hchecked h

theorem not_isLexical_of_runPostfix {stack : List Float} (h : runPostfix stack ps = .error e) :
    e.isLexical = false := by
  induction ps generalizing stack with
  | nil => cases h
  | cons t ps ih =>
    cases t with
    | number v => exact ih h
    | opening =>
      cases h
      rfl
    | closing =>
      cases h
      rfl
    | operator o =>
      simp only [runPostfix] at h
      split at h
      case h_1 =>
        cases h
        rfl
      case h_2 args rest _ =>
        cases hv : o.apply args with
        | error e' =>
          rw [hv] at h
          cases h
          exact not_isLexical_of_apply hv
        | ok v =>
          rw [hv] at h
          exact ih h

theorem evalPostfix_eq_error (h : evalPostfix ps = .error e) :
    runPostfix [] ps = .error e ∨ e = .malformedExpression := by
  unfold evalPostfix at h
  cases hrun : runPostfix [] ps with
  | error e' =>
    rw [hrun] at h
    cases h
    exact .inl rfl
  | ok final =>
    rw [hrun] at h
    simp only [bind, Except.bind] at h
    split at h
    · cases h
    · cases h
      exact .inr rfl

/-- Only reading finds fault with the spelling. -/
theorem expressionTokens_of_isLexical (h : evaluate s = .error e) (he : e.isLexical = true) :
    expressionTokens s = .error e := by
  cases hts : expressionTokens s with
  | error e' =>
    rw [evaluate_of_unread hts] at h
    cases h
    rfl
  | ok ts =>
    cases hps : toPostfix ts with
    | error e' =>
      rw [evaluate_of_unconverted hts hps] at h
      cases h
      rw [eq_unmatchedParenthesis_of_convert hps] at he
      cases he
    | ok ps =>
      rw [evaluate_of_converted hts hps] at h
      rcases evalPostfix_eq_error h with hrun | rfl
      · rw [not_isLexical_of_runPostfix hrun] at he
        cases he
      · cases he

end stages

section finite

theorem mem_of_operands {k : Nat} {stack args rest : List Float}
    (h : operands k stack = some (args, rest)) {v : Float} (hv : v ∈ rest) : v ∈ stack := by
  obtain ⟨rfl, -⟩ := operands_eq_some_iff.mp h
  exact List.mem_append_right _ hv

def runPostfixWith (apply : Operator → List Float → Except EvalError Float) (stack : List Float) :
    List Token → Except EvalError (List Float)
  | [] => .ok stack
  | .number v :: ts => runPostfixWith apply (v :: stack) ts
  | .operator o :: ts =>
    match operands o.arity stack with
    | none => .error (.missingOperand o)
    | some (args, rest) => do
      let v ← apply o args
      runPostfixWith apply (v :: rest) ts
  | _ :: _ => .error .malformedExpression

/-- What an operator would do with another number of arguments than it takes has no effect. -/
theorem runPostfixWith_congr {apply : Operator → List Float → Except EvalError Float}
    (happly : ∀ o args, args.length = o.arity → apply o args = o.apply args) (stack : List Float)
    (ps : List Token) : runPostfixWith apply stack ps = runPostfix stack ps := by
  induction ps generalizing stack with
  | nil => rfl
  | cons t ps ih =>
    cases t with
    | number v => exact ih (v :: stack)
    | operator o =>
      rw [runPostfixWith, runPostfix]
      cases hop : operands o.arity stack with
      | none => rfl
      | some p =>
        have hlength := (operands_eq_some_iff.mp hop).2
        simp only [happly o p.1 hlength, ih]
    | opening => rfl
    | closing => rfl

theorem runPostfixWith_apply (stack : List Float) (ps : List Token) :
    runPostfixWith Operator.apply stack ps = runPostfix stack ps :=
  runPostfixWith_congr (fun _ _ _ => rfl) stack ps

/-- On a stack of finite numbers finite numbers leave finite numbers, however operators are applied
that have only finite results. -/
theorem isFinite_of_runPostfixWith {apply : Operator → List Float → Except EvalError Float}
    (happly : ∀ o args v, apply o args = .ok v → isFinite v = true) {stack final : List Float}
    {ps : List Token} (h : runPostfixWith apply stack ps = .ok final)
    (hs : ∀ v ∈ stack, isFinite v = true) (hps : ∀ v, .number v ∈ ps → isFinite v = true) :
    ∀ v ∈ final, isFinite v = true := by
  induction ps generalizing stack with
  | nil =>
    cases h
    exact hs
  | cons t ps ih =>
    have hrest : ∀ v, .number v ∈ ps → isFinite v = true := by
      intro v hv
      exact hps v (List.mem_cons_of_mem t hv)
    cases t with
    | opening => cases h
    | closing => cases h
    | number v => exact ih h (List.forall_mem_cons.mpr ⟨hps v List.mem_cons_self, hs⟩) hrest
    | operator o =>
      simp only [runPostfixWith] at h
      split at h
      case h_1 => cases h
      case h_2 args rest hop =>
        cases hv : apply o args with
        | error e =>
          rw [hv] at h
          cases h
        | ok v =>
          rw [hv] at h
          refine ih h (List.forall_mem_cons.mpr ⟨happly o args v hv, ?_⟩) hrest
          intro w hw
          exact hs w (mem_of_operands hop hw)

/-- The numbers read from a text are literals, before and after the conversion. -/
theorem isLiteral_of_toPostfix {s : String} {ts ps : List Token}
    (hts : expressionTokens s = .ok ts) (hps : toPostfix ts = .ok ps) {v : Float}
    (hv : .number v ∈ ps) : IsLiteral v := by
  have hlegible := (Token.tokenize_eq_ok_iff.mp hts).2
  have hmem := (perm_of_toPostfix hps).mem_iff.mp hv
  exact hlegible.isWritable _ (List.mem_of_mem_filter hmem)

/-- Only finite values come out of a text. -/
theorem isFinite_of_evaluate {s : String} {v : Float} (h : evaluate s = .ok v) :
    isFinite v = true := by
  obtain ⟨ts, ps, hts, hps, hv⟩ := evaluate_eq_ok_iff.mp h
  have hnumbers : ∀ w, .number w ∈ ps → isFinite w = true := by
    intro w hw
    exact (isLiteral_of_toPostfix hts hps hw).1
  have hrun : runPostfixWith Operator.apply [] ps = .ok [v] := by
    rw [runPostfixWith_apply]
    exact evalPostfix_eq_ok_iff.mp hv
  refine isFinite_of_runPostfixWith ?_ hrun nofun hnumbers v List.mem_cons_self
  intro o args w hw
  exact Operator.isFinite_of_apply hw

end finite

/-- The texts of legible tokens are read as the tokens. -/
theorem expressionTokens_join_text {ts : List Token} (h : Token.Legible none ts) :
    expressionTokens (String.join (ts.map Token.text)) = .ok ts := by
  rw [expressionTokens, Token.normalize_join_text h.isWritable]
  exact Token.tokenize_eq_ok_iff.mpr ⟨rfl, h⟩

/-- The text of a literal evaluates to the literal. -/
theorem evaluate_text {v : Float} (h : IsLiteral v) : evaluate (Binary64.text v) = .ok v := by
  have hlegible : Token.Legible none [.number v] := ⟨h, ⟨rfl, by simp⟩, trivial⟩
  have htokens := expressionTokens_join_text hlegible
  have htext : String.join ([Token.number v].map Token.text) = Binary64.text v := by
    simp [Token.text, Token.chars, Binary64.text]
  rw [htext] at htokens
  exact evaluate_eq_ok_iff.mpr ⟨_, [.number v], htokens, rfl, rfl⟩

end DeskCalculator
