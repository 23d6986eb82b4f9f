import DeskCalculator.Proofs.Expression.Stages
import DeskCalculator.Proofs.Token.Overflow

/-! # Only finite numbers

A numeral is read only as a finite number, and one that overflows is refused. The conversion adds no
number, and an operator gives no result but one that was checked, whatever its function returned. So
every value that ever lies on the stack of an evaluation is finite, and so is the value of a text.
-/
namespace DeskCalculator
open Binary64 Token

variable {s : String} {ts ps : List Token}

theorem isFinite_of_tokenize (h : tokenize s = .ok ts) {v : Float} (hv : .number v ∈ ts) :
    isFinite v = true :=
  ((tokenize_eq_ok_iff.mp h).2.isWritable _ hv).1

/-- Functions in the place of the elementary ones, with any doubles as results. -/
structure Elementary where
  sin : Float → Float
  cos : Float → Float
  log : Float → Float
  pow : Float → Float → Float

namespace Elementary

def standard : Elementary := ⟨Float.sin, Float.cos, Float.log, Float.pow⟩

def apply (f : Elementary) (o : Operator) (args : List Float) : Except EvalError Float :=
  match o, args with
  | .sin, [x] => o.checked (f.sin x)
  | .cos, [x] => o.checked (f.cos x)
  | .log, [x] => o.checked (f.log x / f.log 2)
  | .power, [a, b] => o.checked (f.pow a b)
  | _, _ => o.apply args

theorem apply_standard : standard.apply = Operator.apply := by
  funext o args
  unfold apply
  split <;> rfl

theorem runPostfixWith_standard (stack : List Float) (ps : List Token) :
    runPostfixWith standard.apply stack ps = runPostfix stack ps := by
  rw [apply_standard, runPostfixWith_apply]

theorem isFinite_of_apply {f : Elementary} {o : Operator} {args : List Float} {w : Float}
    (h : f.apply o args = .ok w) : isFinite w = true := by
  unfold apply at h
  split at h
  case h_5 => exact Operator.isFinite_of_apply h
  all_goals exact Operator.isFinite_of_checked h

/-- The stack is finite after each part of the postfix form, also when a later part fails. -/
theorem isFinite_of_prefix (f : Elementary) (hts : ∀ v, .number v ∈ ts → isFinite v = true)
    (hps : toPostfix ts = .ok ps) {p : List Token} (hp : p <+: ps) {stack : List Float}
    (hrun : runPostfixWith f.apply [] p = .ok stack) : ∀ v ∈ stack, isFinite v = true := by
  refine isFinite_of_runPostfixWith ?_ hrun nofun ?_
  · intro o args w hw
    exact isFinite_of_apply hw
  · intro v hv
    have hmem := (perm_of_toPostfix hps).mem_iff.mp (hp.subset hv)
    exact hts v (List.mem_of_mem_filter hmem)

end Elementary

/-- Numbers that are read, values on the stack and the value of a text are finite; a numeral that
overflows is an error; and the stack would be finite with any other functions in the place of the
elementary ones. -/
theorem isFinite_throughout (s : String) :
    (∀ ts, tokenize s = .ok ts → (∀ v, .number v ∈ ts → isFinite v = true) ∧
      ∀ ps p stack, toPostfix ts = .ok ps → p <+: ps → runPostfix [] p = .ok stack →
        ∀ v ∈ stack, isFinite v = true) ∧
      (∀ v, evaluate s = .ok v → isFinite v = true) ∧
      (∀ p ts lexeme rest, s = String.ofList (p ++ lexeme ++ rest) →
        tokenize (String.ofList p) = .ok ts → Overflows lexeme → IsolatedBy ts rest lexeme →
        tokenize s = .error (.invalidNumber (String.ofList lexeme))) ∧
      ∀ (f : Elementary) ts ps p stack, tokenize s = .ok ts → toPostfix ts = .ok ps → p <+: ps →
        runPostfixWith f.apply [] p = .ok stack → ∀ v ∈ stack, isFinite v = true := by
  have hnumbers : ∀ ts, tokenize s = .ok ts → ∀ v, .number v ∈ ts → isFinite v = true := by
    intro ts hts v hv
    exact isFinite_of_tokenize hts hv
  refine ⟨?_, ?_, ?_, ?_⟩
  · intro ts hts
    refine ⟨hnumbers ts hts, ?_⟩
    intro ps p stack hps hp hrun
    rw [← Elementary.runPostfixWith_standard] at hrun
    exact Elementary.standard.isFinite_of_prefix (hnumbers ts hts) hps hp hrun
  · intro v hv
    exact isFinite_of_evaluate hv
  · rintro p ts lexeme rest rfl hp h hi
    exact tokenize_of_overflows hp h hi
  · intro f ts ps p stack hts hps hp hrun
    exact f.isFinite_of_prefix (hnumbers ts hts) hps hp hrun

theorem isFinite_throughout_overflow :
    let lexeme := '-' :: '1' :: List.replicate 309 '0'
    tokenize (String.ofList (['2', '*'] ++ lexeme ++ ['+', '1'])) =
      .error (.invalidNumber (String.ofList lexeme)) := by
  intro lexeme
  have hread : tokenize (String.ofList ['2', '*']) = .ok [.number 2, .operator .times] := by
    decide +kernel
  have hnumeral : ∀ c ∈ '1' :: List.replicate 309 '0', isNumeral c = true :=
    List.all_eq_true.mp (by decide +kernel)
  have hoverflow : Overflows lexeme := ⟨_, .inr rfl, hnumeral, by decide +kernel⟩
  have hisolated : IsolatedBy [.number 2, .operator .times] ['+', '1'] lexeme :=
    { number := rfl, sign := fun _ => rfl, rest := rfl }
  exact (isFinite_throughout _).2.2.1 _ _ _ _ rfl hread hoverflow hisolated

end DeskCalculator
