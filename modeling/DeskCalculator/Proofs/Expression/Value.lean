import DeskCalculator.Evaluation
import DeskCalculator.Proofs.Expression.Grammar
import DeskCalculator.Proofs.Postfix.Conversion
import DeskCalculator.Proofs.Token.Reading

/-! # Expressions are evaluated as their trees

The tokens of a tree of the grammar are legible, so its text reads as them. They are converted to the
postorder of the tree, and evaluating the postorder gives the value of the tree.
-/
namespace DeskCalculator.Expression
open Binary64 Token

section numbers
variable {P : Float → Prop} {o : Operator} {e l r : Expression}

theorem forall_number_group : (∀ v, .number v ∈ (group e).tokens → P v) ↔
    ∀ v, .number v ∈ e.tokens → P v := by
  simp [tokens]

theorem forall_number_call : (∀ v, .number v ∈ (call o e).tokens → P v) ↔
    ∀ v, .number v ∈ e.tokens → P v := by
  simp [tokens]

theorem forall_number_binary : (∀ v, .number v ∈ (binary o l r).tokens → P v) ↔
    (∀ v, .number v ∈ l.tokens → P v) ∧ ∀ v, .number v ∈ r.tokens → P v := by
  simp [tokens, or_imp, forall_and]

end numbers

/-- Before something that may follow every operand, the tokens of a tree may stand wherever an
operand may begin. -/
theorem legible_tokens_append {e : Expression} (hs : e.Saturated)
    (hl : ∀ v, .number v ∈ e.tokens → IsLiteral v) (previous : Option Token)
    (hp : previous.any endsOperand = false) (rest : List Token)
    (hrest : ∀ t, endsOperand t = true → Legible (some t) rest) :
    Legible previous (e.tokens ++ rest) := by
  induction e generalizing previous rest with
  | number v =>
    have hn : previous.any isNumber = false := by
      by_contra hn
      rw [Bool.not_eq_false] at hn
      rw [any_endsOperand_of_isNumber hn] at hp
      cases hp
    refine ⟨hl v List.mem_cons_self, ⟨hn, ?_⟩, hrest _ rfl⟩
    rintro - rfl
    cases hp
  | group e ih =>
    have hclosing : ∀ t, endsOperand t = true → Legible (some t) (.closing :: rest) := by
      intro t _
      exact ⟨trivial, trivial, hrest _ rfl⟩
    have := ih hs (forall_number_group.mp hl) (some .opening) rfl (.closing :: rest) hclosing
    rw [tokens, List.append_assoc]
    exact ⟨trivial, trivial, this⟩
  | call o e ih =>
    have hm : MayFollow previous (.operator o) := by
      cases o with
      | minus => cases hs.1
      | _ => trivial
    exact ⟨trivial, hm, ih hs.2 (forall_number_call.mp hl) (some (.operator o)) rfl rest hrest⟩
  | binary o l r ihl ihr =>
    obtain ⟨-, hsl, hsr⟩ := hs
    obtain ⟨hll, hlr⟩ := forall_number_binary.mp hl
    have hr := ihr hsr hlr (some (.operator o)) rfl rest hrest
    rw [tokens, List.append_assoc]
    apply ihl hsl hll previous hp
    intro t ht
    have hm : MayFollow (some t) (.operator o) := by
      cases o with
      | minus => exact ht
      | _ => trivial
    exact ⟨trivial, hm, hr⟩

theorem legible_tokens {e : Expression} (hs : e.Saturated)
    (hl : ∀ v, .number v ∈ e.tokens → IsLiteral v) : Legible none e.tokens := by
  have := legible_tokens_append hs hl none rfl [] fun t _ => trivial
  rwa [List.append_nil] at this

/-- A function is put out right after its operand when no function can stand before that. -/
theorem converts_tokens {e : Expression} (hs : e.Saturated) (ho : e.Ordered Layer.atom.bound) :
    Converts e.tokens e.postorder := by
  have hbound : 10 ≤ Layer.atom.bound := by decide
  induction e with
  | number v => exact converts_number v
  | group e ih => exact .group (ih hs ho)
  | call o e ih =>
    have hprec : o.precedence = 10 := Operator.precedence_of_arity_one hs.1
    have hright : ∀ p ∈ outerOperators 0 e.tokens, o.precedence < p.precedence := by
      intro p hp
      have := strength_le_of_mem_outerOperators hbound hs.2 ho.2 hp
      rw [hprec]
      exact Nat.lt_of_succ_le (ho.1.trans this)
    exact .operator (a := []) rfl nofun hright converts_nil (ih hs.2 ho.2)
  | binary o l r ihl ihr =>
    obtain ⟨-, hsl, hsr⟩ := hs
    obtain ⟨hl, hr, hol, hor⟩ := ho
    have hleft : ∀ p ∈ outerOperators 0 l.tokens, o.precedence ≤ p.precedence := by
      intro p hp
      exact hl.trans (strength_le_of_mem_outerOperators hbound hsl hol hp)
    have hright : ∀ p ∈ outerOperators 0 r.tokens, o.precedence < p.precedence := by
      intro p hp
      exact Nat.lt_of_lt_of_le hr (strength_le_of_mem_outerOperators hbound hsr hor hp)
    exact .operator l.depthAfter_tokens hleft hright (ihl hsl hol) (ihr hsr hor)

theorem toPostfix_tokens {e : Expression} (he : Derives .atom .sum e) :
    toPostfix e.tokens = .ok e.postorder := by
  obtain ⟨hs, ho, -⟩ := derives_iff_ordered.mp he
  exact toPostfix_eq_ok_of_converts (converts_tokens hs ho)

def IsArithmetic (x : Except EvalError Float) : Prop :=
  (∃ v, x = .ok v) ∨ x = .error .divisionByZero ∨ ∃ o, x = .error (.nonFiniteResult o)

theorem isArithmetic_apply {o : Operator} {args : List Float} (h : args.length = o.arity) :
    IsArithmetic (o.apply args) := by
  cases hv : o.apply args with
  | ok v => exact .inl ⟨v, rfl⟩
  | error e =>
    rcases Operator.cause_of_apply h hv with rfl | rfl
    · exact .inr (.inl rfl)
    · exact .inr (.inr ⟨o, rfl⟩)

theorem isArithmetic_value {e : Expression} (h : e.Saturated) : IsArithmetic e.value := by
  induction e with
  | number v => exact .inl ⟨v, rfl⟩
  | group e ih => exact ih h
  | call o e ih =>
    rcases ih h.2 with ⟨v, hv⟩ | hd | ⟨p, hp⟩
    · rw [value, hv]
      exact isArithmetic_apply h.1.symm
    · exact .inr (.inl (by rw [value, hd]; rfl))
    · exact .inr (.inr ⟨p, by rw [value, hp]; rfl⟩)
  | binary o l r ihl ihr =>
    rcases ihl h.2.1 with ⟨x, hx⟩ | hd | ⟨p, hp⟩
    · rcases ihr h.2.2 with ⟨y, hy⟩ | hd | ⟨p, hp⟩
      · rw [value, hx, hy]
        exact isArithmetic_apply h.1.symm
      · exact .inr (.inl (by rw [value, hx, hd]; rfl))
      · exact .inr (.inr ⟨p, by rw [value, hx, hp]; rfl⟩)
    · exact .inr (.inl (by rw [value, hd]; rfl))
    · exact .inr (.inr ⟨p, by rw [value, hp]; rfl⟩)

/-- However its text is spaced and in whatever case, an expression has the value of its tree; no
error but one of arithmetic is possible. -/
theorem evaluate_eq_value {e : Expression} (he : Derives .atom .sum e)
    (hl : ∀ v, .number v ∈ e.tokens → IsLiteral v) {s : String} (hs : Text.normalize s = e.text) :
    evaluate s = e.value ∧ IsArithmetic (evaluate s) := by
  obtain ⟨hsat, -, -⟩ := derives_iff_ordered.mp he
  have htokens : expressionTokens s = .ok e.tokens := by
    rw [expressionTokens, hs, tokenize_eq_ok_iff]
    exact ⟨rfl, legible_tokens hsat hl⟩
  have hvalue : evaluate s = e.value := by
    rw [evaluate, htokens]
    change (toPostfix e.tokens).bind evalPostfix = e.value
    rw [toPostfix_tokens he]
    exact evalPostfix_postorder e hsat
  refine ⟨hvalue, ?_⟩
  rw [hvalue]
  exact isArithmetic_value hsat

theorem evaluate_difference_of_functions :
    evaluate "8 - 2 * -0.5 - SIN(1)" = value (.binary .minus
      (.binary .minus (.number 8) (.binary .times (.number 2) (.number (-0.5))))
      (.call .sin (.group (.number 1)))) := by
  have he : Derives .atom .sum (.binary .minus
      (.binary .minus (.number 8) (.binary .times (.number 2) (.number (-0.5))))
      (.call .sin (.group (.number 1)))) := by
    rw [derives_iff_ordered]
    simp [Saturated, Ordered, strength, Layer.bound, Operator.arity, Operator.precedence]
  refine (evaluate_eq_value he ?_ ?_).1
  · intro v hv
    simp only [tokens, List.cons_append, List.nil_append, List.mem_cons, Token.number.injEq,
      reduceCtorEq, List.not_mem_nil, or_false, false_or] at hv
    rcases hv with rfl | rfl | rfl | rfl <;> decide +kernel
  · decide +kernel

end DeskCalculator.Expression
