import DeskCalculator.Expression
import DeskCalculator.Proofs.Postfix.Balance

/-! # The grammar of expressions

Sums are made of terms, terms of powers, powers of factors and factors of atoms, and operators of one
layer associate to the left. What stands behind a function is derived at a layer that is a parameter.
A tree is derived at a layer exactly when its operators bind strongly enough, those of its operands
more strongly than its own: this form of the grammar goes along the tree and not along the layers.
-/
namespace DeskCalculator

inductive Layer
  | sum
  | term
  | power
  | factor
  | atom
deriving DecidableEq

/-- The trees of each layer, when the operand of a function is one of the layer `argument`. -/
inductive Derives (argument : Layer) : Layer → Expression → Prop
  | sum {o : Operator} {l r : Expression} (ho : o = .plus ∨ o = .minus)
      (hl : Derives argument .sum l) (hr : Derives argument .term r) :
      Derives argument .sum (.binary o l r)
  | sumOfTerm {e : Expression} (h : Derives argument .term e) : Derives argument .sum e
  | term {o : Operator} {l r : Expression} (ho : o = .times ∨ o = .divide)
      (hl : Derives argument .term l) (hr : Derives argument .power r) :
      Derives argument .term (.binary o l r)
  | termOfPower {e : Expression} (h : Derives argument .power e) : Derives argument .term e
  | power {l r : Expression} (hl : Derives argument .power l) (hr : Derives argument .factor r) :
      Derives argument .power (.binary .power l r)
  | powerOfFactor {e : Expression} (h : Derives argument .factor e) : Derives argument .power e
  | factor {o : Operator} {e : Expression} (ho : o.isFunction = true)
      (h : Derives argument argument e) : Derives argument .factor (.call o e)
  | factorOfAtom {e : Expression} (h : Derives argument .atom e) : Derives argument .factor e
  | number (v : Float) : Derives argument .atom (.number v)
  | group {e : Expression} (h : Derives argument .sum e) : Derives argument .atom (.group e)

def Layer.bound : Layer → Nat
  | sum => 1
  | term => 2
  | power => 3
  | factor => 10
  | atom => 11

namespace Expression

/-- How strongly the outermost operator binds; a number or a group is never split. -/
def strength : Expression → Nat
  | number _ | group _ => 11
  | call o _ | binary o _ _ => o.precedence

/-- No operator has an operand that binds less strongly than it, on the right of a binary one not
even as strongly; the operand of a function has at least the strength `argument`. -/
def Ordered (argument : Nat) : Expression → Prop
  | number _ => True
  | group e => e.Ordered argument
  | call _ e => argument ≤ e.strength ∧ e.Ordered argument
  | binary o l r =>
    o.precedence ≤ l.strength ∧ o.precedence < r.strength ∧ l.Ordered argument ∧ r.Ordered argument

theorem strength_pos (e : Expression) : 1 ≤ e.strength := by
  cases e with
  | number v => exact Nat.le_add_left 1 10
  | group e => exact Nat.le_add_left 1 10
  | call o e => exact o.precedence_pos
  | binary o l r => exact o.precedence_pos

theorem le_strength_of_lt {e : Expression} (h : 3 < e.strength) : 10 ≤ e.strength := by
  cases e with
  | number v => exact Nat.le_succ 10
  | group e => exact Nat.le_succ 10
  | call o e => exact (Operator.precedence_of_lt h).ge
  | binary o l r => exact (Operator.precedence_of_lt h).ge

end Expression

variable {argument layer : Layer} {e : Expression}

/-- A layer contains the stronger ones. -/
theorem Derives.weaken (h : Derives argument layer e) {lower : Layer}
    (hle : lower.bound ≤ layer.bound) : Derives argument lower e := by
  cases lower with
  | atom =>
    cases layer with
    | atom => exact h
    | _ => exact absurd hle (by decide)
  | factor =>
    cases layer with
    | factor => exact h
    | atom => exact .factorOfAtom h
    | _ => exact absurd hle (by decide)
  | power =>
    cases layer with
    | power => exact h
    | factor => exact .powerOfFactor h
    | atom => exact .powerOfFactor (.factorOfAtom h)
    | _ => exact absurd hle (by decide)
  | term =>
    cases layer with
    | term => exact h
    | power => exact .termOfPower h
    | factor => exact .termOfPower (.powerOfFactor h)
    | atom => exact .termOfPower (.powerOfFactor (.factorOfAtom h))
    | sum => exact absurd hle (by decide)
  | sum =>
    cases layer with
    | sum => exact h
    | term => exact .sumOfTerm h
    | power => exact .sumOfTerm (.termOfPower h)
    | factor => exact .sumOfTerm (.termOfPower (.powerOfFactor h))
    | atom => exact .sumOfTerm (.termOfPower (.powerOfFactor (.factorOfAtom h)))

theorem ordered_of_derives (h : Derives argument layer e) :
    e.Saturated ∧ e.Ordered argument.bound ∧ layer.bound ≤ e.strength := by
  induction h with
  | sum ho _ _ ihl ihr =>
    obtain ⟨hsl, hil, hl⟩ := ihl
    obtain ⟨hsr, hir, hr⟩ := ihr
    rcases ho with rfl | rfl
    · exact ⟨⟨rfl, hsl, hsr⟩, ⟨hl, hr, hil, hir⟩, Nat.le_refl 1⟩
    · exact ⟨⟨rfl, hsl, hsr⟩, ⟨hl, hr, hil, hir⟩, Nat.le_refl 1⟩
  | term ho _ _ ihl ihr =>
    obtain ⟨hsl, hil, hl⟩ := ihl
    obtain ⟨hsr, hir, hr⟩ := ihr
    rcases ho with rfl | rfl
    · exact ⟨⟨rfl, hsl, hsr⟩, ⟨hl, hr, hil, hir⟩, Nat.le_refl 2⟩
    · exact ⟨⟨rfl, hsl, hsr⟩, ⟨hl, hr, hil, hir⟩, Nat.le_refl 2⟩
  | power _ _ ihl ihr =>
    obtain ⟨hsl, hil, hl⟩ := ihl
    obtain ⟨hsr, hir, hr⟩ := ihr
    have hr : 3 < _ := Nat.lt_of_lt_of_le (by decide : 3 < 10) hr
    exact ⟨⟨rfl, hsl, hsr⟩, ⟨hl, hr, hil, hir⟩, Nat.le_refl 3⟩
  | factor ho _ ih =>
    obtain ⟨hs, hi, he⟩ := ih
    have harity := eq_of_beq ho
    exact ⟨⟨harity, hs⟩, ⟨he, hi⟩, (Operator.precedence_of_arity_one harity).ge⟩
  | number v => exact ⟨trivial, trivial, Nat.le_refl 11⟩
  | group _ ih => exact ⟨ih.1, ih.2.1, Nat.le_refl 11⟩
  | sumOfTerm _ ih => exact ⟨ih.1, ih.2.1, Nat.le_trans (by decide) ih.2.2⟩
  | termOfPower _ ih => exact ⟨ih.1, ih.2.1, Nat.le_trans (by decide) ih.2.2⟩
  | powerOfFactor _ ih => exact ⟨ih.1, ih.2.1, Nat.le_trans (by decide) ih.2.2⟩
  | factorOfAtom _ ih => exact ⟨ih.1, ih.2.1, Nat.le_trans (by decide) ih.2.2⟩

theorem derives_of_ordered (hs : e.Saturated) (hi : e.Ordered argument.bound)
    (hb : layer.bound ≤ e.strength) : Derives argument layer e := by
  induction e generalizing layer with
  | number v => exact (Derives.number v).weaken hb
  | group e ih =>
    have he : Derives argument .sum e := ih hs hi e.strength_pos
    exact (Derives.group he).weaken hb
  | call o e ih =>
    have he : Derives argument argument e := ih hs.2 hi.2 hi.1
    have hprec : o.precedence = 10 := Operator.precedence_of_arity_one hs.1
    exact (Derives.factor (beq_of_eq hs.1) he).weaken (hb.trans hprec.le)
  | binary o l r ihl ihr =>
    obtain ⟨ho, hsl, hsr⟩ := hs
    obtain ⟨hl, hr, hil, hir⟩ := hi
    have ihl {layer : Layer} : layer.bound ≤ l.strength → Derives argument layer l := ihl hsl hil
    have ihr {layer : Layer} : layer.bound ≤ r.strength → Derives argument layer r := ihr hsr hir
    cases o with
    | plus => exact (Derives.sum (.inl rfl) (ihl hl) (ihr hr)).weaken hb
    | minus => exact (Derives.sum (.inr rfl) (ihl hl) (ihr hr)).weaken hb
    | times => exact (Derives.term (.inl rfl) (ihl hl) (ihr hr)).weaken hb
    | divide => exact (Derives.term (.inr rfl) (ihl hl) (ihr hr)).weaken hb
    | power =>
      have hr : 10 ≤ r.strength := r.le_strength_of_lt hr
      exact (Derives.power (ihl hl) (ihr hr)).weaken hb
    | log => cases ho
    | sin => cases ho
    | cos => cases ho

/-- The grammar by layers and the grammar by strengths have the same trees. -/
theorem derives_iff_ordered : Derives argument layer e ↔
    e.Saturated ∧ e.Ordered argument.bound ∧ layer.bound ≤ e.strength := by
  constructor
  · exact ordered_of_derives
  · rintro ⟨hs, hi, hb⟩
    exact derives_of_ordered hs hi hb

namespace Expression

theorem depthAfter_tokens (e : Expression) : depthAfter 0 e.tokens = some 0 := by
  induction e with
  | number v => rfl
  | group e ih => exact depthAfter_group ih
  | call o e ih => exact ih
  | binary o l r ihl ihr =>
    rw [tokens, depthAfter_append, ihl]
    exact ihr

/-- Outside every group stand only operators that bind at least as strongly as the tree. -/
theorem strength_le_of_mem_outerOperators {bound : Nat} (hb : 10 ≤ bound) (hs : e.Saturated)
    (hi : e.Ordered bound) {p : Operator} (hp : p ∈ outerOperators 0 e.tokens) :
    e.strength ≤ p.precedence := by
  induction e with
  | number v => cases hp
  | group e =>
    rw [tokens, outerOperators_group e.depthAfter_tokens] at hp
    cases hp
  | call o e ih =>
    have ho : o.precedence = 10 := Operator.precedence_of_arity_one hs.1
    rcases List.mem_cons.mp hp with rfl | hp
    · exact Nat.le_refl _
    · have := ih hs.2 hi.2 hp
      rw [strength, ho]
      exact hb.trans (hi.1.trans this)
  | binary o l r ihl ihr =>
    obtain ⟨-, hsl, hsr⟩ := hs
    obtain ⟨hl, hr, hil, hir⟩ := hi
    rw [tokens, outerOperators_append l.depthAfter_tokens] at hp
    rcases List.mem_append.mp hp with hp | hp
    · exact hl.trans (ihl hsl hil hp)
    · rcases List.mem_cons.mp hp with rfl | hp
      · exact Nat.le_refl _
      · exact hr.le.trans (ihr hsr hir hp)

/-- A tree binds as strongly as one of its operators outside every group, if there are any. -/
theorem le_strength {n : Nat} (hn : n ≤ 11) (h : ∀ p ∈ outerOperators 0 e.tokens, n ≤ p.precedence) :
    n ≤ e.strength := by
  cases e with
  | number v => exact hn
  | group e => exact hn
  | call o e => exact h o List.mem_cons_self
  | binary o l r =>
    apply h
    rw [tokens, outerOperators_append l.depthAfter_tokens]
    exact List.mem_append_right _ List.mem_cons_self

end Expression
end DeskCalculator
