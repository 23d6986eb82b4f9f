import DeskCalculator.Proofs.Expression.Grammar
import DeskCalculator.Proofs.Postfix.Splitting

/-! # Tokens in place

`placed` reads tokens from the left and fails at one that begins an operand right after an operand, or
that needs an operand before it and has none. Balanced tokens that are in place and end with an operand
are those of a tree of the grammar: the tree splits at the weakest binary operator outside every group,
and without one the tokens are a number, a group, or a function in front of such tokens.
-/
namespace DeskCalculator

def Token.beginsOperand : Token → Bool
  | number _ | opening => true
  | operator o => o.isFunction
  | closing => false

/-- Whether an operand stands right before the end, `after` telling whether one does at the start. -/
def placed (after : Bool) : List Token → Option Bool
  | [] => some after
  | t :: ts => if t.beginsOperand = after then none else placed t.endsOperand ts

theorem placed_append (after : Bool) (a b : List Token) :
    placed after (a ++ b) = (placed after a).bind (placed · b) := by
  induction a generalizing after with
  | nil => rfl
  | cons t a ih =>
    simp only [List.cons_append, placed]
    by_cases ht : t.beginsOperand = after
    · rw [if_pos ht, if_pos ht]
      rfl
    · rw [if_neg ht, if_neg ht]
      exact ih _

theorem placed_of_cons {after last : Bool} {t : Token} {ts : List Token}
    (h : placed after (t :: ts) = some last) :
    t.beginsOperand = !after ∧ placed t.endsOperand ts = some last := by
  unfold placed at h
  by_cases ht : t.beginsOperand = after
  · rw [if_pos ht] at h
    cases h
  · rw [if_neg ht] at h
    exact ⟨Bool.eq_not_of_ne ht, h⟩

/-- Before a token that begins no operand there stands one. -/
theorem placed_of_append_cons {after last : Bool} {a b : List Token} {t : Token}
    (ht : t.beginsOperand = false) (h : placed after (a ++ t :: b) = some last) :
    placed after a = some true ∧ placed t.endsOperand b = some last := by
  rw [placed_append] at h
  obtain ⟨between, ha, hb⟩ := Option.bind_eq_some_iff.mp h
  obtain ⟨hnot, hlast⟩ := placed_of_cons hb
  rw [ht] at hnot
  obtain rfl : between = true := by simpa using hnot
  exact ⟨ha, hlast⟩

theorem placed_tokens {e : Expression} (hs : e.Saturated) : placed false e.tokens = some true := by
  induction e with
  | number v => rfl
  | group e ih =>
    change placed false (e.tokens ++ [.closing]) = some true
    rw [placed_append, ih hs]
    rfl
  | call o e ih =>
    have ho : o.isFunction = true := beq_of_eq hs.1
    simpa [Expression.tokens, placed, Token.beginsOperand, Token.endsOperand, ho] using ih hs.2
  | binary o l r ihl ihr =>
    have ho : o.isFunction = false := by simp [Operator.isFunction, hs.1]
    rw [Expression.tokens, placed_append, ihl hs.2.1]
    simpa [placed, Token.beginsOperand, Token.endsOperand, ho] using ihr hs.2.2

/-- The tokens are those of a tree of the grammar. -/
def IsExpression (ts : List Token) : Prop := ∃ e, Derives .factor .sum e ∧ e.tokens = ts

theorem isExpression_number (v : Float) : IsExpression [.number v] :=
  ⟨.number v, (Derives.number v).weaken (by decide), rfl⟩

theorem IsExpression.group {b : List Token} (h : IsExpression b) :
    IsExpression (.opening :: b ++ [.closing]) := by
  obtain ⟨e, he, rfl⟩ := h
  exact ⟨.group e, (Derives.group he).weaken (by decide), rfl⟩

theorem IsExpression.call {o : Operator} (ho : o.arity = 1) {b : List Token} (h : IsExpression b)
    (houter : ∀ p ∈ outerOperators 0 b, 10 ≤ p.precedence) : IsExpression (.operator o :: b) := by
  obtain ⟨e, he, rfl⟩ := h
  obtain ⟨hs, hord, -⟩ := derives_iff_ordered.mp he
  have hb : 10 ≤ e.strength := Expression.le_strength (by decide) houter
  refine ⟨.call o e, derives_iff_ordered.mpr ⟨⟨ho, hs⟩, ⟨hb, hord⟩, o.precedence_pos⟩, rfl⟩

theorem IsExpression.binary {o : Operator} (ho : o.arity = 2) {a b : List Token}
    (ha : IsExpression a) (hb : IsExpression b)
    (hleft : ∀ p ∈ outerOperators 0 a, o.precedence ≤ p.precedence)
    (hright : ∀ p ∈ outerOperators 0 b, o.precedence < p.precedence) :
    IsExpression (a ++ .operator o :: b) := by
  obtain ⟨l, hl, rfl⟩ := ha
  obtain ⟨r, hr, rfl⟩ := hb
  obtain ⟨hsl, hol, -⟩ := derives_iff_ordered.mp hl
  obtain ⟨hsr, hor, -⟩ := derives_iff_ordered.mp hr
  have hprec : o.precedence ≤ 10 := by cases o <;> decide
  have hbl : o.precedence ≤ l.strength := Expression.le_strength (by omega) hleft
  have hbr : o.precedence + 1 ≤ r.strength := Expression.le_strength (by omega) hright
  refine ⟨.binary o l r, derives_iff_ordered.mpr ?_, rfl⟩
  exact ⟨⟨ho, hsl, hsr⟩, ⟨hbl, hbr, hol, hor⟩, o.precedence_pos⟩

/-- After an operand nothing but a binary operator goes on outside every group. -/
theorem eq_nil_of_placed {ts : List Token} (hp : placed true ts = some true)
    (hd : depthAfter 0 ts = some 0) (hf : ∀ p ∈ outerOperators 0 ts, p.arity = 1) : ts = [] := by
  cases ts with
  | nil => rfl
  | cons t ts =>
    obtain ⟨ht, -⟩ := placed_of_cons hp
    cases t with
    | number v => cases ht
    | opening => cases ht
    | closing => cases hd
    | operator o =>
      have ho : o.arity = 1 := hf o List.mem_cons_self
      simp [Token.beginsOperand, Operator.isFunction, ho] at ht

/-- Tokens with a binary operator outside every group split at the weakest one. -/
theorem isExpression_of_split {ts : List Token} (hp : placed false ts = some true)
    (hd : depthAfter 0 ts = some 0) (hbin : ∃ p ∈ outerOperators 0 ts, p.arity = 2)
    (ih : ∀ us : List Token, us.length < ts.length → placed false us = some true →
      depthAfter 0 us = some 0 → IsExpression us) : IsExpression ts := by
  obtain ⟨p, hmem, harity⟩ := hbin
  cases hw : weakest? 0 ts with
  | none =>
    rw [outerOperators_eq_nil_of_weakest? hw] at hmem
    cases hmem
  | some split =>
    obtain ⟨a, o, b⟩ := split
    obtain ⟨hda, hleft, hright⟩ := split_of_weakest? hd hw
    obtain rfl := eq_append_of_weakest? hw
    have hdb : depthAfter 0 b = some 0 := by
      rw [depthAfter_append, hda] at hd
      exact hd
    have ho : o.arity = 2 := by
      have hle := precedence_le_of_mem_split hda hleft hright hmem
      have hthree := Operator.precedence_le_of_arity_two harity
      apply o.arity_eq_one_or_two.resolve_left
      intro hone
      have hten := Operator.precedence_of_arity_one hone
      omega
    have hbegins : (Token.operator o).beginsOperand = false := by
      simp [Token.beginsOperand, Operator.isFunction, ho]
    obtain ⟨hpa, hpb⟩ := placed_of_append_cons hbegins hp
    have hlt : a.length < (a ++ .operator o :: b).length ∧
        b.length < (a ++ .operator o :: b).length := by
      rw [List.length_append, List.length_cons]
      omega
    exact .binary ho (ih a hlt.1 hpa hda) (ih b hlt.2 hpb hdb) hleft hright

/-- Tokens without one are a number, a group, or a function in front of such tokens. -/
theorem isExpression_of_head {ts : List Token} (hp : placed false ts = some true)
    (hd : depthAfter 0 ts = some 0) (hf : ∀ p ∈ outerOperators 0 ts, p.arity = 1)
    (ih : ∀ us : List Token, us.length < ts.length → placed false us = some true →
      depthAfter 0 us = some 0 → IsExpression us) : IsExpression ts := by
  cases ts with
  | nil => cases hp
  | cons t ts =>
    obtain ⟨ht, hrest⟩ := placed_of_cons hp
    cases t with
    | closing => cases ht
    | number v =>
      obtain rfl := eq_nil_of_placed hrest hd hf
      exact isExpression_number v
    | opening =>
      obtain ⟨hts, hdb, hdc⟩ := @cutGroup_spec 0 _ hd
      generalize (cutGroup 0 ts).1 = b at *
      generalize (cutGroup 0 ts).2 = c at *
      subst hts
      obtain ⟨hpb, hpc⟩ := placed_of_append_cons rfl hrest
      have houter := outerOperators_group hdb c
      have hc : c = [] := eq_nil_of_placed hpc hdc (houter ▸ hf)
      subst hc
      have hlt : b.length < (Token.opening :: (b ++ [.closing])).length := by
        rw [List.length_cons, List.length_append]
        omega
      exact (ih b hlt hpb hdb).group
    | operator o =>
      have ho : o.arity = 1 := hf o List.mem_cons_self
      have hb : IsExpression ts := ih ts (Nat.lt_succ_self _) hrest hd
      refine hb.call ho ?_
      intro p hp
      exact (Operator.precedence_of_arity_one (hf p (List.mem_cons_of_mem o hp))).ge

theorem isExpression_of_placed {ts : List Token} (hp : placed false ts = some true)
    (hd : depthAfter 0 ts = some 0) : IsExpression ts := by
  induction hn : ts.length using Nat.strong_induction_on generalizing ts with
  | _ n ih =>
    subst hn
    have ih : ∀ us : List Token, us.length < ts.length → placed false us = some true →
        depthAfter 0 us = some 0 → IsExpression us := by
      intro us hlt hpu hdu
      exact ih us.length hlt hpu hdu rfl
    by_cases hbin : ∃ p ∈ outerOperators 0 ts, p.arity = 2
    · exact isExpression_of_split hp hd hbin ih
    · have hf : ∀ p ∈ outerOperators 0 ts, p.arity = 1 := by
        intro p hp
        apply p.arity_eq_one_or_two.resolve_right
        intro h2
        exact hbin ⟨p, hp, h2⟩
      exact isExpression_of_head hp hd hf ih

end DeskCalculator
