import DeskCalculator.Proofs.Postfix.Conversion

/-! # Postfix form by splitting

`reordered` puts tokens into postfix order without a stack: it splits them at the weakest operator
outside every group, the rightmost if there are several, puts both sides in order and the operator
behind them; where there is no such operator, numbers stay and groups are put in order on their own.
The conversion does the same to every balanced list of tokens, whether or not it is an expression.
-/
namespace DeskCalculator

/-- The rightmost of the weakest operators outside every group, with what is before and after it. -/
def weakest? (depth : Nat) : List Token → Option (List Token × Operator × List Token)
  | [] => none
  | .opening :: ts => (weakest? (depth + 1) ts).map fun (a, o, b) => (.opening :: a, o, b)
  | .closing :: ts => (weakest? (depth - 1) ts).map fun (a, o, b) => (.closing :: a, o, b)
  | .number v :: ts => (weakest? depth ts).map fun (a, o, b) => (.number v :: a, o, b)
  | .operator p :: ts =>
    match weakest? depth ts with
    | some (a, o, b) =>
      if depth = 0 ∧ p.precedence < o.precedence then some ([], p, ts)
      else some (.operator p :: a, o, b)
    | none => if depth = 0 then some ([], p, ts) else none

/-- The split is at the operator itself or after it. -/
theorem weakest?_operator_cases {depth : Nat} {ts a b : List Token} {o p : Operator}
    (h : weakest? depth (.operator p :: ts) = some (a, o, b)) :
    (depth = 0 ∧ a = [] ∧ o = p ∧ b = ts ∧
      ∀ c q d, weakest? 0 ts = some (c, q, d) → p.precedence < q.precedence) ∨
    ∃ c, a = .operator p :: c ∧ weakest? depth ts = some (c, o, b) ∧
      (depth = 0 → o.precedence ≤ p.precedence) := by
  rw [weakest?] at h
  cases hw : weakest? depth ts with
  | none =>
    simp only [hw] at h
    by_cases h0 : depth = 0
    · rw [if_pos h0] at h
      cases h
      refine .inl ⟨h0, rfl, rfl, rfl, ?_⟩
      intro c q d hc
      rw [h0, hc] at hw
      cases hw
    · rw [if_neg h0] at h
      cases h
  | some split =>
    obtain ⟨c, q, d⟩ := split
    simp only [hw] at h
    by_cases hp : depth = 0 ∧ p.precedence < q.precedence
    · rw [if_pos hp] at h
      cases h
      refine .inl ⟨hp.1, rfl, rfl, rfl, ?_⟩
      intro c' q' d' hc
      rw [hp.1, hc] at hw
      cases hw
      exact hp.2
    · rw [if_neg hp] at h
      cases h
      refine .inr ⟨c, rfl, rfl, ?_⟩
      intro h0
      by_contra hlt
      exact hp ⟨h0, Nat.not_le.mp hlt⟩

theorem eq_append_of_weakest? {depth : Nat} {ts a b : List Token} {o : Operator}
    (h : weakest? depth ts = some (a, o, b)) : ts = a ++ .operator o :: b := by
  induction ts generalizing depth a with
  | nil => cases h
  | cons t ts ih =>
    have hmap : ∀ d, (weakest? d ts).map (fun (a, o, b) => (t :: a, o, b)) = some (a, o, b) →
        t :: ts = a ++ .operator o :: b := by
      intro d hd
      obtain ⟨⟨a', o', b'⟩, hw, he⟩ := Option.map_eq_some_iff.mp hd
      cases he
      exact congrArg (t :: ·) (ih hw)
    cases t with
    | number v => exact hmap _ h
    | opening => exact hmap _ h
    | closing => exact hmap _ h
    | operator p =>
      rcases weakest?_operator_cases h with ⟨-, rfl, rfl, rfl, -⟩ | ⟨c, rfl, hw, -⟩
      · rfl
      · exact congrArg (Token.operator p :: ·) (ih hw)

theorem outerOperators_eq_nil_of_weakest? {depth : Nat} {ts : List Token}
    (h : weakest? depth ts = none) : outerOperators depth ts = [] := by
  induction ts generalizing depth with
  | nil => rfl
  | cons t ts ih =>
    cases t with
    | number v => exact ih (Option.map_eq_none_iff.mp h)
    | opening => exact ih (Option.map_eq_none_iff.mp h)
    | closing => exact ih (Option.map_eq_none_iff.mp h)
    | operator p =>
      rw [weakest?] at h
      cases hw : weakest? depth ts with
      | some split =>
        simp only [hw] at h
        by_cases hp : depth = 0 ∧ p.precedence < split.2.1.precedence
        · rw [if_pos hp] at h
          cases h
        · rw [if_neg hp] at h
          cases h
      | none =>
        simp only [hw] at h
        by_cases h0 : depth = 0
        · rw [if_pos h0] at h
          cases h
        · rw [outerOperators, if_neg h0]
          exact ih hw

theorem precedence_le_of_mem_split {depth : Nat} {a b : List Token} {o p : Operator}
    (ha : depthAfter depth a = some 0)
    (hleft : ∀ p ∈ outerOperators depth a, o.precedence ≤ p.precedence)
    (hright : ∀ p ∈ outerOperators 0 b, o.precedence < p.precedence)
    (hp : p ∈ outerOperators depth (a ++ .operator o :: b)) : o.precedence ≤ p.precedence := by
  rw [outerOperators_append ha] at hp
  rcases List.mem_append.mp hp with hp | hp
  · exact hleft p hp
  · rcases List.mem_cons.mp hp with rfl | hp
    · exact Nat.le_refl _
    · exact (hright p hp).le

/-- No operator outside is weaker than the one split at, and none after it is as weak. -/
theorem split_of_weakest? {depth : Nat} {ts a b : List Token} {o : Operator}
    (hd : depthAfter depth ts = some 0) (h : weakest? depth ts = some (a, o, b)) :
    depthAfter depth a = some 0 ∧
      (∀ p ∈ outerOperators depth a, o.precedence ≤ p.precedence) ∧
        ∀ p ∈ outerOperators 0 b, o.precedence < p.precedence := by
  induction ts generalizing depth a o b with
  | nil => cases h
  | cons t ts ih =>
    cases t with
    | number v =>
      obtain ⟨⟨a', o', b'⟩, hw, he⟩ := Option.map_eq_some_iff.mp h
      cases he
      have hs := ih hd hw
      exact hs
    | opening =>
      obtain ⟨⟨a', o', b'⟩, hw, he⟩ := Option.map_eq_some_iff.mp h
      cases he
      have hs := @ih (depth + 1) _ _ _ hd hw
      exact hs
    | closing =>
      obtain ⟨⟨a', o', b'⟩, hw, he⟩ := Option.map_eq_some_iff.mp h
      cases he
      cases depth with
      | zero => cases hd
      | succ d =>
        have hs := @ih d _ _ _ hd hw
        exact hs
    | operator p =>
      rcases weakest?_operator_cases h with ⟨rfl, rfl, rfl, rfl, hlt⟩ | ⟨c, rfl, hw, hle⟩
      · refine ⟨rfl, nofun, ?_⟩
        intro q hq
        cases hw : weakest? 0 b with
        | none =>
          rw [outerOperators_eq_nil_of_weakest? hw] at hq
          cases hq
        | some split =>
          obtain ⟨c, p, d⟩ := split
          obtain ⟨hc, hleft, hright⟩ := ih hd hw
          rw [eq_append_of_weakest? hw] at hq
          have hpq := precedence_le_of_mem_split hc hleft hright hq
          exact Nat.lt_of_lt_of_le (hlt c p d hw) hpq
      · obtain ⟨hc, hleft, hright⟩ := ih hd hw
        refine ⟨hc, ?_, hright⟩
        intro q hq
        rw [outerOperators] at hq
        by_cases h0 : depth = 0
        · rw [if_pos h0] at hq
          rcases List.mem_cons.mp hq with rfl | hq
          · exact hle h0
          · exact hleft q hq
        · rw [if_neg h0] at hq
          exact hleft q hq

def reordered (ts : List Token) : List Token :=
  match _h : weakest? 0 ts with
  | some (a, o, b) => reordered a ++ reordered b ++ [.operator o]
  | none =>
    match ts with
    | [] => []
    | .opening :: ts => reordered (cutGroup 0 ts).1 ++ reordered (cutGroup 0 ts).2
    | t :: ts => t :: reordered ts
termination_by ts.length
decreasing_by
  · have := congrArg List.length (eq_append_of_weakest? _h)
    simp at this
    omega
  · have := congrArg List.length (eq_append_of_weakest? _h)
    simp at this
    omega
  · exact Nat.lt_succ_of_le (length_cutGroup_le 0 ts).1
  · exact Nat.lt_succ_of_le (length_cutGroup_le 0 ts).2
  · simp

theorem converts_reordered {ts : List Token} (h : depthAfter 0 ts = some 0) :
    Converts ts (reordered ts) := by
  fun_induction reordered ts with
  | case1 ts a o b hw iha ihb =>
    obtain ⟨ha, hleft, hright⟩ := split_of_weakest? h hw
    have hts := eq_append_of_weakest? hw
    have hb : depthAfter 0 b = some 0 := by
      rw [hts, depthAfter_append, ha] at h
      exact h
    rw [hts]
    exact .operator ha hleft hright (iha ha) (ihb hb)
  | case2 => exact converts_nil
  | case3 ts hw ihb ihc =>
    obtain ⟨hts, hb, hc⟩ := @cutGroup_spec 0 _ h
    have hsplit : Token.opening :: ts =
        (.opening :: (cutGroup 0 ts).1 ++ [.closing]) ++ (cutGroup 0 ts).2 := by
      rw [List.append_assoc, List.cons_append]
      exact congrArg (Token.opening :: ·) hts
    rw [hsplit]
    exact .append (depthAfter_group hb) (outerOperators_group hb []) (.group (ihb hb)) (ihc hc)
  | case4 t ts hw hne =>
    rename_i ih
    have hnone := outerOperators_eq_nil_of_weakest? hw
    cases t with
    | number v => exact .append (a := [.number v]) rfl rfl (converts_number v) (ih h)
    | operator p => cases hnone
    | opening => exact (hne hw rfl HEq.rfl).elim
    | closing => cases h

/-- The conversion of balanced tokens is their order by splitting. -/
theorem toPostfix_of_balanced {ts : List Token} (h : Balanced ts) :
    toPostfix ts = .ok (reordered ts) :=
  toPostfix_eq_ok_of_converts (converts_reordered (balanced_iff_depthAfter.mp h))

theorem toPostfix_of_balanced_malformed :
    Balanced [.operator .sin, .opening, .number 2, .operator .minus, .closing, .operator .times,
        .operator .plus, .number 3] ∧
      toPostfix [.operator .sin, .opening, .number 2, .operator .minus, .closing, .operator .times,
          .operator .plus, .number 3] =
        .ok [.number 2, .operator .minus, .operator .sin, .operator .times, .number 3,
          .operator .plus] := by
  have hb : Balanced [.operator .sin, .opening, .number 2, .operator .minus, .closing,
      .operator .times, .operator .plus, .number 3] := by decide +kernel
  have hr : reordered [.operator .sin, .opening, .number 2, .operator .minus, .closing,
      .operator .times, .operator .plus, .number 3] =
        [.number 2, .operator .minus, .operator .sin, .operator .times, .number 3,
          .operator .plus] := by decide +kernel
  refine ⟨hb, ?_⟩
  rw [toPostfix_of_balanced hb, hr]

end DeskCalculator
