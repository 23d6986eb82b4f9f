import DeskCalculator.Proofs.Postfix.Counts
import DeskCalculator.Proofs.Postfix.Splitting

/-! # A group and its value

What the conversion does with the first tokens does not depend on what follows: it fails there, or puts
out some tokens and goes on with some stack. A group puts out its own postfix form and leaves the stack
alone, and running that form pushes one value on whatever lies below. So a group that has a value can be
replaced by it, between any tokens at all.
-/
namespace DeskCalculator

/-- One token makes the conversion fail, or some tokens come out and another stack is left. -/
theorem convert_cons_cases (stack : List Pending) (t : Token) :
    (∀ ts, convert stack (t :: ts) = .error .unmatchedParenthesis) ∨
      ∃ out left, ∀ ts, convert stack (t :: ts) = (out ++ ·) <$> convert left ts := by
  cases t with
  | number v => exact .inr ⟨[.number v], stack, fun ts => rfl⟩
  | operator o => exact .inr ⟨_, _, fun ts => rfl⟩
  | opening => exact .inr ⟨[], .group :: stack, fun ts => (map_nil_append _).symm⟩
  | closing =>
    rcases hr : release 0 stack with ⟨out, left⟩
    match left with
    | .group :: left =>
      refine .inr ⟨out, left, ?_⟩
      intro ts
      rw [convert, hr]
    | [] =>
      refine .inl ?_
      intro ts
      rw [convert, hr]
    | .operator o :: left =>
      refine .inl ?_
      intro ts
      rw [convert, hr]

/-- The same for any number of tokens in front. -/
theorem convert_append_cases (stack : List Pending) (a : List Token) :
    (∀ rest, convert stack (a ++ rest) = .error .unmatchedParenthesis) ∨
      ∃ out left, ∀ rest, convert stack (a ++ rest) = (out ++ ·) <$> convert left rest := by
  induction a generalizing stack with
  | nil => exact .inr ⟨[], stack, fun rest => (map_nil_append _).symm⟩
  | cons t a ih =>
    rcases convert_cons_cases stack t with hfail | ⟨out, left, hstep⟩
    · exact .inl fun rest => hfail (a ++ rest)
    · rcases ih left with hfail | ⟨out', left', hrun⟩
      · refine .inl ?_
        intro rest
        rw [List.cons_append, hstep, hfail]
        rfl
      · refine .inr ⟨out ++ out', left', ?_⟩
        intro rest
        rw [List.cons_append, hstep, hrun, map_append_map]

/-- Inside a group tokens come out as they do on their own, whatever waits outside. -/
theorem convert_group {b r : List Token} (h : toPostfix b = .ok r) (stack : List Pending)
    (rest : List Token) :
    convert stack (.opening :: b ++ .closing :: rest) = (r ++ ·) <$> convert stack rest := by
  have hdepth := balanced_iff_depthAfter.mp (balanced_of_toPostfix h)
  have hb : Converts b r := by
    have hconverts := converts_reordered hdepth
    cases h.symm.trans (toPostfix_eq_ok_of_converts hconverts)
    exact hconverts
  have hnone : outerOperators 0 (.opening :: b ++ [.closing]) = [] := outerOperators_group hdepth []
  have hholds : HoldsBack stack (outerOperators 0 (.opening :: b ++ [.closing])) := by
    rw [hnone]
    nofun
  obtain ⟨out, ops, rfl, hsub, hconv⟩ := hb.group stack hholds
  rw [hnone] at hsub
  obtain rfl := List.subset_nil.mp hsub
  have := hconv rest
  rw [List.append_assoc] at this
  rw [List.map_nil, List.append_nil]
  exact this

section below
variable (below : List Float)

theorem operands_append {k : Nat} {stack args rest : List Float}
    (h : operands k stack = some (args, rest)) :
    operands k (stack ++ below) = some (args, rest ++ below) := by
  obtain ⟨rfl, hlength⟩ := operands_eq_some_iff.mp h
  exact operands_eq_some_iff.mpr ⟨List.append_assoc .., hlength⟩

/-- A run that succeeds does the same above any other values, which it leaves alone. -/
theorem runPostfix_append_below {stack final : List Float} {ps : List Token}
    (h : runPostfix stack ps = .ok final) :
    runPostfix (stack ++ below) ps = .ok (final ++ below) := by
  induction ps generalizing stack with
  | nil =>
    cases h
    rfl
  | cons t ps ih =>
    cases t with
    | opening => cases h
    | closing => cases h
    | number v => exact ih h
    | operator o =>
      obtain ⟨args, rest, v, hop, hv, hrun⟩ := runPostfix_operator_eq_ok_iff.mp h
      exact runPostfix_operator_eq_ok_iff.mpr
        ⟨args, rest ++ below, v, operands_append below hop, hv, ih hrun⟩

/-- Tokens with one value push it on any stack. -/
theorem runPostfix_of_evalPostfix {r : List Token} {v : Float} (h : evalPostfix r = .ok v)
    (ts : List Token) : runPostfix below (r ++ ts) = runPostfix (v :: below) ts := by
  have hrun := runPostfix_append_below below (evalPostfix_eq_ok_iff.mp h)
  rw [List.nil_append] at hrun
  rw [runPostfix_append, hrun]
  rfl

end below

/-- Behind any tokens a value stands for the tokens that have it. -/
theorem evalPostfix_append_congr {r : List Token} {v : Float} (h : evalPostfix r = .ok v)
    (out qs : List Token) : evalPostfix (out ++ (r ++ qs)) = evalPostfix (out ++ .number v :: qs) := by
  have hrun : runPostfix [] (out ++ (r ++ qs)) = runPostfix [] (out ++ .number v :: qs) := by
    rw [runPostfix_append, runPostfix_append]
    congr 1
    funext stack
    exact runPostfix_of_evalPostfix stack h qs
  rw [evalPostfix, hrun, evalPostfix]

/-- A group that has a value gives the same result as the value in its place, be the tokens around it
an expression or not. -/
theorem evalPostfix_of_group_eq {b r : List Token} {v : Float} (hr : toPostfix b = .ok r)
    (hv : evalPostfix r = .ok v) (a c : List Token) :
    toPostfix (a ++ [.opening] ++ b ++ [.closing] ++ c) >>= evalPostfix =
      toPostfix (a ++ [.number v] ++ c) >>= evalPostfix := by
  have hgroup : a ++ [.opening] ++ b ++ [.closing] ++ c = a ++ (.opening :: b ++ .closing :: c) := by
    simp
  have hvalue : a ++ [.number v] ++ c = a ++ .number v :: c := by simp
  rw [hgroup, hvalue]
  rcases convert_append_cases [] a with hfail | ⟨out, left, hrun⟩
  · rw [toPostfix, hfail, toPostfix, hfail]
  · rw [toPostfix, hrun, toPostfix, hrun, convert_group hr, convert]
    cases convert left c with
    | error e => rfl
    | ok qs => exact evalPostfix_append_congr hv out qs

theorem evalPostfix_of_group_eq_missing_operand :
    toPostfix [.number 1, .operator .minus, .number 3] =
        .ok [.number 1, .number 3, .operator .minus] ∧
      evalPostfix [.number 1, .number 3, .operator .minus] = .ok (-2) ∧
      toPostfix [.number 8, .operator .divide, .opening, .number 1, .operator .minus, .number 3,
          .closing, .operator .plus] >>= evalPostfix =
        toPostfix [.number 8, .operator .divide, .number (-2), .operator .plus] >>= evalPostfix := by
  have hr : toPostfix [.number 1, .operator .minus, .number 3] =
      .ok [.number 1, .number 3, .operator .minus] := by decide +kernel
  have hv : evalPostfix [.number 1, .number 3, .operator .minus] = .ok (-2) := by decide +kernel
  exact ⟨hr, hv, evalPostfix_of_group_eq hr hv [.number 8, .operator .divide] [.operator .plus]⟩

end DeskCalculator
