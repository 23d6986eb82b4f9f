import DeskCalculator.Proofs.Postfix.Balance

/-! # Conversion of balanced tokens

Balanced tokens leave the stack below them alone as long as it holds back no operator that one of
their outer operators would release. What they put out then, followed by the operators that still
wait, does not depend on the stack: `Converts ts ps` says that it is `ps`. The tokens of a group, of
neighbouring parts and of an operator between two parts are converted by converting the parts.
-/
namespace DeskCalculator

theorem release_append {precedence : Nat} {ops : List Operator}
    (h : ∀ o ∈ ops, precedence ≤ o.precedence) (stack : List Pending) :
    release precedence (ops.map .operator ++ stack) =
      (ops.map .operator ++ (release precedence stack).1, (release precedence stack).2) := by
  induction ops with
  | nil => rfl
  | cons o ops ih =>
    have htail : ∀ p ∈ ops, precedence ≤ p.precedence := by
      intro p hp
      exact h p (List.mem_cons_of_mem o hp)
    have ih := ih htail
    simp only [List.map_cons, List.cons_append, release, if_pos (h o List.mem_cons_self), ih]

def HoldsBack (stack : List Pending) (ops : List Operator) : Prop :=
  ∀ o ∈ ops, release o.precedence stack = ([], stack)

theorem holdsBack_nil (ops : List Operator) : HoldsBack [] ops := by
  intro o _
  rfl

theorem holdsBack_group (stack : List Pending) (ops : List Operator) :
    HoldsBack (.group :: stack) ops := by
  intro o _
  rfl

theorem holdsBack_operator {o : Operator} {ops : List Operator}
    (h : ∀ p ∈ ops, o.precedence < p.precedence) (stack : List Pending) :
    HoldsBack (.operator o :: stack) ops := by
  intro p hp
  rw [release, if_neg (Nat.not_le.mpr (h p hp))]

theorem HoldsBack.mono {stack : List Pending} {ops more : List Operator} (h : HoldsBack stack more)
    (hsub : ops ⊆ more) : HoldsBack stack ops := by
  intro o ho
  exact h o (hsub ho)

/-- The tokens put out `ps`, less the operators that they leave on the stack. -/
def Converts (ts ps : List Token) : Prop :=
  ∀ stack, HoldsBack stack (outerOperators 0 ts) →
    ∃ out ops, out ++ ops.map .operator = ps ∧ ops ⊆ outerOperators 0 ts ∧
      ∀ rest, convert stack (ts ++ rest) = (out ++ ·) <$> convert (ops.map .operator ++ stack) rest

theorem map_append_map (a b : List Token) (x : Except EvalError (List Token)) :
    (a ++ ·) <$> (b ++ ·) <$> x = ((a ++ b) ++ ·) <$> x := by
  cases x with
  | error e => rfl
  | ok ps => exact congrArg Except.ok (List.append_assoc a b ps).symm

theorem map_nil_append (x : Except EvalError (List Token)) : ([] ++ ·) <$> x = x := by
  cases x <;> rfl

theorem converts_nil : Converts [] [] := by
  intro stack _
  exact ⟨[], [], rfl, List.Subset.refl _, fun rest => (map_nil_append _).symm⟩

theorem converts_number (v : Float) : Converts [.number v] [.number v] := by
  intro stack _
  exact ⟨[.number v], [], rfl, List.nil_subset _, fun rest => rfl⟩

/-- At its `)` a group puts out every operator that it left waiting. -/
theorem Converts.group {b ps : List Token} (h : Converts b ps) :
    Converts (.opening :: b ++ [.closing]) ps := by
  intro stack _
  obtain ⟨out, ops, hps, -, hconv⟩ := h (.group :: stack) (holdsBack_group stack _)
  refine ⟨ps, [], List.append_nil ps, List.nil_subset _, ?_⟩
  intro rest
  have hrelease : release 0 (ops.map .operator ++ .group :: stack) =
      (ops.map .operator, .group :: stack) := by
    rw [release_append fun o _ => Nat.zero_le _]
    simp [release]
  rw [List.append_assoc, List.cons_append]
  change convert (.group :: stack) (b ++ .closing :: rest) = _
  rw [hconv, convert, hrelease, map_append_map, hps]
  rfl

/-- Parts side by side are converted one after the other when the first leaves no operator. -/
theorem Converts.append {a b ps qs : List Token} (ha : depthAfter 0 a = some 0)
    (hnone : outerOperators 0 a = []) (hps : Converts a ps) (hqs : Converts b qs) :
    Converts (a ++ b) (ps ++ qs) := by
  intro stack hstack
  rw [outerOperators_append ha, hnone, List.nil_append] at hstack ⊢
  obtain ⟨out, ops, rfl, hsub, hconv⟩ := hps stack (by simp [hnone, HoldsBack])
  rw [hnone] at hsub
  obtain rfl := List.subset_nil.mp hsub
  obtain ⟨out', ops', rfl, hsub', hconv'⟩ := hqs stack hstack
  refine ⟨out ++ out', ops', by simp, hsub', ?_⟩
  intro rest
  rw [List.append_assoc, hconv, List.map_nil, List.nil_append, hconv', map_append_map]

/-- An operator that is weaker than all before it and strictly weaker than all after it comes last. -/
theorem Converts.operator {o : Operator} {a b ps qs : List Token} (ha : depthAfter 0 a = some 0)
    (hleft : ∀ p ∈ outerOperators 0 a, o.precedence ≤ p.precedence)
    (hright : ∀ p ∈ outerOperators 0 b, o.precedence < p.precedence)
    (hps : Converts a ps) (hqs : Converts b qs) :
    Converts (a ++ .operator o :: b) (ps ++ qs ++ [.operator o]) := by
  intro stack hstack
  have houter : outerOperators 0 (a ++ .operator o :: b) =
      outerOperators 0 a ++ o :: outerOperators 0 b := by
    rw [outerOperators_append ha]
    rfl
  rw [houter] at hstack ⊢
  have ho : release o.precedence stack = ([], stack) := hstack o (by simp)
  obtain ⟨out, ops, rfl, hsub, hconv⟩ := hps stack (hstack.mono (List.subset_append_left _ _))
  obtain ⟨out', ops', rfl, hsub', hconv'⟩ :=
    hqs (.operator o :: stack) (holdsBack_operator hright stack)
  refine ⟨out ++ ops.map .operator ++ out', ops' ++ [o], by simp, ?_, ?_⟩
  · intro p hp
    rcases List.mem_append.mp hp with hp | hp
    · exact List.mem_append_right _ (List.mem_cons_of_mem o (hsub' hp))
    · exact List.mem_append_right _ (List.mem_singleton.mp hp ▸ List.mem_cons_self)
  · intro rest
    have hrelease : release o.precedence (ops.map .operator ++ stack) =
        (ops.map .operator, stack) := by
      rw [release_append fun p hp => hleft p (hsub hp), ho, List.append_nil]
    rw [List.append_assoc, hconv, List.cons_append, convert, hrelease]
    simp only
    rw [hconv', map_append_map, map_append_map]
    simp

theorem toPostfix_eq_ok_of_converts {ts ps : List Token} (h : Converts ts ps) :
    toPostfix ts = .ok ps := by
  obtain ⟨out, ops, rfl, -, hconv⟩ := h [] (holdsBack_nil _)
  have hrelease : release 0 (ops.map Pending.operator) = (ops.map .operator, []) := by
    have := @release_append 0 ops (fun o _ => Nat.zero_le o.precedence) []
    simpa [release] using this
  have := hconv []
  rw [List.append_nil, List.append_nil, convert, hrelease] at this
  exact this

end DeskCalculator
