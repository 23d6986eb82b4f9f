import Mathlib.Data.List.Infix
import DeskCalculator.Postfix

/-! # Balanced tokens

`depthAfter` counts the groups that are open after some tokens and fails where one is closed that was
never opened. A list of tokens is balanced when this count ends at zero, and the group that its first
`(` opens can then be cut off. `outerOperators` are the operators that stand outside every group.
-/
namespace DeskCalculator

/-- No prefix closes more groups than it opens, and altogether as many are closed as opened. -/
def Balanced (ts : List Token) : Prop :=
  (∀ p ∈ ts.inits, p.count .closing ≤ p.count .opening) ∧ ts.count .closing = ts.count .opening

instance (ts : List Token) : Decidable (Balanced ts) := inferInstanceAs (Decidable (_ ∧ _))

def depthAfter (depth : Nat) : List Token → Option Nat
  | [] => some depth
  | .opening :: ts => depthAfter (depth + 1) ts
  | .closing :: ts =>
    match depth with
    | 0 => none
    | d + 1 => depthAfter d ts
  | .number _ :: ts | .operator _ :: ts => depthAfter depth ts

theorem depthAfter_append (depth : Nat) (a b : List Token) :
    depthAfter depth (a ++ b) = (depthAfter depth a).bind (depthAfter · b) := by
  induction a generalizing depth with
  | nil => rfl
  | cons t a ih =>
    cases t with
    | closing =>
      cases depth with
      | zero => rfl
      | succ d => exact ih d
    | _ => exact ih _

theorem depthAfter_add {depth after : Nat} {ts : List Token} (h : depthAfter depth ts = some after)
    (k : Nat) : depthAfter (depth + k) ts = some (after + k) := by
  induction ts generalizing depth with
  | nil =>
    cases h
    rfl
  | cons t ts ih =>
    cases t with
    | number v => exact ih h
    | operator o => exact ih h
    | opening =>
      have := @ih (depth + 1) h
      rwa [Nat.add_right_comm] at this
    | closing =>
      cases depth with
      | zero => cases h
      | succ d =>
        rw [Nat.add_right_comm]
        exact ih h

theorem depthAfter_group {b : List Token} (hb : depthAfter 0 b = some 0) :
    depthAfter 0 (.opening :: b ++ [.closing]) = some 0 := by
  have h1 : depthAfter 1 b = some 1 := depthAfter_add hb 1
  change depthAfter 1 (b ++ [.closing]) = some 0
  rw [depthAfter_append, h1]
  rfl

theorem count_of_depthAfter {depth after : Nat} {ts : List Token}
    (h : depthAfter depth ts = some after) :
    ts.count .closing + after = depth + ts.count .opening := by
  induction ts generalizing depth with
  | nil =>
    cases h
    simp
  | cons t ts ih =>
    cases t with
    | number v => simpa using ih h
    | operator o => simpa using ih h
    | opening =>
      have := @ih (depth + 1) h
      simp only [List.count_cons_self, List.count_cons_of_ne (show Token.opening ≠ .closing by simp)]
      omega
    | closing =>
      cases depth with
      | zero => cases h
      | succ d =>
        have := @ih d h
        simp only [List.count_cons_self, List.count_cons_of_ne (show Token.closing ≠ .opening by simp)]
        omega

theorem depthAfter_of_count {depth : Nat} {ts : List Token}
    (h : ∀ p, p <+: ts → p.count .closing ≤ depth + p.count .opening) :
    ∃ after, depthAfter depth ts = some after := by
  induction ts generalizing depth with
  | nil => exact ⟨depth, rfl⟩
  | cons t ts ih =>
    have hcons : ∀ p, p <+: ts → (t :: p).count .closing ≤ depth + (t :: p).count .opening := by
      intro p hp
      exact h (t :: p) ((List.prefix_cons_inj t).mpr hp)
    cases t with
    | number v =>
      apply ih
      intro p hp
      simpa using hcons p hp
    | operator o =>
      apply ih
      intro p hp
      simpa using hcons p hp
    | opening =>
      apply ih
      intro p hp
      have := hcons p hp
      simp only [List.count_cons_self, List.count_cons_of_ne (show Token.opening ≠ .closing by simp)]
        at this
      omega
    | closing =>
      cases depth with
      | zero => simpa using hcons [] List.nil_prefix
      | succ d =>
        apply ih
        intro p hp
        have := hcons p hp
        simp only [List.count_cons_self,
          List.count_cons_of_ne (show Token.closing ≠ .opening by simp)] at this
        omega

theorem balanced_iff_depthAfter {ts : List Token} : Balanced ts ↔ depthAfter 0 ts = some 0 := by
  constructor
  · rintro ⟨hp, ht⟩
    have hprefix : ∀ p, p <+: ts → p.count .closing ≤ 0 + p.count .opening := by
      intro p h
      rw [Nat.zero_add]
      exact hp p ((List.mem_inits p ts).mpr h)
    obtain ⟨after, ha⟩ := depthAfter_of_count hprefix
    have := count_of_depthAfter ha
    obtain rfl : after = 0 := by omega
    exact ha
  · intro h
    refine ⟨?_, by simpa using count_of_depthAfter h⟩
    intro p hp
    obtain ⟨q, rfl⟩ := (List.mem_inits p ts).mp hp
    rw [depthAfter_append] at h
    obtain ⟨after, ha, -⟩ := Option.bind_eq_some_iff.mp h
    have := count_of_depthAfter ha
    omega

/-- Cuts at the `)` that closes the group in which the tokens stand, `depth` groups inside it. -/
def cutGroup (depth : Nat) : List Token → List Token × List Token
  | [] => ([], [])
  | .closing :: ts =>
    match depth with
    | 0 => ([], ts)
    | d + 1 => let (b, c) := cutGroup d ts; (.closing :: b, c)
  | .opening :: ts => let (b, c) := cutGroup (depth + 1) ts; (.opening :: b, c)
  | t :: ts => let (b, c) := cutGroup depth ts; (t :: b, c)

theorem length_cutGroup_le (depth : Nat) (ts : List Token) :
    (cutGroup depth ts).1.length ≤ ts.length ∧ (cutGroup depth ts).2.length ≤ ts.length := by
  induction ts generalizing depth with
  | nil => simp [cutGroup]
  | cons t ts ih =>
    cases t with
    | closing =>
      cases depth with
      | zero => simp [cutGroup]
      | succ d => simpa [cutGroup] using ⟨(ih d).1, Nat.le_succ_of_le (ih d).2⟩
    | opening => simpa [cutGroup] using ⟨(ih _).1, Nat.le_succ_of_le (ih _).2⟩
    | number v => simpa [cutGroup] using ⟨(ih _).1, Nat.le_succ_of_le (ih _).2⟩
    | operator o => simpa [cutGroup] using ⟨(ih _).1, Nat.le_succ_of_le (ih _).2⟩

/-- The group is balanced, and so is what follows it. -/
theorem cutGroup_spec {depth : Nat} {ts : List Token} (h : depthAfter (depth + 1) ts = some 0) :
    ts = (cutGroup depth ts).1 ++ .closing :: (cutGroup depth ts).2 ∧
      depthAfter depth (cutGroup depth ts).1 = some 0 ∧
        depthAfter 0 (cutGroup depth ts).2 = some 0 := by
  induction ts generalizing depth with
  | nil => cases h
  | cons t ts ih =>
    cases t with
    | closing =>
      cases depth with
      | zero => exact ⟨rfl, rfl, h⟩
      | succ d =>
        obtain ⟨hs, hb, hc⟩ := @ih d h
        exact ⟨congrArg (Token.closing :: ·) hs, hb, hc⟩
    | opening =>
      obtain ⟨hs, hb, hc⟩ := @ih (depth + 1) h
      exact ⟨congrArg (Token.opening :: ·) hs, hb, hc⟩
    | number v =>
      obtain ⟨hs, hb, hc⟩ := @ih depth h
      exact ⟨congrArg (Token.number v :: ·) hs, hb, hc⟩
    | operator o =>
      obtain ⟨hs, hb, hc⟩ := @ih depth h
      exact ⟨congrArg (Token.operator o :: ·) hs, hb, hc⟩

def outerOperators (depth : Nat) : List Token → List Operator
  | [] => []
  | .opening :: ts => outerOperators (depth + 1) ts
  | .closing :: ts => outerOperators (depth - 1) ts
  | .number _ :: ts => outerOperators depth ts
  | .operator o :: ts =>
    if depth = 0 then o :: outerOperators depth ts else outerOperators depth ts

theorem outerOperators_append {depth after : Nat} {a : List Token}
    (h : depthAfter depth a = some after) (b : List Token) :
    outerOperators depth (a ++ b) = outerOperators depth a ++ outerOperators after b := by
  induction a generalizing depth with
  | nil =>
    cases h
    rfl
  | cons t a ih =>
    cases t with
    | number v => exact ih h
    | opening => exact @ih (depth + 1) h
    | operator o =>
      simp only [List.cons_append, outerOperators, ih h]
      by_cases h0 : depth = 0
      · rw [if_pos h0, if_pos h0]
        rfl
      · rw [if_neg h0, if_neg h0]
    | closing =>
      cases depth with
      | zero => cases h
      | succ d => exact ih h

/-- Inside a further group no operator is outside. -/
theorem outerOperators_succ {depth after : Nat} {ts : List Token}
    (h : depthAfter depth ts = some after) : outerOperators (depth + 1) ts = [] := by
  induction ts generalizing depth with
  | nil => rfl
  | cons t ts ih =>
    cases t with
    | number v => exact ih h
    | opening => exact @ih (depth + 1) h
    | operator o => exact ih h
    | closing =>
      cases depth with
      | zero => cases h
      | succ d => exact ih h

theorem outerOperators_group {b : List Token} (hb : depthAfter 0 b = some 0) (c : List Token) :
    outerOperators 0 (.opening :: b ++ .closing :: c) = outerOperators 0 c := by
  have h1 : depthAfter 1 b = some 1 := depthAfter_add hb 1
  change outerOperators 1 (b ++ .closing :: c) = _
  rw [outerOperators_append h1, outerOperators_succ hb]
  rfl

end DeskCalculator
