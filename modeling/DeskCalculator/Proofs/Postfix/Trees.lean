import DeskCalculator.Expression
import DeskCalculator.Proofs.Postfix.Counts

/-! # The trees behind postfix tokens

Postfix tokens write at most one tree: its root is the last token, and the subtrees are what precedes
it, the rightmost one last. A run that comes to its end has read a row of trees, and their values are
what it leaves on the stack.
-/
namespace DeskCalculator

namespace Expression

def IsTree : Expression → Prop
  | number _ => True
  | group _ => False
  | call o e => o.arity = 1 ∧ e.IsTree
  | binary o l r => o.arity = 2 ∧ l.IsTree ∧ r.IsTree

theorem IsTree.saturated {e : Expression} (h : e.IsTree) : e.Saturated := by
  induction e with
  | number v => trivial
  | group e _ => exact h.elim
  | call o e ih => exact ⟨h.1, ih h.2⟩
  | binary o l r ihl ihr => exact ⟨h.1, ihl h.2.1, ihr h.2.2⟩

/-- The last tree of a row can be read off the end of the tokens: operators of different arity are
different, so the root settles how many subtrees come before it. -/
theorem IsTree.eq_of_append_postorder {e f : Expression} (he : e.IsTree) (hf : f.IsTree)
    {a b : List Token} (h : a ++ e.postorder = b ++ f.postorder) : e = f ∧ a = b := by
  induction e generalizing f a b with
  | number v =>
    cases f with
    | number w => simpa [postorder, and_comm] using h
    | group f => exact hf.elim
    | call p f => simp [postorder, ← List.append_assoc] at h
    | binary p l r => simp [postorder, ← List.append_assoc] at h
  | group e _ => exact he.elim
  | call o e ih =>
    cases f with
    | number w => simp [postorder, ← List.append_assoc] at h
    | group f => exact hf.elim
    | call p f =>
      simp only [postorder, ← List.append_assoc, List.append_singleton_inj, Token.operator.injEq] at h
      obtain ⟨rfl, rfl⟩ := ih he.2 hf.2 h.1
      exact ⟨by rw [h.2], rfl⟩
    | binary p l r =>
      simp only [postorder, ← List.append_assoc, List.append_singleton_inj, Token.operator.injEq] at h
      have harity := hf.1
      rw [← h.2, he.1] at harity
      cases harity
  | binary o l r ihl ihr =>
    cases f with
    | number w => simp [postorder, ← List.append_assoc] at h
    | group f => exact hf.elim
    | call p f =>
      simp only [postorder, ← List.append_assoc, List.append_singleton_inj, Token.operator.injEq] at h
      have harity := he.1
      rw [h.2, hf.1] at harity
      cases harity
    | binary p l' r' =>
      simp only [postorder, ← List.append_assoc, List.append_singleton_inj, Token.operator.injEq] at h
      obtain ⟨rfl, hleft⟩ := ihr he.2.2 hf.2.2 h.1
      obtain ⟨rfl, rfl⟩ := ihl he.2.1 hf.2.1 hleft
      exact ⟨by rw [h.2], rfl⟩

theorem IsTree.eq_of_postorder_eq {e f : Expression} (he : e.IsTree) (hf : f.IsTree)
    (h : e.postorder = f.postorder) : e = f :=
  (he.eq_of_append_postorder hf (congrArg ([] ++ ·) h)).1

/-- Trees in a row push their values, the last one on top. -/
theorem runPostfix_flatMap_postorder {es : List Expression} (hes : ∀ e ∈ es, e.IsTree)
    {vs : List Float} (h : es.map value = vs.map .ok) (stack : List Float) :
    runPostfix stack (es.flatMap postorder) = .ok (vs.reverse ++ stack) := by
  induction es generalizing vs stack with
  | nil =>
    obtain rfl : vs = [] := by simpa using h.symm
    rfl
  | cons e es ih =>
    obtain ⟨v, vs, rfl⟩ : ∃ v ws, vs = v :: ws := by
      cases vs with
      | nil => cases h
      | cons v ws => exact ⟨v, ws, rfl⟩
    obtain ⟨hv, hvs⟩ := List.cons.inj h
    have hrest := ih (fun f hf => hes f (List.mem_cons_of_mem e hf)) hvs (v :: stack)
    rw [List.flatMap_cons, runPostfix_postorder e (hes e List.mem_cons_self).saturated, hv]
    simpa [Except.bind] using hrest

end Expression

open Expression

/-- An operator over as many trees as it takes is a tree, whose value is that of the operator. -/
theorem exists_tree_of_operands {o : Operator} {es : List Expression} (hes : ∀ e ∈ es, e.IsTree)
    {vs : List Float} (h : es.map value = vs.map .ok) (hlength : vs.length = o.arity) :
    ∃ e : Expression, e.IsTree ∧ e.postorder = es.flatMap postorder ++ [.operator o] ∧
      e.value = o.apply vs := by
  have hcount : es.length = vs.length := by simpa using congrArg List.length h
  rcases o.arity_eq_one_or_two with ho | ho
  · obtain ⟨x, rfl⟩ := List.length_eq_one_iff.mp (hlength.trans ho)
    obtain ⟨e, rfl⟩ := List.length_eq_one_iff.mp hcount
    have hx : e.value = .ok x := by simpa using h
    refine ⟨.call o e, ⟨ho, hes e (by simp)⟩, by simp [postorder], ?_⟩
    simp [value, hx, bind, Except.bind]
  · obtain ⟨x, y, rfl⟩ := List.length_eq_two.mp (hlength.trans ho)
    obtain ⟨l, r, rfl⟩ := List.length_eq_two.mp hcount
    obtain ⟨hx, hy⟩ : l.value = .ok x ∧ r.value = .ok y := by simpa using h
    refine ⟨.binary o l r, ⟨ho, hes l (by simp), hes r (by simp)⟩, by simp [postorder], ?_⟩
    simp [value, hx, hy, bind, Except.bind]

/-- The last values on the stack after trees in a row are the values of the last of the trees. -/
theorem exists_append_of_map_value {es : List Expression} {args rest : List Float}
    (h : es.map value = (args.reverse ++ rest).reverse.map .ok) :
    ∃ fs gs, es = fs ++ gs ∧ fs.map value = rest.reverse.map .ok ∧ gs.map value = args.map .ok := by
  rw [List.reverse_append, List.reverse_reverse, List.map_append] at h
  exact List.map_eq_append_iff.mp h

/-- The stack that a run leaves holds the values of the trees that the tokens write in a row. -/
theorem exists_trees_of_runPostfix {ps : List Token} {stack : List Float}
    (h : runPostfix [] ps = .ok stack) :
    ∃ es : List Expression, (∀ e ∈ es, e.IsTree) ∧ es.flatMap postorder = ps ∧
      es.map value = stack.reverse.map .ok := by
  induction ps using List.reverseRecOn generalizing stack with
  | nil =>
    cases h
    exact ⟨[], nofun, rfl, rfl⟩
  | append_singleton ps t ih =>
    obtain ⟨before, hps, ht⟩ := runPostfix_append_eq_ok_iff.mp h
    obtain ⟨es, htrees, rfl, hvalues⟩ := ih hps
    cases t with
    | opening => cases ht
    | closing => cases ht
    | number v =>
      cases ht
      refine ⟨es ++ [.number v], ?_, by simp [postorder], by simp [hvalues, value]⟩
      simpa [or_imp, forall_and, IsTree] using htrees
    | operator o =>
      obtain ⟨args, rest, v, hop, hv, hrun⟩ := runPostfix_operator_eq_ok_iff.mp ht
      cases hrun
      obtain ⟨rfl, hlength⟩ := operands_eq_some_iff.mp hop
      -- The operands are the values of the last trees, which become the children.
      obtain ⟨fs, gs, rfl, hfs, hgs⟩ := exists_append_of_map_value hvalues
      obtain ⟨hfstrees, hgstrees⟩ := List.forall_mem_append.mp htrees
      obtain ⟨e, he, hpost, hvalue⟩ := exists_tree_of_operands hgstrees hgs hlength
      refine ⟨fs ++ [e], ?_, by simp [hpost], by simp [hfs, hvalue, hv]⟩
      simpa [or_imp, forall_and, he] using hfstrees

/-- Tokens have a value exactly when they write a tree that has it, and they write no other tree. -/
theorem evalPostfix_eq_ok_iff_tree {ps : List Token} {v : Float} :
    evalPostfix ps = .ok v ↔ ∃ e : Expression, e.IsTree ∧ e.postorder = ps ∧ e.value = .ok v ∧
      ∀ f : Expression, f.IsTree → f.postorder = ps → f = e := by
  constructor
  · intro h
    obtain ⟨es, htrees, rfl, hvalues⟩ := exists_trees_of_runPostfix (evalPostfix_eq_ok_iff.mp h)
    obtain ⟨e, rfl, hvalue⟩ : ∃ e, es = [e] ∧ e.value = .ok v := by simpa using hvalues
    have he : e.IsTree := htrees e (by simp)
    refine ⟨e, he, by simp, hvalue, ?_⟩
    intro f hf hpost
    exact hf.eq_of_postorder_eq he (by simpa using hpost)
  · rintro ⟨e, he, rfl, hvalue, -⟩
    rw [evalPostfix_postorder e he.saturated, hvalue]

end DeskCalculator
