import Mathlib.Data.List.FinRange
import DeskCalculator.Proofs.Postfix.Faults
import DeskCalculator.Proofs.Postfix.Splitting
import DeskCalculator.Proofs.Token.Faults

/-! # The order of the postfix form

The conversion puts the positions of the tokens into another order. No position is lost or comes twice, and
only operators move: what comes out before a number stood before it. Parentheses are the only thing that the
conversion checks, so their error tells that a text was read and its groups do not match.
-/
namespace DeskCalculator

/-- `order` has all pending positions and all positions of `is` but those of parentheses, and what comes
before a number in it stood before the number. -/
structure IsOrder {ι : Type} [LT ι] (token : ι → Token) (pending is order : List ι) : Prop where
  perm : order.Perm (pending ++ is.filter fun i => !(token i).isBracket)
  before_number : order.Pairwise fun i j => (token j).isNumber = true → i < j

section waiting
variable {ι : Type} {token : ι → Token} {stack : List Pending} {pending : List ι} {out : List Token}

theorem isNumber_of_mem_waiting {t : Token} (h : t ∈ waiting stack) : t.isNumber = false := by
  induction stack with
  | nil => cases h
  | cons p stack ih =>
    cases p with
    | group => exact ih h
    | operator o =>
      rcases List.mem_cons.mp h with rfl | h
      · rfl
      · exact ih h

/-- The tokens that are released are those of some of the positions that wait. -/
theorem exists_append_of_release {precedence : Nat} {left : List Pending}
    (hstack : waiting stack = pending.map token) (h : release precedence stack = (out, left)) :
    ∃ moved kept, pending = moved ++ kept ∧ moved.map token = out ∧
      waiting left = kept.map token := by
  rw [waiting_release precedence stack, h] at hstack
  obtain ⟨moved, kept, rfl, hmoved, hkept⟩ := List.map_eq_append_iff.mp hstack.symm
  exact ⟨moved, kept, rfl, hmoved, hkept.symm⟩

theorem isNumber_of_waiting (h : waiting stack = pending.map token) :
    ∀ i ∈ pending, (token i).isNumber = false := by
  intro i hi
  have hmem : token i ∈ waiting stack := by
    rw [h]
    exact List.mem_map_of_mem hi
  exact isNumber_of_mem_waiting hmem

end waiting

section order
variable {ι : Type} [Preorder ι] {token : ι → Token} {stack : List Pending}
  {pending moved is order : List ι} {ps : List Token}

/-- Positions that wait are of no numbers. -/
theorem pairwise_of_waiting (h : ∀ i ∈ pending, (token i).isNumber = false) :
    pending.Pairwise fun i j => (token j).isNumber = true → i < j := by
  rw [List.pairwise_iff_forall_sublist]
  intro i j hsub hj
  rw [h j (hsub.subset (by simp))] at hj
  cases hj

/-- What is put out in front stood before all tokens that are still to be read. -/
theorem IsOrder.append (h : IsOrder token pending is order)
    (hpending : ∀ i ∈ pending, (token i).isNumber = false)
    (hmoved : moved.Pairwise fun i j => (token j).isNumber = true → i < j)
    (hlt : ∀ i ∈ moved, ∀ j ∈ is, i < j) : IsOrder token (moved ++ pending) is (moved ++ order) where
  perm := by
    rw [List.append_assoc]
    exact h.perm.append_left moved
  before_number := by
    refine List.pairwise_append.mpr ⟨hmoved, h.before_number, ?_⟩
    intro i hi j hj hnumber
    rcases List.mem_append.mp (h.perm.subset hj) with hwaiting | hread
    · rw [hpending j hwaiting] at hnumber
      cases hnumber
    · exact hlt i hi j (List.mem_of_mem_filter hread)

/-- The tokens come out in an order of their positions when those on the stack stood before the others. -/
theorem exists_isOrder_of_convert (h : convert stack (is.map token) = .ok ps)
    (hstack : waiting stack = pending.map token) (hsorted : is.Pairwise (· < ·))
    (hlt : ∀ i ∈ pending, ∀ j ∈ is, i < j) :
    ∃ order, order.map token = ps ∧ IsOrder token pending is order := by
  have hnumber := isNumber_of_waiting hstack
  -- Along the tokens: what waits on the stack stood before all that are still to be read.
  induction is generalizing stack pending ps with
  | nil =>
    simp only [List.map_nil, convert] at h
    split at h
    case h_1 out hr =>
      cases h
      have hout := waiting_release 0 stack
      rw [hr, waiting, List.append_nil, hstack] at hout
      exact ⟨pending, hout, by simp, pairwise_of_waiting hnumber⟩
    case h_2 => cases h
  | cons i is ih =>
    obtain ⟨hi, hsorted⟩ := List.pairwise_cons.mp hsorted
    rw [List.map_cons] at h
    have hlt : ∀ k ∈ pending, ∀ j ∈ is, k < j := by
      intro k hk j hj
      exact hlt k hk j (List.mem_cons_of_mem i hj)
    cases ht : token i with
    | number v =>
      rw [ht] at h
      obtain ⟨qs, hqs, rfl⟩ := map_eq_ok_iff.mp h
      obtain ⟨order, rfl, horder⟩ := ih hqs hstack hsorted hlt hnumber
      have hmoved : ∀ k ∈ [i], ∀ j ∈ is, k < j := by simpa using hi
      have hfirst := horder.append hnumber (List.pairwise_singleton _ i) hmoved
      refine ⟨i :: order, by simp [ht], ?_, hfirst.before_number⟩
      refine hfirst.perm.trans ?_
      rw [List.filter_cons_of_pos (by simp [ht, Token.isBracket])]
      exact List.perm_middle.symm
    | operator o =>
      rw [ht] at h
      obtain ⟨qs, hqs, rfl⟩ := map_eq_ok_iff.mp h
      obtain ⟨moved, kept, rfl, hout, hkept⟩ := exists_append_of_release hstack rfl
      obtain ⟨hmoved, -⟩ := List.forall_mem_append.mp hnumber
      obtain ⟨hfirst, hlast⟩ := List.forall_mem_append.mp hlt
      have hstack : waiting (.operator o :: (release o.precedence stack).2) =
          (i :: kept).map token := by
        rw [waiting, hkept, List.map_cons, ht]
      have hnumber := isNumber_of_waiting hstack
      have hlt := List.forall_mem_cons.mpr ⟨hi, hlast⟩
      obtain ⟨order, rfl, horder⟩ := ih hqs hstack hsorted hlt hnumber
      have happend := horder.append hnumber (pairwise_of_waiting hmoved) hfirst
      refine ⟨moved ++ order, by rw [List.map_append, hout], ?_, happend.before_number⟩
      refine happend.perm.trans ?_
      rw [List.append_assoc, List.append_assoc, List.filter_cons_of_pos (by simp [ht, Token.isBracket])]
      exact List.perm_middle.symm.append_left moved
    | opening =>
      rw [ht] at h
      obtain ⟨order, rfl, horder⟩ := @ih (.group :: stack) _ _ h hstack hsorted hlt hnumber
      refine ⟨order, rfl, ?_, horder.before_number⟩
      rw [List.filter_cons_of_neg (by simp [ht, Token.isBracket])]
      exact horder.perm
    | closing =>
      rw [ht] at h
      simp only [convert] at h
      split at h
      case h_1 out left hr =>
        obtain ⟨qs, hqs, rfl⟩ := map_eq_ok_iff.mp h
        obtain ⟨moved, kept, rfl, hout, hkept⟩ := exists_append_of_release hstack hr
        obtain ⟨hmoved, hnumber⟩ := List.forall_mem_append.mp hnumber
        obtain ⟨hfirst, hlast⟩ := List.forall_mem_append.mp hlt
        obtain ⟨order, rfl, horder⟩ := ih hqs hkept hsorted hlast hnumber
        have happend := horder.append hnumber (pairwise_of_waiting hmoved) hfirst
        refine ⟨moved ++ order, by rw [List.map_append, hout], ?_, happend.before_number⟩
        rw [List.filter_cons_of_neg (by simp [ht, Token.isBracket])]
        exact happend.perm
      case h_2 => cases h

/-- The numbers keep their order. -/
theorem filter_isNumber_of_isOrder {ts : List Token} {order : List (Fin ts.length)}
    (h : IsOrder ts.get [] (List.finRange ts.length) order) :
    (order.map ts.get).filter Token.isNumber = ts.filter Token.isNumber := by
  have hsame : (order.filter fun i => (ts.get i).isNumber) =
      (List.finRange ts.length).filter fun i => (ts.get i).isNumber := by
    have hperm : (order.filter fun i => (ts.get i).isNumber).Perm
        ((List.finRange ts.length).filter fun i => (ts.get i).isNumber) := by
      refine (h.perm.filter _).trans (.of_eq ?_)
      rw [List.nil_append, List.filter_filter]
      apply List.filter_congr
      intro i _
      cases ts.get i <;> rfl
    have horder : (order.filter fun i => (ts.get i).isNumber).Pairwise (· < ·) := by
      refine List.pairwise_filter.mpr (h.before_number.imp ?_)
      intro i j hij _ hj
      exact hij hj
    have hrange : ((List.finRange ts.length).filter fun i => (ts.get i).isNumber).Pairwise (· < ·) :=
      List.Pairwise.filter _ (List.pairwise_lt_finRange ts.length)
    refine hperm.eq_of_pairwise ?_ horder hrange
    intro i j _ _ hij hji
    exact absurd hij hji.not_gt
  have hall : (List.finRange ts.length).map ts.get = ts := List.map_get_finRange ts
  conv_rhs => rw [← hall]
  rw [List.filter_map, List.filter_map]
  exact congrArg (List.map ts.get) hsame

theorem exists_isOrder_of_toPostfix {ts : List Token} (h : toPostfix ts = .ok ps) :
    ∃ order, order.map ts.get = ps ∧ IsOrder ts.get [] (List.finRange ts.length) order := by
  have hall : (List.finRange ts.length).map ts.get = ts := List.map_get_finRange ts
  have hconvert : convert [] ((List.finRange ts.length).map ts.get) = .ok ps := by
    rw [hall]
    exact h
  exact exists_isOrder_of_convert hconvert rfl (List.pairwise_lt_finRange ts.length) nofun

end order

section parentheses
variable {s : String} {ts ps : List Token} {e : EvalError}

theorem toPostfix_eq_ok_iff_balanced : (∃ ps, toPostfix ts = .ok ps) ↔ Balanced ts := by
  constructor
  · rintro ⟨ps, h⟩
    exact balanced_of_toPostfix h
  · intro h
    exact ⟨_, toPostfix_eq_ok_of_converts (converts_reordered (balanced_iff_depthAfter.mp h))⟩

theorem toPostfix_of_not_balanced (h : ¬Balanced ts) : toPostfix ts = .error .unmatchedParenthesis := by
  cases hps : toPostfix ts with
  | ok ps => exact absurd (balanced_of_toPostfix hps) h
  | error e => rw [eq_unmatchedParenthesis_of_convert hps]

/-- Reading finds fault with the spelling only. -/
theorem isLexical_of_tokenize (h : Token.tokenize s = .error e) : e.isLexical = true := by
  obtain ⟨lexeme, rfl | rfl⟩ := Token.exists_lexeme_of_tokenize h
  · rfl
  · rfl

theorem evalPostfix_ne_unmatchedParenthesis : evalPostfix ps ≠ .error .unmatchedParenthesis := by
  intro h
  rcases evalPostfix_eq_error_iff.mp h with ⟨a, t, b, -, -, hfault⟩ | ⟨-, -, he⟩
  · cases hfault with
    | failure _ _ _ _ _ hcause => rcases hcause with he | he <;> cases he
  · cases he

theorem evaluate_eq_unmatchedParenthesis_iff : evaluate s = .error .unmatchedParenthesis ↔
    ∃ ts, expressionTokens s = .ok ts ∧ ¬Balanced ts := by
  constructor
  · intro h
    cases hts : expressionTokens s with
    | error e =>
      rw [evaluate_of_unread hts] at h
      have hlexical := isLexical_of_tokenize hts
      cases h
      cases hlexical
    | ok ts =>
      refine ⟨ts, rfl, ?_⟩
      intro hbalanced
      obtain ⟨ps, hps⟩ := toPostfix_eq_ok_iff_balanced.mpr hbalanced
      rw [evaluate_of_converted hts hps] at h
      exact evalPostfix_ne_unmatchedParenthesis h
  · rintro ⟨ts, hts, h⟩
    exact evaluate_of_unconverted hts (toPostfix_of_not_balanced h)

end parentheses

/-- Tokens are converted exactly when they are balanced. Then all of them but the parentheses come out, the
numbers as they stood and the operators behind every number that stood before them. A text is refused for
its parentheses exactly when it can be read and is not balanced, whatever else is wrong with it. -/
theorem toPostfix_rearranges :
    (∀ ts : List Token,
      ((∃ ps, toPostfix ts = .ok ps) ↔ Balanced ts) ∧
      (¬Balanced ts → toPostfix ts = .error .unmatchedParenthesis) ∧
      ∀ ps, toPostfix ts = .ok ps →
        (∀ t ∈ ps, t.isBracket = false) ∧
        ps.Perm (ts.filter fun t => !t.isBracket) ∧
        ps.filter Token.isNumber = ts.filter Token.isNumber ∧
        ∃ order, order.map ts.get = ps ∧ IsOrder ts.get [] (List.finRange ts.length) order) ∧
    ∀ s, evaluate s = .error .unmatchedParenthesis ↔
      ∃ ts, expressionTokens s = .ok ts ∧ ¬Balanced ts := by
  refine ⟨?_, fun s => evaluate_eq_unmatchedParenthesis_iff⟩
  intro ts
  refine ⟨toPostfix_eq_ok_iff_balanced, toPostfix_of_not_balanced, ?_⟩
  intro ps h
  have hperm := perm_of_toPostfix h
  obtain ⟨order, rfl, horder⟩ := exists_isOrder_of_toPostfix h
  refine ⟨?_, hperm, filter_isNumber_of_isOrder horder, order, rfl, horder⟩
  intro t ht
  have hkept := (List.mem_filter.mp (hperm.subset ht)).2
  rwa [Bool.not_eq_true'] at hkept

/-- An operator without a left operand is moved as well; neither a division by zero nor a missing operand
matters where the parentheses do not match. -/
theorem toPostfix_rearranges_malformed :
    (∃ order, order.map [.operator .plus, .opening, .number 2, .closing].get = [.number 2, .operator .plus] ∧
      IsOrder [.operator .plus, .opening, .number 2, .closing].get [] (List.finRange 4) order) ∧
    evaluate "1/0)+(" = .error .unmatchedParenthesis := by
  obtain ⟨htokens, htexts⟩ := toPostfix_rearranges
  obtain ⟨-, -, hconverted⟩ := htokens [.operator .plus, .opening, .number 2, .closing]
  obtain ⟨-, -, -, horder⟩ := hconverted [.number 2, .operator .plus] (by decide +kernel)
  have hread : expressionTokens "1/0)+(" =
      .ok [.number 1, .operator .divide, .number 0, .closing, .operator .plus, .opening] := by
    decide +kernel
  exact ⟨horder, (htexts _).mpr ⟨_, hread, by decide +kernel⟩⟩

end DeskCalculator
