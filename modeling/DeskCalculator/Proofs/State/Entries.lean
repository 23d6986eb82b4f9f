import DeskCalculator.Proofs.State.History
import DeskCalculator.Proofs.Token.Spelling

/-! # What keys can spell

Every entry is the text of a key or of an answer, wherever keys put it and whatever they delete. So the
input consists of digits, points and whole symbols: it is in normal form, and when it has no value the
reason is never an unknown symbol.
-/
namespace DeskCalculator.State
open Binary64 Token

def IsEntry (x : String) : Prop := (∃ k : Key, k.text = some x) ∨ ∃ v, IsLiteral v ∧ x = Binary64.text v

theorem spelled_keyText {k : Key} {x : String} (h : k.text = some x) : Spelled x.toList := by
  cases k with
  | digit d =>
    have hdigit : ∀ d < 10, Char.isDigit (Nat.digitChar d) = true := by decide
    simp only [Key.text] at h
    split at h
    case isTrue hd =>
      cases h
      rw [String.toList_singleton]
      exact .numeral (isNumeral_of_isDigit (hdigit d hd)) .nil
    case isFalse => cases h
  | point =>
    cases h
    exact .numeral (c := '.') rfl .nil
  | operator o =>
    cases h
    rw [Operator.symbol, String.toList_ofList]
    exact spelled_symbol (t := .operator o) rfl
  | opening =>
    cases h
    exact spelled_symbol (t := .opening) rfl
  | closing =>
    cases h
    exact spelled_symbol (t := .closing) rfl
  | _ => cases h

theorem spelled_of_isEntry {x : String} (h : IsEntry x) : Spelled x.toList := by
  rcases h with ⟨k, hk⟩ | ⟨v, hv, rfl⟩
  · exact spelled_keyText hk
  · rw [Binary64.text, String.toList_ofList]
    exact spelled_chars hv

theorem spelled_input {s : State} (h : ∀ x ∈ s.entries, IsEntry x) : Spelled s.input.toList := by
  rw [input, String.toList_join]
  generalize s.entries = entries at h
  induction entries with
  | nil => exact .nil
  | cons x entries ih =>
    obtain ⟨hx, hrest⟩ := List.forall_mem_cons.mp h
    exact (spelled_of_isEntry hx).append (ih hrest)

variable {settings : Settings} {s t : State} {key : Key}

theorem isEntry_of_step (h : Step settings s key t) (hs : ∀ x ∈ s.entries, IsEntry x) :
    ∀ x ∈ t.entries, IsEntry x := by
  cases h with
  | answer h =>
    intro x hx
    obtain rfl := List.mem_singleton.mp hx
    exact .inr ⟨_, isLiteral_roundTo _ (isFinite_of_evaluate h), rfl⟩
  | refusal h => exact hs
  | clear => nofun
  | edit he hc =>
    intro x hx
    rcases mem_edit hx with hx | hx
    · exact hs x hx
    · exact .inl hx

theorem isEntry_of_mem_entries (settings : Settings) (keys : List Key) :
    ∀ x ∈ (pressAll settings {} keys).entries, IsEntry x := by
  refine pressAll_induction (P := fun _ s => ∀ x ∈ s.entries, IsEntry x) nofun ?_ keys
  intro keys key t hs ht
  exact isEntry_of_step ht hs

/-- What is spelled by digits, points and whole symbols has no unknown symbol. -/
theorem evaluate_ne_unknownSymbol {x : String} (h : Spelled x.toList) (lexeme : String) :
    evaluate x ≠ .error (.unknownSymbol lexeme) := by
  intro hx
  have htokens := expressionTokens_of_isLexical hx rfl
  rw [expressionTokens, normalize_spelled h] at htokens
  exact scan_ne_unknownSymbol h lexeme htokens

/-- After any keys each entry is the text of a key or of a literal, the input is in normal form, and
no unknown symbol is the reason when it has no value. -/
theorem input_pressAll_known_symbols (settings : Settings) (keys : List Key) :
    let s := pressAll settings {} keys
    (∀ x ∈ s.entries, (∃ k : Key, k.text = some x) ∨ ∃ v, IsLiteral v ∧ x = Binary64.text v) ∧
      Text.normalize s.input = s.input ∧
      (∀ lexeme, evaluate s.input ≠ .error (.unknownSymbol lexeme)) ∧
      ((s.press settings .equals).error ≠ none → ∃ e, evaluate s.input = .error e ∧
        ((∃ lexeme, e = .invalidNumber lexeme) ∨ e = .unmatchedParenthesis ∨
          (∃ o, e = .missingOperand o) ∨ e = .divisionByZero ∨ e = .malformedExpression ∨
          ∃ o, e = .nonFiniteResult o)) := by
  intro s
  have hentries := isEntry_of_mem_entries settings keys
  have hspelled : Spelled s.input.toList := spelled_input hentries
  have hknown := evaluate_ne_unknownSymbol hspelled
  refine ⟨hentries, normalize_spelled hspelled, hknown, ?_⟩
  intro h
  obtain ⟨e, he⟩ := error_press_equals_ne_none_iff.mp h
  refine ⟨e, he, ?_⟩
  cases e with
  | unknownSymbol lexeme => exact absurd he (hknown lexeme)
  | _ => simp

end DeskCalculator.State
