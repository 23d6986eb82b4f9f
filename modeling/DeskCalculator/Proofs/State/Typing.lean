import DeskCalculator.Proofs.Expression.Stages
import DeskCalculator.Proofs.Expression.Value
import DeskCalculator.Proofs.State.History

/-! # Typing an expression

The keys of an expression spell its text: each key adds its own text, and the key of a function the `(`
behind it as well. They do so where nothing has been typed yet and, if the first one is a digit, after an
`=`. What `=` then makes of the input is the value of the tree.
-/
namespace DeskCalculator
open Binary64

namespace Key

def entries (key : Key) : List String := key.text.toList ++ if key.isFunction then ["("] else []

def chars (key : Key) : List Char := key.entries.flatMap String.toList

theorem chars_operator (o : Operator) :
    (operator o).chars = o.spelling ++ if o.isFunction then ['('] else [] := by
  cases o <;> rfl

/-- No key is a command, and together they add the characters. -/
structure Adds (keys : List Key) (cs : List Char) : Prop where
  isSome_text : ∀ key ∈ keys, key.text.isSome = true
  flatMap_chars : keys.flatMap chars = cs

theorem adds_nil : Adds [] [] := ⟨nofun, rfl⟩

theorem Adds.cons {key : Key} {keys : List Key} {cs : List Char} (h : key.text.isSome = true)
    (hkeys : Adds keys cs) : Adds (key :: keys) (key.chars ++ cs) where
  isSome_text := List.forall_mem_cons.mpr ⟨h, hkeys.isSome_text⟩
  flatMap_chars := by rw [List.flatMap_cons, hkeys.flatMap_chars]

theorem Adds.append {keys keys' : List Key} {cs cs' : List Char} (h : Adds keys cs)
    (h' : Adds keys' cs') : Adds (keys ++ keys') (cs ++ cs') where
  isSome_text := List.forall_mem_append.mpr ⟨h.isSome_text, h'.isSome_text⟩
  flatMap_chars := by rw [List.flatMap_append, h.flatMap_chars, h'.flatMap_chars]

/-- Digits, points and signs have a key of one character. -/
theorem exists_ofChar? {c : Char} (h : Token.isNumeral c = true ∨ c = '-') :
    ∃ key, ofChar? c = some key ∧ (key.text.isSome && key.chars == [c]) = true := by
  rw [← Option.any_eq_true]
  rcases h with h | rfl
  · exact Token.of_isNumeral (P := fun c =>
      (ofChar? c).any (fun key => key.text.isSome && key.chars == [c]) = true) (by decide +kernel) h
  · decide +kernel

/-- The keys of a row of digits, points and signs add it again. -/
theorem adds_filterMap_ofChar? {cs : List Char} (h : ∀ c ∈ cs, Token.isNumeral c = true ∨ c = '-') :
    Adds (cs.filterMap ofChar?) cs := by
  induction cs with
  | nil => exact adds_nil
  | cons c cs ih =>
    obtain ⟨hc, hcs⟩ := List.forall_mem_cons.mp h
    obtain ⟨key, hkey, hspec⟩ := exists_ofChar? hc
    rw [Bool.and_eq_true, beq_iff_eq] at hspec
    have hadd := Adds.cons hspec.1 (ih hcs)
    rw [hspec.2] at hadd
    rwa [List.filterMap_cons_some hkey]

end Key

namespace Expression

def Delimited : Expression → Prop
  | number _ => True
  | group e => e.Delimited
  | call _ e => (∃ inner, e = group inner) ∧ e.Delimited
  | binary _ l r => l.Delimited ∧ r.Delimited

/-- The keys of the text, one for each character, but one for the name of a function and the `(` of its
operand together. -/
def keys : Expression → List Key
  | number v => (Binary64.chars v).filterMap Key.ofChar?
  | group e => .opening :: e.keys ++ [.closing]
  | call o e => .operator o :: e.keys.tail
  | binary o l r => l.keys ++ .operator o :: r.keys

theorem isNumeral_or_eq_of_mem_chars {v : Float} (h : IsLiteral v) {x : Char}
    (hx : x ∈ Binary64.chars v) : Token.isNumeral x = true ∨ x = '-' := by
  obtain ⟨c, cs, hc, hcs, hneg, hpos⟩ := Token.exists_chars_eq_cons h
  rw [hc] at hx
  rcases List.mem_cons.mp hx with rfl | hx
  · cases hs : isNegative v with
    | true => exact .inr (hneg hs)
    | false => exact .inl (Token.isNumeral_of_isDigit (hpos hs))
  · exact .inl (hcs x hx)

/-- The keys of an expression add the characters of its tokens. -/
theorem adds_keys {e : Expression} (hs : e.Saturated) (hd : e.Delimited)
    (hl : ∀ v, .number v ∈ e.tokens → IsLiteral v) :
    Key.Adds e.keys (e.tokens.flatMap Token.chars) := by
  induction e with
  | number v =>
    have hv : IsLiteral v := hl v List.mem_cons_self
    have hadd := Key.adds_filterMap_ofChar? fun _ hx => isNumeral_or_eq_of_mem_chars hv hx
    rwa [tokens, List.flatMap_singleton]
  | group e ih =>
    have hadd := ih hs hd (forall_number_group.mp hl)
    rw [tokens, List.flatMap_append]
    exact (hadd.cons rfl).append (Key.adds_nil.cons rfl)
  | call o e ih =>
    have hadd := ih hs.2 hd.2 (forall_number_call.mp hl)
    obtain ⟨inner, rfl⟩ := hd.1
    have ho : o.isFunction = true := beq_of_eq hs.1
    constructor
    · exact List.forall_mem_cons.mpr
        ⟨rfl, fun key hkey => hadd.isSome_text key (List.mem_of_mem_tail hkey)⟩
    · -- The key of the function adds the `(` of the operand, and the key of that is gone.
      rw [keys, tokens, List.flatMap_cons, List.flatMap_cons, Key.chars_operator, if_pos ho,
        ← hadd.flatMap_chars]
      exact List.append_assoc ..
  | binary o l r ihl ihr =>
    obtain ⟨ho, hsl, hsr⟩ := hs
    obtain ⟨hll, hlr⟩ := forall_number_binary.mp hl
    have hchars : (Key.operator o).chars = (Token.operator o).chars := by
      have hbinary : ¬ o.isFunction = true := by simp [Operator.isFunction, ho]
      rw [Key.chars_operator, if_neg hbinary, List.append_nil, Token.chars]
    rw [tokens, List.flatMap_append, List.flatMap_cons, ← hchars]
    exact (ihl hsl hd.1 hll).append ((ihr hsr hd.2 hlr).cons rfl)

/-- What the keys of an expression add is its text. -/
theorem join_keys_entries {e : Expression} (hs : e.Saturated) (hd : e.Delimited)
    (hl : ∀ v, .number v ∈ e.tokens → IsLiteral v) :
    String.join (e.keys.flatMap Key.entries) = e.text := by
  have htokens : e.tokens.flatMap (fun t => t.text.toList) = e.tokens.flatMap Token.chars := by
    simp only [Token.text, String.toList_ofList]
  apply String.toList_inj.mp
  rw [String.toList_join, List.flatMap_assoc, text, String.toList_join, List.flatMap_map, htokens]
  exact (adds_keys hs hd hl).flatMap_chars

/-- The text of an expression has the value of its tree. -/
theorem evaluate_text_eq_value {e : Expression} (he : Derives .atom .sum e)
    (hl : ∀ v, .number v ∈ e.tokens → IsLiteral v) : evaluate e.text = e.value := by
  obtain ⟨hs, -, -⟩ := derives_iff_ordered.mp he
  have htokens : expressionTokens e.text = .ok e.tokens :=
    expressionTokens_join_text (legible_tokens hs hl)
  rw [evaluate_of_converted htokens (toPostfix_tokens he), evalPostfix_postorder e hs]

end Expression

namespace State

variable {settings : Settings} {s : State}

theorem edit_of_text (hs : s.justEvaluated = false) {key : Key} (hk : key.text.isSome = true) :
    s.edit key = s.entries ++ key.entries := by
  obtain ⟨x, hx⟩ := Option.isSome_iff_exists.mp hk
  have hinsert : s.insert key x = s.entries ++ key.entries := by
    simp only [insert, hs, Key.entries, hx]
    cases key.isFunction <;> simp
  unfold edit
  split
  · cases hx
  · simp only [hx, hinsert]

/-- A key with a text adds its entries, unless an answer stands there. -/
theorem press_of_text (hs : s.justEvaluated = false) {key : Key} (hk : key.text.isSome = true) :
    s.press settings key = { s with entries := s.entries ++ key.entries, error := none } := by
  have he : key ≠ .equals := by
    rintro rfl
    cases hk
  have hc : key ≠ .clear := by
    rintro rfl
    cases hk
  rw [press_of_ne he hc, edited, edit_of_text hs hk, hs]

variable (settings) in
/-- Keys with texts add their entries one after the other and nothing else but that no error stays. -/
theorem pressAll_of_text (hs : s.justEvaluated = false) {keys : List Key}
    (hk : ∀ key ∈ keys, key.text.isSome = true) :
    (s.pressAll settings keys).entries = s.entries ++ keys.flatMap Key.entries ∧
      (s.pressAll settings keys).history = s.history := by
  induction keys generalizing s with
  | nil => exact ⟨(List.append_nil _).symm, rfl⟩
  | cons key keys ih =>
    obtain ⟨hkey, hkeys⟩ := List.forall_mem_cons.mp hk
    rw [pressAll, List.foldl_cons, press_of_text hs hkey]
    obtain ⟨hentries, hhistory⟩ :=
      ih (s := { s with entries := s.entries ++ key.entries, error := none }) hs hkeys
    refine ⟨?_, hhistory⟩
    rw [List.flatMap_cons, ← List.append_assoc]
    exact hentries

/-- A digit right after an `=` is typed as if nothing stood there. -/
theorem press_digit_of_justEvaluated (hs : s.justEvaluated = true) {key : Key}
    (hdigit : key.isDigit = true) (hk : key.text.isSome = true) : s.press settings key =
      { s with entries := [], justEvaluated := false }.press settings key := by
  obtain ⟨x, hx⟩ := Option.isSome_iff_exists.mp hk
  cases key with
  | digit d => simp [press, insert, hs, hx, Key.isDigit, Key.isFunction]
  | _ => cases hdigit

/-- The keys do not go on with an input: nothing stands there, or a digit comes right after an `=`. -/
def Begins (s : State) (keys : List Key) : Prop :=
  (s.entries = [] ∧ s.justEvaluated = false) ∨
    (s.justEvaluated = true ∧ keys.head?.any Key.isDigit = true)

variable (settings) in
/-- Where they do not go on with an input, the entries are those of the keys. -/
theorem pressAll_of_begins {keys : List Key} (hs : s.Begins keys)
    (hk : ∀ key ∈ keys, key.text.isSome = true) :
    (s.pressAll settings keys).entries = keys.flatMap Key.entries ∧
      (s.pressAll settings keys).history = s.history := by
  rcases hs with ⟨hentries, hflag⟩ | ⟨hflag, hdigit⟩
  · have h := pressAll_of_text settings hflag hk
    rwa [hentries] at h
  · cases keys with
    | nil => cases hdigit
    | cons key keys =>
      have h := pressAll_of_text settings
        (s := { s with entries := [], justEvaluated := false }) rfl hk
      rw [pressAll, List.foldl_cons] at h ⊢
      rwa [press_digit_of_justEvaluated hflag hdigit (List.forall_mem_cons.mp hk).1]

/-- The keys of an expression, where they do not go on with an input, leave its text as the input and
the history as it is. Then `=` shows the rounded value of the tree and remembers it with the text; an
error, which can only be one of arithmetic, leaves the entries and the history as they are. -/
theorem press_equals_of_keys {settings : Settings} {s : State} {e : Expression}
    (he : Derives .atom .sum e) (hd : e.Delimited) (hl : ∀ v, .number v ∈ e.tokens → IsLiteral v)
    (hs : s.Begins e.keys) :
    let t := s.pressAll settings e.keys
    let u := t.press settings .equals
    t.input = e.text ∧ t.history = s.history ∧
      (∀ v, e.value = .ok v →
        let l : Line := ⟨e.text, roundTo settings.places v⟩
        u.entries = [Binary64.text l.result] ∧ u.error = none ∧
          u.history = (s.history ++ [l]).rtake settings.historyLimit ∧
          (1 ≤ settings.historyLimit → u.history.getLast? = some l)) ∧
      ∀ err, e.value = .error err →
        (err = .divisionByZero ∨ ∃ o, err = .nonFiniteResult o) ∧
          u.entries = t.entries ∧ u.history = s.history ∧ u.error = some errorText := by
  intro t u
  obtain ⟨hsat, -, -⟩ := derives_iff_ordered.mp he
  obtain ⟨hentries, hhistory⟩ :=
    pressAll_of_begins settings hs (Expression.adds_keys hsat hd hl).isSome_text
  have hinput : t.input = e.text := by
    rw [input, hentries]
    exact Expression.join_keys_entries hsat hd hl
  have hvalue : evaluate t.input = e.value := by
    rw [hinput]
    exact Expression.evaluate_text_eq_value he hl
  refine ⟨hinput, hhistory, ?_, ?_⟩
  · intro v hv l
    have hu : u = t.answered settings v := press_equals_of_ok (hvalue.trans hv)
    have hlines : u.history = (s.history ++ [l]).rtake settings.historyLimit := by
      rw [hu, answered, line, hinput, hhistory, recent_eq_rtake]
    refine ⟨by rw [hu, answered], by rw [hu, answered], hlines, ?_⟩
    intro hlimit
    rw [hlines, ← recent_eq_rtake]
    exact getLast?_recent_concat hlimit _ _
  · intro err herr
    have hu : u = t.refused := press_equals_of_error (hvalue.trans herr)
    refine ⟨?_, by rw [hu, refused], by rw [hu, refused, hhistory], by rw [hu, refused]⟩
    rcases Expression.isArithmetic_value hsat with ⟨v, hv⟩ | hv | ⟨o, hv⟩
    · rw [herr] at hv
      cases hv
    · rw [herr] at hv
      exact .inl (Except.error.inj hv)
    · rw [herr] at hv
      exact .inr ⟨o, Except.error.inj hv⟩

theorem press_equals_of_keys_refused :
    let e : Expression := .binary .plus (.number 12.5)
      (.call .sin (.group (.binary .divide (.number (-1)) (.number 0))))
    let s : State := {
      entries := ["5", "/", "0"]
      history := [⟨"2*3", 6⟩]
      justEvaluated := true
      error := some errorText }
    let t := s.pressAll {} e.keys
    let u := t.press {} .equals
    s.Begins e.keys ∧ t.input = "12.5+sin(-1/0)" ∧ u.entries = t.entries ∧
      u.history = s.history ∧ u.error = some errorText := by
  intro e s t u
  have he : Derives .atom .sum e := by
    rw [derives_iff_ordered]
    simp [e, Expression.Saturated, Expression.Ordered, Expression.strength, Layer.bound,
      Operator.arity, Operator.precedence]
  have hd : e.Delimited := ⟨trivial, ⟨_, rfl⟩, trivial, trivial⟩
  have hl : ∀ v, .number v ∈ e.tokens → IsLiteral v := by
    intro v hv
    simp only [e, Expression.tokens, List.cons_append, List.nil_append, List.mem_cons,
      Token.number.injEq, reduceCtorEq, List.not_mem_nil, or_false, false_or] at hv
    rcases hv with rfl | rfl | rfl <;> decide +kernel
  have hs : s.Begins e.keys := .inr ⟨rfl, by decide +kernel⟩
  have hvalue : e.value = .error .divisionByZero := by decide +kernel
  have htext : e.text = "12.5+sin(-1/0)" := by decide +kernel
  obtain ⟨hinput, -, -, hrefused⟩ := press_equals_of_keys he hd hl hs
  exact ⟨hs, hinput.trans htext, (hrefused _ hvalue).2⟩

end State
end DeskCalculator
