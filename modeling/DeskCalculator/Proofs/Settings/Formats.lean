import DeskCalculator.Proofs.Journal.Levels
import DeskCalculator.Proofs.Number.PlainText
import DeskCalculator.Proofs.Settings.Bounds
import DeskCalculator.Proofs.Text.Trim

/-! # The formats of the variables

What a variable gives, a count, a threshold or a path, is a matter of its trimmed text alone, and some texts
give nothing. What is given decides one field, and the settings are the only ones that follow all four
variables. Of the first three each one that holds a text and gives nothing is warned about once.
-/
namespace DeskCalculator.Settings

/-- Digits of a number of 64 bits, with any zeros and then at most one plus sign in front. -/
def IsCount (n : Nat) (text : String) : Prop :=
  n < UInt64.size ∧ ∃ sign zeros, (sign = [] ∨ sign = ['+']) ∧
    text.toList = sign ++ (List.replicate zeros '0' ++ Nat.toDigits 10 n)

def IsPath (path text : String) : Prop := text = path ∧ path ≠ ""

section reading
variable {s : String}

/-- What is read as digits is the text, or what follows its plus sign. -/
theorem exists_readCount_eq (s : String) : ∃ digits,
    (readCount s = if digits ≠ [] ∧ digits.all Char.isDigit ∧ Nat.ofDigitChars 10 digits 0 < UInt64.size
      then some (Nat.ofDigitChars 10 digits 0) else none) ∧
    ∀ ds, ds.head? ≠ some '+' →
      (digits = ds ↔ (Text.trim s).toList = ds ∨ (Text.trim s).toList = '+' :: ds) := by
  refine ⟨_, rfl, ?_⟩
  intro ds hds
  split
  case h_1 cs htext =>
    rw [htext, List.cons.injEq, eq_self, true_and]
    refine ⟨.inr, fun h => h.resolve_left ?_⟩
    rintro rfl
    exact hds rfl
  case h_2 hplus =>
    exact ⟨.inl, fun h => h.resolve_right (hplus ds)⟩

theorem readCount_eq_some_iff {n : Nat} : readCount s = some n ↔ IsCount n (Text.trim s) := by
  obtain ⟨digits, hread, hdigits⟩ := exists_readCount_eq s
  have hhead : ∀ zeros n, (List.replicate zeros '0' ++ Nat.toDigits 10 n).head? ≠ some '+' := by
    intro zeros n h
    obtain ⟨-, hd, -⟩ := Decimal.ofDigitChars_eq_iff.mpr ⟨zeros, rfl⟩
    exact absurd (hd '+' (List.mem_of_head? h)) (by decide)
  rw [hread]
  constructor
  · intro h
    split at h
    case isFalse => cases h
    case isTrue hcount =>
      obtain ⟨hne, hall, hlt⟩ := hcount
      obtain rfl := Option.some.inj h
      obtain ⟨zeros, hzeros⟩ := Decimal.ofDigitChars_eq_iff.mp ⟨hne, List.all_eq_true.mp hall, rfl⟩
      obtain htext | htext := (hdigits _ (hhead zeros _)).mp hzeros
      · exact ⟨hlt, [], zeros, .inl rfl, htext⟩
      · exact ⟨hlt, ['+'], zeros, .inr rfl, htext⟩
  · rintro ⟨hlt, sign, zeros, hsign, htext⟩
    have hzeros : digits = List.replicate zeros '0' ++ Nat.toDigits 10 n := by
      apply (hdigits _ (hhead zeros n)).mpr
      obtain rfl | rfl := hsign
      · exact .inl htext
      · exact .inr htext
    obtain ⟨hne, hall, rfl⟩ := Decimal.ofDigitChars_eq_iff.mpr ⟨zeros, hzeros⟩
    exact if_pos ⟨hne, List.all_eq_true.mpr hall, hlt⟩

theorem readThreshold_eq_some_iff {filter : LevelFilter} (h : filter.Documented) {s : String}
    {t : Threshold} : readThreshold filter s = some t ↔ IsThreshold t (Text.trim s) :=
  h.read_eq_some_iff

theorem readPath_eq_some_iff {path : String} : readPath s = some path ↔ IsPath path (Text.trim s) := by
  simp only [readPath, IsPath, String.isEmpty_iff, Option.ite_none_left_eq_some, Option.some.injEq]
  constructor
  · rintro ⟨hne, rfl⟩
    exact ⟨rfl, hne⟩
  · rintro ⟨rfl, hne⟩
    exact ⟨hne, rfl⟩

end reading

variable {α β : Type} {env : String → Option String}

/-- The variable holds a text that, trimmed, has the format of the value. -/
def Gives (env : String → Option String) (name : String) (format : α → String → Prop) (v : α) : Prop :=
  ∃ text part, env name = some text ∧ Text.IsTrimmed text part ∧ format v part

def Decides (given : α → Prop) (use : α → β) (default field : β) : Prop :=
  (∀ v, given v → field = use v) ∧ ((∀ v, ¬ given v) → field = default)

/-- The settings are what the variables give, each field for itself and in its bounds. -/
structure Follows (env : String → Option String) (s : Settings) : Prop where
  places : Decides (Gives env placesVariable IsCount) (min · 17) ({} : Settings).places s.places
  historyLimit : Decides (Gives env historyVariable IsCount) (fun n => max 1 (min n 10000))
    ({} : Settings).historyLimit s.historyLimit
  threshold : Decides (Gives env levelVariable IsThreshold) id ({} : Settings).threshold s.threshold
  logFile : Decides (Gives env fileVariable IsPath) some ({} : Settings).logFile s.logFile

def Notes (env : String → Option String) (name wanted : String) (format : α → String → Prop)
    (rs : List Record) : Prop :=
  (∀ text, env name = some text → (∀ v, ¬ Gives env name format v) →
      rs = [⟨.warn, name ++ "=" ++ Text.quoted text ++ " ignoré (" ++ wanted ++ ")"⟩]) ∧
    ((env name = none ∨ ∃ v, Gives env name format v) → rs = [])

section format
variable {format : α → String → Prop} {read : String → Option α}

theorem gives_iff (hread : ∀ {s v}, read s = some v ↔ format v (Text.trim s)) {name : String} {v : α} :
    Gives env name format v ↔ (env name).bind read = some v := by
  constructor
  · rintro ⟨text, part, htext, hpart, hv⟩
    rw [htext, Option.bind_some, hread, Text.isTrimmed_iff.mp hpart]
    exact hv
  · intro h
    obtain ⟨text, htext, hv⟩ := Option.bind_eq_some_iff.mp h
    exact ⟨text, Text.trim text, htext, Text.isTrimmed_iff.mpr rfl, hread.mp hv⟩

theorem decides_iff (hread : ∀ {s v}, read s = some v ↔ format v (Text.trim s)) {name : String}
    {use : α → β} {default field : β} :
    Decides (Gives env name format) use default field ↔
      field = ((env name).bind read).elim default use := by
  simp only [Decides, gives_iff hread]
  cases (env name).bind read with
  | none => simp
  | some v => simp

theorem notes_warning (hread : ∀ {s v}, read s = some v ↔ format v (Text.trim s)) (name wanted : String) :
    Notes env name wanted format (warning env name wanted read) := by
  simp only [Notes, gives_iff hread, warning]
  cases htext : env name with
  | none => simp
  | some text =>
    cases hv : read text with
    | none => simp [hv]
    | some v => simp [hv]

end format

/-- The settings read from the variables are the only ones that follow them. -/
theorem follows_iff {filter : LevelFilter} (h : filter.Documented) {s : Settings} :
    Follows env s ↔ s = ofVariables filter env := by
  generalize hread : ofVariables filter env = t
  have hfields : s = t ↔ s.places = t.places ∧ s.historyLimit = t.historyLimit ∧
      s.threshold = t.threshold ∧ s.logFile = t.logFile := by
    rw [← Settings.mk.injEq]
  have hthreshold : ((env levelVariable).bind (readThreshold filter)).elim ({} : Settings).threshold id =
      ((env levelVariable).bind (readThreshold filter)).getD ({} : Settings).threshold := by
    cases (env levelVariable).bind (readThreshold filter) <;> rfl
  have hfile : ((env fileVariable).bind readPath).elim ({} : Settings).logFile some =
      (env fileVariable).bind readPath := by
    cases (env fileVariable).bind readPath <;> rfl
  rw [hfields, ← hread, ofVariables_eq, ← hthreshold, ← hfile, ← decides_iff readCount_eq_some_iff,
    ← decides_iff readCount_eq_some_iff, ← decides_iff (readThreshold_eq_some_iff h),
    ← decides_iff readPath_eq_some_iff]
  exact ⟨fun h => ⟨h.places, h.historyLimit, h.threshold, h.logFile⟩,
    fun ⟨hplaces, hlimit, hlevel, hpath⟩ => ⟨hplaces, hlimit, hlevel, hpath⟩⟩

/-- The settings are those that take each field from its own variable, in its format and in its bounds, and
have the default where the variable gives nothing. Warnings come one for each of the first three variables
that holds a text and gives nothing, in their order; a variable changes no field but its own; and whatever
numbers are set afterwards, places and history limit stay in their bounds. -/
theorem ofVariables_field_by_field {filter : LevelFilter} (h : filter.Documented)
    (env : String → Option String) :
    (∀ s, Follows env s ↔ s = ofVariables filter env) ∧
    (∃ places history level, warnings filter env = places ++ history ++ level ∧
      Notes env placesVariable "entier attendu" IsCount places ∧
      Notes env historyVariable "entier attendu" IsCount history ∧
      Notes env levelVariable "off/error/warn/info/debug/trace" IsThreshold level) ∧
    (∀ text,
      (∃ n, ofVariables filter (Function.update env placesVariable text) =
        { ofVariables filter env with places := n }) ∧
      (∃ n, ofVariables filter (Function.update env historyVariable text) =
        { ofVariables filter env with historyLimit := n }) ∧
      (∃ t, ofVariables filter (Function.update env levelVariable text) =
        { ofVariables filter env with threshold := t }) ∧
      ∃ p, ofVariables filter (Function.update env fileVariable text) =
        { ofVariables filter env with logFile := p }) ∧
    ∀ s, Made s → s.places ≤ 17 ∧ 1 ≤ s.historyLimit ∧ s.historyLimit ≤ 10000 := by
  refine ⟨fun _ => follows_iff h, ?_, ofVariables_update filter env,
    fun s hmade => ⟨hmade.places_le, hmade.historyLimit_mem⟩⟩
  exact ⟨_, _, _, rfl, notes_warning readCount_eq_some_iff _ _, notes_warning readCount_eq_some_iff _ _,
    notes_warning (readThreshold_eq_some_iff h) _ _⟩

/-- A count with a sign and zeros, one that is too large, a level in mixed case, and a blank path. -/
theorem ofVariables_field_by_field_given_and_not :
    let env := fun name => if name = placesVariable then some " +0018446744073709551615\u2003"
      else if name = historyVariable then some "18446744073709551616"
      else if name = levelVariable then some "\tDeBuG"
      else if name = fileVariable then some "  " else none
    let s := ((ofVariables .standard env).setPlaces 500).setHistoryLimit 0
    Gives env placesVariable IsCount 18446744073709551615 ∧
      (∀ n, ¬ Gives env historyVariable IsCount n) ∧
      Gives env levelVariable IsThreshold (some .debug) ∧ (∀ p, ¬ Gives env fileVariable IsPath p) ∧
      (ofVariables .standard env).places = 17 ∧ (ofVariables .standard env).historyLimit = 100 ∧
      (ofVariables .standard env).threshold = some .debug ∧ (ofVariables .standard env).logFile = none ∧
      warnings .standard env =
        [⟨.warn, "CALC_HISTORIQUE_MAX=\"18446744073709551616\" ignoré (entier attendu)"⟩] ∧
      Made s ∧ s.places ≤ 17 ∧ 1 ≤ s.historyLimit ∧ s.historyLimit ≤ 10000 := by
  intro env s
  have hplaces : Gives env placesVariable IsCount 18446744073709551615 :=
    (gives_iff readCount_eq_some_iff).mpr (by decide +kernel)
  have hlimit : ∀ n, ¬ Gives env historyVariable IsCount n := by
    intro n h
    have hnone : (env historyVariable).bind readCount = none := by decide +kernel
    rw [gives_iff readCount_eq_some_iff, hnone] at h
    cases h
  have hlevel : Gives env levelVariable IsThreshold (some .debug) :=
    (gives_iff (readThreshold_eq_some_iff LevelFilter.standard_documented)).mpr (by decide +kernel)
  have hpath : ∀ p, ¬ Gives env fileVariable IsPath p := by
    intro p h
    have hnone : (env fileVariable).bind readPath = none := by decide +kernel
    rw [gives_iff readPath_eq_some_iff, hnone] at h
    cases h
  obtain ⟨hfollows, ⟨a, b, c, hwarnings, ha, hb, hc⟩, -, hbounds⟩ :=
    ofVariables_field_by_field LevelFilter.standard_documented env
  have hmade : Made s := ((Made.read .standard env).setPlaces 500).setHistoryLimit 0
  have hown := (hfollows _).mpr rfl
  have hseventeen : (ofVariables .standard env).places = 17 := hown.places.1 _ hplaces
  refine ⟨hplaces, hlimit, hlevel, hpath, hseventeen, hown.historyLimit.2 hlimit,
    hown.threshold.1 _ hlevel, hown.logFile.2 hpath, ?_, hmade, hbounds s hmade⟩
  rw [hwarnings, ha.2 (.inr ⟨_, hplaces⟩), hb.1 _ rfl hlimit, hc.2 (.inr ⟨_, hlevel⟩)]
  decide +kernel

end DeskCalculator.Settings
