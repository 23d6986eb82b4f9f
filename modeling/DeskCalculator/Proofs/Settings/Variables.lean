import Mathlib.Logic.Function.Basic
import DeskCalculator.Settings

/-! # What the variables say

Each variable decides one field of the settings and no other: its text where that can be read, and the
default where it cannot or where there is none.
-/
namespace DeskCalculator.Settings

variable (filter : LevelFilter)

/-- Every field by its own variable. -/
theorem ofVariables_eq (env : String → Option String) : ofVariables filter env = {
    places := ((env placesVariable).bind readCount).elim ({} : Settings).places (min · maxPlaces)
    historyLimit := ((env historyVariable).bind readCount).elim ({} : Settings).historyLimit
      fun n => max 1 (min n maxHistory)
    threshold := ((env levelVariable).bind (readThreshold filter)).getD ({} : Settings).threshold
    logFile := (env fileVariable).bind readPath } := by
  unfold ofVariables
  cases (env placesVariable).bind readCount <;> cases (env historyVariable).bind readCount <;>
    cases (env levelVariable).bind (readThreshold filter) <;> rfl

/-- Whatever becomes of one variable, only its own field changes. -/
theorem ofVariables_update (env : String → Option String) (text : Option String) :
    (∃ n, ofVariables filter (Function.update env placesVariable text) =
        { ofVariables filter env with places := n }) ∧
      (∃ n, ofVariables filter (Function.update env historyVariable text) =
        { ofVariables filter env with historyLimit := n }) ∧
      (∃ t, ofVariables filter (Function.update env levelVariable text) =
        { ofVariables filter env with threshold := t }) ∧
      ∃ p, ofVariables filter (Function.update env fileVariable text) =
        { ofVariables filter env with logFile := p } := by
  have hph : placesVariable ≠ historyVariable := by decide
  have hpl : placesVariable ≠ levelVariable := by decide
  have hpf : placesVariable ≠ fileVariable := by decide
  have hhl : historyVariable ≠ levelVariable := by decide
  have hhf : historyVariable ≠ fileVariable := by decide
  have hlf : levelVariable ≠ fileVariable := by decide
  simp only [ofVariables_eq]
  refine ⟨⟨(text.bind readCount).elim ({} : Settings).places (min · maxPlaces), ?_⟩,
    ⟨(text.bind readCount).elim ({} : Settings).historyLimit fun n => max 1 (min n maxHistory), ?_⟩,
    ⟨(text.bind (readThreshold filter)).getD ({} : Settings).threshold, ?_⟩, ⟨text.bind readPath, ?_⟩⟩
  · rw [Function.update_self, Function.update_of_ne hph.symm, Function.update_of_ne hpl.symm,
      Function.update_of_ne hpf.symm]
  · rw [Function.update_of_ne hph, Function.update_self, Function.update_of_ne hhl.symm,
      Function.update_of_ne hhf.symm]
  · rw [Function.update_of_ne hpl, Function.update_of_ne hhl, Function.update_self,
      Function.update_of_ne hlf.symm]
  · rw [Function.update_of_ne hpf, Function.update_of_ne hhf, Function.update_of_ne hlf,
      Function.update_self]

/-- Without its variable there is no log file, and nothing else changes. -/
theorem ofVariables_update_file (env : String → Option String) :
    ofVariables filter (Function.update env fileVariable none) =
      { ofVariables filter env with logFile := none } := by
  have hplaces : placesVariable ≠ fileVariable := by decide
  have hhistory : historyVariable ≠ fileVariable := by decide
  have hlevel : levelVariable ≠ fileVariable := by decide
  rw [ofVariables_eq, ofVariables_eq, Function.update_self, Function.update_of_ne hplaces,
    Function.update_of_ne hhistory, Function.update_of_ne hlevel]
  rfl

/-- The path of a log file is the text of its variable, trimmed, if anything is left. -/
theorem logFile_ofVariables {env : String → Option String} {text : String}
    (h : env fileVariable = some text) (hne : Text.trim text ≠ "") :
    (ofVariables filter env).logFile = some (Text.trim text) := by
  have hread : readPath text = some (Text.trim text) := by
    simp [readPath, hne]
  rw [ofVariables_eq]
  simp only [h, Option.bind_some, hread]

end DeskCalculator.Settings
