import DeskCalculator.Proofs.Settings.Variables

/-! # Settings in bounds

Settings are made of variables and changed by `setPlaces` and `setHistoryLimit`. Whatever the numbers in
them are, places and history limit end up in their bounds.
-/
namespace DeskCalculator.Settings

inductive Made : Settings → Prop
  | read (filter : LevelFilter) (env : String → Option String) : Made (ofVariables filter env)
  | setPlaces {s : Settings} (h : Made s) (n : Nat) : Made (s.setPlaces n)
  | setHistoryLimit {s : Settings} (h : Made s) (n : Nat) : Made (s.setHistoryLimit n)

theorem Made.places_le {s : Settings} (h : Made s) : s.places ≤ maxPlaces := by
  induction h with
  | read filter env =>
    have hplaces : (ofVariables filter env).places =
        ((env placesVariable).bind readCount).elim 6 (min · maxPlaces) := by
      rw [ofVariables_eq]
    rw [hplaces]
    cases (env placesVariable).bind readCount with
    | none => decide
    | some n => exact Nat.min_le_right n maxPlaces
  | setPlaces _ n => exact Nat.min_le_right n maxPlaces
  | setHistoryLimit _ _ ih => exact ih

theorem Made.historyLimit_mem {s : Settings} (h : Made s) :
    1 ≤ s.historyLimit ∧ s.historyLimit ≤ maxHistory := by
  have hset : ∀ n, 1 ≤ max 1 (min n maxHistory) ∧ max 1 (min n maxHistory) ≤ maxHistory := by
    intro n
    simp only [maxHistory]
    omega
  induction h with
  | read filter env =>
    have hlimit : (ofVariables filter env).historyLimit =
        ((env historyVariable).bind readCount).elim 100 fun n => max 1 (min n maxHistory) := by
      rw [ofVariables_eq]
    rw [hlimit]
    cases (env historyVariable).bind readCount with
    | none => decide
    | some n => exact hset n
  | setPlaces _ _ ih => exact ih
  | setHistoryLimit _ n => exact hset n

end DeskCalculator.Settings
