import Mathlib.Data.List.Forall2
import DeskCalculator.Journal

/-! # Levels as documented

All that is used of the logging library about levels: it reads the names of thresholds in any case, and a record
passes a threshold that is not more serious than its level. The standard filter does so.
-/
namespace DeskCalculator

/-- The name of the threshold, each letter either capital or small. -/
def IsThreshold (t : Threshold) (text : String) : Prop :=
  List.Forall₂ (fun c d => c = d ∨ c = d.toLower) text.toList t.name.toList

structure LevelFilter.Documented (filter : LevelFilter) : Prop where
  read_eq_some_iff : ∀ {text t}, filter.read text = some t ↔ IsThreshold t text
  passes_iff : ∀ {t} {l : Level}, filter.passes t l = true ↔ ∃ m, t = some m ∧ l.rank ≤ m.rank

section reading

theorem toUpper_eq_iff {c d : Char} (hd : d.isUpper = true) :
    c.toUpper = d ↔ c = d ∨ c = d.toLower := by
  have hval : ∀ {x y : Char}, x = y ↔ x.val.toNat = y.val.toNat := by
    intro x y
    rw [← Char.val_inj, UInt32.toNat_inj]
  have hupper : 'A'.val ≤ d.val ∧ d.val ≤ 'Z'.val := of_decide_eq_true hd
  have hlower := congrArg Char.val (show d.toLower = _ from dif_pos hupper)
  rw [hval, hval, hval, hlower]
  by_cases hc : 'a'.val ≤ c.val ∧ c.val ≤ 'z'.val
  · have hcapital := congrArg Char.val (show c.toUpper = _ from dif_pos hc)
    rw [hcapital]
    simp only [UInt32.le_iff_toNat_le, Char.reduceVal, UInt32.toNat_add, UInt32.toNat_sub,
      UInt32.reduceToNat] at hc hupper ⊢
    omega
  · have hsame : c.toUpper = c := dif_neg hc
    rw [hsame]
    simp only [UInt32.le_iff_toNat_le, Char.reduceVal, UInt32.toNat_add, UInt32.toNat_sub,
      UInt32.reduceToNat] at hc hupper ⊢
    omega

theorem map_toUpper_eq_iff {cs ds : List Char} (hds : ∀ d ∈ ds, d.isUpper = true) :
    cs.map Char.toUpper = ds ↔ List.Forall₂ (fun c d => c = d ∨ c = d.toLower) cs ds := by
  induction ds generalizing cs with
  | nil => simp
  | cons d ds ih =>
    obtain ⟨hd, hds⟩ := List.forall_mem_cons.mp hds
    cases cs with
    | nil => simp
    | cons c cs => rw [List.map_cons, List.cons.injEq, List.forall₂_cons, toUpper_eq_iff hd, ih hds]

end reading

namespace Threshold
variable {t u : Threshold}

theorem isUpper_of_mem_name (t : Threshold) : ∀ d ∈ t.name.toList, d.isUpper = true := by
  apply List.all_eq_true.mp
  cases t with
  | none => decide
  | some l => cases l <;> decide

theorem mem_all (t : Threshold) : t ∈ none :: Level.all.map some := by
  cases t with
  | none => decide
  | some l => cases l <;> decide

theorem name_injective (h : t.name = u.name) : t = u := by
  have hall : ∀ t ∈ none :: Level.all.map some, ∀ u ∈ none :: Level.all.map some,
      name t = name u → t = u := by decide
  exact hall t (mem_all t) u (mem_all u) h

end Threshold

namespace LevelFilter

theorem standard_read_eq_some_iff {text : String} {t : Threshold} :
    standard.read text = some t ↔ IsThreshold t text := by
  have hname : ∀ {u}, standard.read text = some u → u.name.toList = text.toList.map Char.toUpper := by
    intro u h
    simpa using List.find?_some h
  have hmap : text.toList.map Char.toUpper = t.name.toList ↔ IsThreshold t text :=
    map_toUpper_eq_iff t.isUpper_of_mem_name
  constructor
  · intro h
    exact hmap.mp (hname h).symm
  · intro h
    cases hread : standard.read text with
    | none =>
      have hne := List.find?_eq_none.mp hread t t.mem_all
      rw [hmap.mpr h] at hne
      simp at hne
    | some u =>
      have hsame : u.name = t.name := String.toList_inj.mp ((hname hread).trans (hmap.mpr h))
      rw [Threshold.name_injective hsame]

theorem standard_documented : standard.Documented where
  read_eq_some_iff := standard_read_eq_some_iff
  passes_iff {t l} := by
    cases t with
    | none => simp [standard]
    | some m => simp [standard]

end LevelFilter

section kept
variable {filter : LevelFilter} (h : filter.Documented) (rs : List Record)
include h

theorem Record.kept_none : Record.kept filter none rs = [] := by
  refine List.filter_eq_nil_iff.mpr ?_
  intro r _ hr
  obtain ⟨m, hm, -⟩ := h.passes_iff.mp hr
  cases hm

theorem Record.kept_trace : Record.kept filter (some .trace) rs = rs := by
  refine List.filter_eq_self.mpr ?_
  intro r _
  refine h.passes_iff.mpr ⟨.trace, rfl, ?_⟩
  cases r.level <;> decide

/-- The records of a threshold are those of its level and of the more serious ones. -/
theorem Record.kept_eq_filter (t : Threshold) :
    Record.kept filter t rs = rs.filter fun r => t.any fun l => r.level.rank ≤ l.rank := by
  refine List.filter_congr fun r _ => ?_
  rw [Bool.eq_iff_iff, h.passes_iff]
  cases t with
  | none => simp
  | some l => simp

end kept

end DeskCalculator
