import Mathlib.Data.List.DropRight
import DeskCalculator.Text.Blank

/-! # Trimmed texts

A text loses the blanks around it and nothing else, and what is left has no blank at an end. Only one part of a
text is like that.
-/
namespace DeskCalculator.Text

variable {cs : List Char}

theorem isBlank_head_dropWhile : ∀ c ∈ (cs.dropWhile isBlank).head?, isBlank c = false := by
  intro c hc
  have hnot := List.head?_dropWhile_not isBlank cs
  rwa [Option.mem_def.mp hc] at hnot

theorem dropWhile_eq_self (h : ∀ c ∈ cs.head?, isBlank c = false) : cs.dropWhile isBlank = cs := by
  cases cs with
  | nil => rfl
  | cons c cs => rw [List.dropWhile_cons, h c rfl, if_neg Bool.false_ne_true]

theorem rdropWhile_eq_self (h : ∀ c ∈ cs.getLast?, isBlank c = false) : cs.rdropWhile isBlank = cs := by
  rw [← List.head?_reverse] at h
  rw [List.rdropWhile, dropWhile_eq_self h, List.reverse_reverse]

theorem rdropWhile_append {after : List Char} (h : ∀ c ∈ after, isBlank c = true) :
    (cs ++ after).rdropWhile isBlank = cs.rdropWhile isBlank := by
  have hafter : ∀ c ∈ after.reverse, isBlank c = true := fun c hc => h c (List.mem_reverse.mp hc)
  rw [List.rdropWhile, List.rdropWhile, List.reverse_append, List.dropWhile_append_of_pos hafter]

theorem head?_of_rdropWhile {c : Char} (h : (cs.rdropWhile isBlank).head? = some c) :
    cs.head? = some c := by
  obtain ⟨rest, hrest⟩ := List.head?_eq_some_iff.mp h
  obtain ⟨after, hafter⟩ := List.rdropWhile_prefix isBlank cs
  rw [← hafter, hrest, List.cons_append, List.head?_cons]

structure IsTrimmed (text part : String) : Prop where
  within : ∃ before after, text.toList = before ++ part.toList ++ after ∧
    (∀ c ∈ before, isBlank c = true) ∧ ∀ c ∈ after, isBlank c = true
  head : ∀ c ∈ part.toList.head?, isBlank c = false
  last : ∀ c ∈ part.toList.getLast?, isBlank c = false

theorem toList_trim (s : String) :
    (trim s).toList = (s.toList.dropWhile isBlank).rdropWhile isBlank :=
  String.toList_ofList

theorem isTrimmed_trim (s : String) : IsTrimmed s (trim s) := by
  constructor
  · refine ⟨s.toList.takeWhile isBlank, (s.toList.dropWhile isBlank).rtakeWhile isBlank, ?_,
      fun c => List.mem_takeWhile_imp, fun c => List.mem_rtakeWhile_imp⟩
    rw [toList_trim, List.append_assoc, List.rdropWhile_append_rtakeWhile,
      List.takeWhile_append_dropWhile]
  · intro c hc
    rw [toList_trim] at hc
    exact isBlank_head_dropWhile c (head?_of_rdropWhile hc)
  · intro c hc
    rw [toList_trim, List.rdropWhile, List.getLast?_reverse] at hc
    exact isBlank_head_dropWhile c hc

theorem IsTrimmed.trim_eq {text part : String} (h : IsTrimmed text part) : trim text = part := by
  obtain ⟨before, after, htext, hbefore, hafter⟩ := h.within
  rw [← String.toList_inj, toList_trim, htext, List.append_assoc,
    List.dropWhile_append_of_pos hbefore]
  cases hpart : part.toList with
  | nil => rw [List.nil_append, List.dropWhile_eq_nil_iff.mpr hafter, List.rdropWhile_nil]
  | cons c cs =>
    have hhead : ∀ d ∈ (c :: cs ++ after).head?, isBlank d = false := by
      have hhead := h.head
      rwa [hpart] at hhead
    have hlast := h.last
    rw [hpart] at hlast
    rw [dropWhile_eq_self hhead, rdropWhile_append hafter, rdropWhile_eq_self hlast]

theorem isTrimmed_iff {text part : String} : IsTrimmed text part ↔ trim text = part :=
  ⟨IsTrimmed.trim_eq, fun h => h ▸ isTrimmed_trim text⟩

end DeskCalculator.Text
