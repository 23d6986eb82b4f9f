import DeskCalculator.Text.Blank
import DeskCalculator.Text.Lowercase

/-! # Where lower case leads

A range of the table is moved as a whole. Where it ends up there are characters, none of them is blank, and
none has another lower case. Of the characters beyond ASCII only two have ASCII in their lower case, the
Kelvin sign and the capital `I` with a dot.
-/
namespace DeskCalculator.Text

section sets
variable {s : CharSet} {c : Char} {low high : Nat}

/-- No code point from `low` to `high` belongs to the set: `low` does not, and membership does not change. -/
def CharSet.Misses (s : CharSet) (low high : Nat) : Prop :=
  (s.changes.takeWhile (· ≤ low)).length % 2 = 0 ∧ ∀ n ∈ s.changes, n ≤ low ∨ high < n

instance (s : CharSet) (low high : Nat) : Decidable (s.Misses low high) :=
  inferInstanceAs (Decidable (_ ∧ _))

theorem takeWhile_le_eq {changes : List Nat} (h : ∀ n ∈ changes, n ≤ low ∨ high < n) {m : Nat}
    (hlow : low ≤ m) (hhigh : m ≤ high) :
    changes.takeWhile (· ≤ m) = changes.takeWhile (· ≤ low) := by
  induction changes with
  | nil => rfl
  | cons n changes ih =>
    obtain ⟨hn, hchanges⟩ := List.forall_mem_cons.mp h
    have hiff : n ≤ m ↔ n ≤ low := by omega
    simp only [List.takeWhile_cons, hiff, ih hchanges]

theorem CharSet.Misses.contains_eq_false (h : s.Misses low high) (hlow : low ≤ c.toNat)
    (hhigh : c.toNat ≤ high) : s.contains c = false := by
  rw [CharSet.contains, takeWhile_le_eq h.2 hlow hhigh, h.1]
  rfl

end sets

section ranges
variable {r q : CaseRange} {n : Nat}

def CaseRange.lowFirst (r : CaseRange) : Nat := (r.first + r.shift).toNat

def CaseRange.lowLast (r : CaseRange) : Nat := (r.last + r.shift).toNat

theorem CaseRange.contains_eq_true_iff : r.contains n = true ↔
    r.first ≤ n ∧ n ≤ r.last ∧ (n - r.first) % r.stride = 0 := by
  simp [contains, and_assoc]

def CaseRange.avoids (r q : CaseRange) : Bool :=
  Nat.blt r.lowLast q.first || Nat.blt q.last r.lowFirst ||
    Nat.beq (q.stride % 2) 0 && (Nat.beq r.first r.last || Nat.beq (r.stride % 2) 0) &&
      Nat.beq ((r.lowFirst + q.first) % 2) 1

theorem CaseRange.avoids_eq_true_iff : r.avoids q = true ↔
    (r.lowLast < q.first ∨ q.last < r.lowFirst) ∨
      (q.stride % 2 = 0 ∧ (r.first = r.last ∨ r.stride % 2 = 0)) ∧ (r.lowFirst + q.first) % 2 = 1 := by
  simp only [avoids, Bool.or_eq_true, Bool.and_eq_true, Nat.blt_eq, Nat.beq_eq]

theorem even_of_mod_eq_zero {m stride : Nat} (hstride : stride % 2 = 0) (h : m % stride = 0) : m % 2 = 0 :=
  Nat.mod_eq_zero_of_dvd (Nat.dvd_trans (Nat.dvd_of_mod_eq_zero hstride) (Nat.dvd_of_mod_eq_zero h))

/-- What a range is moved to stays in its order. -/
theorem CaseRange.low_mem (hn : r.contains n = true) :
    r.lowFirst ≤ (n + r.shift).toNat ∧ (n + r.shift).toNat ≤ r.lowLast := by
  obtain ⟨hfirst, hlast, -⟩ := contains_eq_true_iff.mp hn
  rw [lowFirst, lowLast]
  omega

theorem CaseRange.contains_eq_false_of_avoids (h : r.avoids q = true) (hshift : 0 ≤ r.first + r.shift)
    (hn : r.contains n = true) : q.contains (n + r.shift).toNat = false := by
  obtain ⟨hlow, hhigh⟩ := low_mem hn
  obtain ⟨hfirst, hlast, hstride⟩ := contains_eq_true_iff.mp hn
  rw [Bool.eq_false_iff, ne_eq, contains_eq_true_iff]
  rintro ⟨hqfirst, hqlast, hqstride⟩
  rcases avoids_eq_true_iff.mp h with (h | h) | ⟨⟨hqeven, heven⟩, hodd⟩
  · omega
  · omega
  · have hq := even_of_mod_eq_zero hqeven hqstride
    have hr : (n - r.first) % 2 = 0 := by
      rcases heven with hsingle | heven
      · omega
      · exact even_of_mod_eq_zero heven hstride
    rw [lowFirst] at hodd
    omega

end ranges

section table

def dotted : CaseRange := ⟨0x130, 0x130, 1, 0⟩

theorem shift_nonneg : ∀ r ∈ caseRanges, 0 ≤ r.first + r.shift := by decide +kernel

theorem isValid_low : ∀ r ∈ caseRanges,
    r.lowLast < 0xd800 ∨ 0xdfff < r.lowFirst ∧ r.lowLast < 0x110000 := by decide +kernel

theorem blanks_misses : ∀ r ∈ caseRanges, blanks.Misses r.lowFirst r.lowLast := by decide +kernel

theorem avoids_caseRanges :
    (caseRanges.all fun r => (dotted :: caseRanges).all r.avoids) = true := by decide +kernel

/-- Two ranges end up in ASCII, the capital letters and the Kelvin sign. -/
theorem low_ascii : ∀ r ∈ caseRanges, 128 ≤ r.lowFirst ∨
    r.first = 65 ∧ r.last = 90 ∧ r.shift = 32 ∨
    r.first = 0x212a ∧ r.last = 0x212a ∧ r.shift = -8383 := by decide +kernel

end table

section characters
variable {c d : Char}

theorem shiftCase_eq_self (h : ∀ r ∈ caseRanges, r.contains c.toNat = false) : shiftCase c = c := by
  have hnone : caseRanges.find? (·.contains c.toNat) = none := by
    rw [List.find?_eq_none]
    intro r hr
    rw [h r hr]
    exact Bool.false_ne_true
  rw [shiftCase, hnone]

theorem toNat_ofNat_of_isValid {n : Nat} (h : n < 0xd800 ∨ 0xdfff < n ∧ n < 0x110000) :
    (Char.ofNat n).toNat = n := by
  rw [Char.ofNat, dif_pos h]
  rfl

/-- A character stays, or a range of the table moves it. -/
theorem shiftCase_cases (c : Char) : shiftCase c = c ∨
    ∃ r ∈ caseRanges, r.contains c.toNat = true ∧ (shiftCase c).toNat = (c.toNat + r.shift).toNat := by
  cases hfind : caseRanges.find? (·.contains c.toNat) with
  | none =>
    refine .inl (shiftCase_eq_self ?_)
    intro r hr
    exact Bool.eq_false_iff.mpr (List.find?_eq_none.mp hfind r hr)
  | some r =>
    have hr := List.mem_of_find?_eq_some hfind
    have hc := List.find?_some (p := fun q : CaseRange => q.contains c.toNat) hfind
    obtain ⟨hlow, hhigh⟩ := CaseRange.low_mem hc
    refine .inr ⟨r, hr, hc, ?_⟩
    rw [shiftCase, hfind]
    apply toNat_ofNat_of_isValid
    have := isValid_low r hr
    omega

theorem lowercase_of_ne (h : c ≠ '\u0130') : lowercase c = [shiftCase c] := if_neg h

theorem avoids_of_mem {r q : CaseRange} (hr : r ∈ caseRanges) (hq : q ∈ dotted :: caseRanges) :
    r.avoids q = true :=
  List.all_eq_true.mp (List.all_eq_true.mp avoids_caseRanges r hr) q hq

/-- A character that has been lowered stays as it is. -/
theorem lowercase_shiftCase (h : c ≠ '\u0130') : lowercase (shiftCase c) = [shiftCase c] := by
  rcases shiftCase_cases c with hc | ⟨r, hr, hc, hlow⟩
  · rw [hc, lowercase_of_ne h, hc]
  · have hstay : ∀ q ∈ dotted :: caseRanges, q.contains (shiftCase c).toNat = false := by
      intro q hq
      rw [hlow]
      exact CaseRange.contains_eq_false_of_avoids (avoids_of_mem hr hq) (shift_nonneg r hr) hc
    have hne : shiftCase c ≠ '\u0130' := by
      intro hdotted
      have := hstay dotted List.mem_cons_self
      rw [hdotted] at this
      cases this
    rw [lowercase_of_ne hne, shiftCase_eq_self fun q hq => hstay q (List.mem_cons_of_mem _ hq)]

theorem isBlank_shiftCase (h : isBlank c = false) : isBlank (shiftCase c) = false := by
  rcases shiftCase_cases c with hc | ⟨r, hr, hc, hlow⟩
  · rwa [hc]
  · obtain ⟨hfirst, hlast⟩ := CaseRange.low_mem hc
    exact (blanks_misses r hr).contains_eq_false (hlow ▸ hfirst) (hlow ▸ hlast)

/-- What lowering leads to is not blank and is lower case. -/
theorem of_mem_lowercase (hc : isBlank c = false) (hd : d ∈ lowercase c) :
    isBlank d = false ∧ lowercase d = [d] := by
  by_cases hdotted : c = '\u0130'
  · have hall : ((lowercase '\u0130').all fun d => !isBlank d && lowercase d == [d]) = true := by
      decide +kernel
    have := List.all_eq_true.mp hall d (hdotted ▸ hd)
    simpa using this
  · rw [lowercase_of_ne hdotted, List.mem_singleton] at hd
    subst hd
    exact ⟨isBlank_shiftCase hc, lowercase_shiftCase hdotted⟩

/-- ASCII is the lower case of ASCII, of the Kelvin sign and of the capital `I` with a dot. -/
theorem of_mem_lowercase_ascii (hd : d ∈ lowercase c) (hascii : d.toNat < 128) :
    d = c ∨ (65 ≤ c.toNat ∧ c.toNat ≤ 90 ∧ d.toNat = c.toNat + 32) ∨
      c = '\u212a' ∧ d = 'k' ∨ c = '\u0130' := by
  by_cases hdotted : c = '\u0130'
  · exact .inr (.inr (.inr hdotted))
  · rw [lowercase_of_ne hdotted, List.mem_singleton] at hd
    subst hd
    rcases shiftCase_cases c with hc | ⟨r, hr, hc, hlow⟩
    · exact .inl hc
    · obtain ⟨hfirst, hlast, -⟩ := CaseRange.contains_eq_true_iff.mp hc
      obtain ⟨hlow', -⟩ := CaseRange.low_mem hc
      rcases low_ascii r hr with h | ⟨h, h', hshift⟩ | ⟨h, h', hshift⟩
      · omega
      · exact .inr (.inl (by omega))
      · have hkelvin : c.toNat = ('\u212a' : Char).toNat := by
          change c.toNat = 0x212a
          omega
        have hk : (shiftCase c).toNat = ('k' : Char).toNat := by
          change (shiftCase c).toNat = 107
          omega
        exact .inr (.inr (.inl ⟨Char.toNat_inj.mp hkelvin, Char.toNat_inj.mp hk⟩))

end characters
end DeskCalculator.Text
