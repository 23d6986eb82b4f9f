import Mathlib.Data.List.Induction
import DeskCalculator.Proofs.Number.Fraction

/-! # Plain spellings

A number has one spelling without needless characters: no zero begins its whole part unless this is `0`, and a
fraction, if there is one, is not empty and ends in no zero. `plain` writes this spelling. Its significant
digits, from the first to the last that is no zero, are the number but for a power of ten.
-/
namespace DeskCalculator.Decimal

section digits
variable {digits a b f g : List Char}

theorem digitChar_toNat_sub {c : Char} (h : c.isDigit = true) : Nat.digitChar (c.toNat - '0'.toNat) = c := by
  have hdigit := Char.isDigit_iff_toNat.mp h
  change 48 ≤ c.toNat ∧ c.toNat ≤ 57 at hdigit
  change Nat.digitChar (c.toNat - 48) = c
  apply Char.toNat_inj.mp
  rw [Nat.toNat_digitChar_of_lt_ten (by omega)]
  omega

theorem toNat_sub_lt {c : Char} (h : c.isDigit = true) : c.toNat - '0'.toNat < 10 := by
  have hdigit := Char.isDigit_iff_toNat.mp h
  change 48 ≤ c.toNat ∧ c.toNat ≤ 57 at hdigit
  change c.toNat - 48 < 10
  omega

theorem ofDigitChars_lt (hd : ∀ c ∈ digits, c.isDigit = true) :
    Nat.ofDigitChars 10 digits 0 < 10 ^ digits.length := by
  induction digits using List.reverseRecOn with
  | nil => simp
  | append_singleton digits c ih =>
    obtain ⟨hd, hc⟩ := List.forall_mem_append.mp hd
    have hlt := toNat_sub_lt (hc c List.mem_cons_self)
    have ih := ih hd
    rw [ofDigitChars_concat, List.length_append, List.length_singleton, Nat.pow_succ]
    omega

/-- Behind the digits of a positive number further digits are those of what is read. -/
theorem toDigits_ofDigitChars_of_pos (hd : ∀ c ∈ digits, c.isDigit = true) {n : Nat} (hn : 0 < n) :
    Nat.toDigits 10 (Nat.ofDigitChars 10 digits n) = Nat.toDigits 10 n ++ digits := by
  induction digits generalizing n with
  | nil => simp
  | cons c cs ih =>
    obtain ⟨hc, hcs⟩ := List.forall_mem_cons.mp hd
    have hlt := toNat_sub_lt hc
    have hstep := Nat.toDigits_append_toDigits (by norm_num : 1 < 10) hn hlt
    rw [Nat.toDigits_of_lt_base hlt, digitChar_toNat_sub hc] at hstep
    rw [Nat.ofDigitChars_cons, ih hcs (by omega), ← hstep, List.append_assoc, List.singleton_append]

/-- Digits without a needless zero in front are those of their number. -/
theorem toDigits_ofDigitChars (hd : ∀ c ∈ digits, c.isDigit = true) (hne : digits ≠ [])
    (hzero : digits.head? = some '0' → digits = ['0']) :
    Nat.toDigits 10 (Nat.ofDigitChars 10 digits 0) = digits := by
  obtain ⟨c, cs, rfl⟩ := List.exists_cons_of_ne_nil hne
  obtain ⟨hc, hcs⟩ := List.forall_mem_cons.mp hd
  by_cases h0 : c = '0'
  · rw [hzero (congrArg some h0)]
    rfl
  · have hpos : 0 < c.toNat - '0'.toNat := by
      rw [Nat.pos_iff_ne_zero]
      intro hsub
      have hchar := digitChar_toNat_sub hc
      rw [hsub] at hchar
      exact h0 hchar.symm
    rw [Nat.ofDigitChars_cons, Nat.mul_zero, Nat.zero_add, toDigits_ofDigitChars_of_pos hcs hpos,
      Nat.toDigits_of_lt_base (toNat_sub_lt hc), digitChar_toNat_sub hc, List.singleton_append]

/-- The digits of a number have no needless zero in front: without it they would be fewer. -/
theorem toDigits_eq_of_head? {n : Nat} (h : (Nat.toDigits 10 n).head? = some '0') :
    Nat.toDigits 10 n = ['0'] := by
  obtain ⟨rest, hrest⟩ := List.head?_eq_some_iff.mp h
  by_cases hne : rest = []
  · rw [hrest, hne]
  · exfalso
    have hd : ∀ c ∈ rest, c.isDigit = true := by
      intro c hc
      exact isDigit_of_mem_toDigits (hrest ▸ List.mem_cons_of_mem '0' hc)
    have hn : Nat.ofDigitChars 10 rest 0 = n := by
      have hread := Nat.ofDigitChars_ten_toDigits (n := n)
      rwa [hrest, Nat.ofDigitChars_cons] at hread
    have hle := (Nat.length_toDigits_le_iff (by norm_num) (List.length_pos_iff.mpr hne)).mpr
      (hn ▸ ofDigitChars_lt hd)
    rw [hrest, List.length_cons] at hle
    omega

/-- Digits are zeros and then the digits of their number. -/
theorem exists_eq_replicate_append_toDigits (hd : ∀ c ∈ digits, c.isDigit = true) (hne : digits ≠ []) :
    ∃ k, digits = List.replicate k '0' ++ Nat.toDigits 10 (Nat.ofDigitChars 10 digits 0) := by
  obtain ⟨k, hk⟩ := exists_eq_replicate_append digits
  have hhead : (digits.dropWhile (· == '0')).head? ≠ some '0' := by
    intro h
    have hnot := List.head?_dropWhile_not (· == '0') digits
    rw [h] at hnot
    exact absurd hnot (by decide)
  generalize digits.dropWhile (· == '0') = rest at hk hhead
  have hread : Nat.ofDigitChars 10 digits 0 = Nat.ofDigitChars 10 rest 0 := by
    rw [hk, Nat.ofDigitChars_append, Nat.ofDigitChars_replicate_zero, Nat.mul_zero]
  rw [hread]
  by_cases hrest : rest = []
  · -- There is nothing but zeros, and the last of them is the number.
    obtain rfl := hrest
    rw [List.append_nil] at hk
    have hpos : k ≠ 0 := by
      rintro rfl
      exact hne hk
    obtain ⟨j, rfl⟩ := Nat.exists_eq_succ_of_ne_zero hpos
    refine ⟨j, ?_⟩
    rw [hk, Nat.ofDigitChars_nil, Nat.toDigits_zero, List.replicate_succ']
  · have hdigits : ∀ c ∈ rest, c.isDigit = true := by
      intro c hc
      exact hd c (hk ▸ List.mem_append_right _ hc)
    refine ⟨k, ?_⟩
    rw [toDigits_ofDigitChars hdigits hrest fun h => absurd h hhead]
    exact hk

theorem ofDigitChars_eq_iff {n : Nat} :
    (digits ≠ [] ∧ (∀ c ∈ digits, c.isDigit = true) ∧ Nat.ofDigitChars 10 digits 0 = n) ↔
      ∃ k, digits = List.replicate k '0' ++ Nat.toDigits 10 n := by
  constructor
  · rintro ⟨hne, hd, rfl⟩
    exact exists_eq_replicate_append_toDigits hd hne
  · rintro ⟨k, rfl⟩
    refine ⟨List.append_ne_nil_of_right_ne_nil _ Nat.toDigits_ne_nil, ?_, ?_⟩
    · intro c hc
      rcases List.mem_append.mp hc with hc | hc
      · rw [List.eq_of_mem_replicate hc]
        rfl
      · exact isDigit_of_mem_toDigits hc
    · rw [Nat.ofDigitChars_append, Nat.ofDigitChars_replicate_zero, Nat.mul_zero,
        Nat.ofDigitChars_ten_toDigits]

/-- As many last digits of the same number are the same. -/
theorem eq_of_ofDigitChars_append (hf : ∀ c ∈ f, c.isDigit = true) (hg : ∀ c ∈ g, c.isDigit = true)
    (hlength : f.length = g.length)
    (h : Nat.ofDigitChars 10 (a ++ f) 0 = Nat.ofDigitChars 10 (b ++ g) 0) :
    f = g ∧ Nat.ofDigitChars 10 a 0 = Nat.ofDigitChars 10 b 0 := by
  induction f using List.reverseRecOn generalizing g with
  | nil =>
    obtain rfl := List.length_eq_zero_iff.mp hlength.symm
    rw [List.append_nil, List.append_nil] at h
    exact ⟨rfl, h⟩
  | append_singleton f c ih =>
    have hne : g ≠ [] := by
      rintro rfl
      simp at hlength
    obtain ⟨g, e, rfl⟩ := (List.eq_nil_or_concat g).resolve_left hne
    rw [List.concat_eq_append] at hg hlength h ⊢
    obtain ⟨hf, hc⟩ := List.forall_mem_append.mp hf
    obtain ⟨hg, he⟩ := List.forall_mem_append.mp hg
    have hc := hc c List.mem_cons_self
    have he := he e List.mem_cons_self
    have hclt := toNat_sub_lt hc
    have helt := toNat_sub_lt he
    rw [← List.append_assoc, ← List.append_assoc, ofDigitChars_concat, ofDigitChars_concat] at h
    obtain ⟨rfl, hvalue⟩ := ih hf hg (by simpa using hlength) (by omega)
    have hdigit : c = e := by
      rw [← digitChar_toNat_sub hc, ← digitChar_toNat_sub he]
      congr 1
      omega
    rw [hdigit]
    exact ⟨rfl, hvalue⟩

end digits

/-- A text is a whole part and a fraction in plain spelling; without a fraction there is no point. -/
structure Spells (cs whole fraction : List Char) : Prop where
  eq_append : cs = whole ++ if fraction.isEmpty then [] else '.' :: fraction
  whole_ne_nil : whole ≠ []
  isDigit_whole : ∀ c ∈ whole, c.isDigit = true
  isDigit_fraction : ∀ c ∈ fraction, c.isDigit = true
  leading : whole.head? = some '0' → whole = ['0']
  trailing : fraction.getLast? ≠ some '0'

section spelling
variable {cs cs' whole whole' fraction fraction' : List Char}

theorem Spells.ofChars_eq (h : Spells cs whole fraction) :
    ofChars cs = ⟨Nat.ofDigitChars 10 (whole ++ fraction) 0, -fraction.length⟩ := by
  rw [h.eq_append]
  cases fraction with
  | nil => simpa using ofChars_whole h.isDigit_whole
  | cons c fraction => exact ofChars_point h.isDigit_whole

theorem Spells.length_fraction_le (h : Spells cs whole fraction) (h' : Spells cs' whole' fraction')
    (hvalue : (ofChars cs).value = (ofChars cs').value) : fraction.length ≤ fraction'.length := by
  by_contra hlt
  have hne : fraction ≠ [] := by
    rintro rfl
    simp at hlt
  have hdigits : ∀ c ∈ whole ++ fraction, c.isDigit = true :=
    List.forall_mem_append.mpr ⟨h.isDigit_whole, h.isDigit_fraction⟩
  have hinteger : (ofChars cs).value * 10 ^ fraction'.length =
      (Nat.ofDigitChars 10 (whole' ++ fraction') 0 : Int) := by
    rw [hvalue, h'.ofChars_eq, value, zpow_neg, zpow_natCast]
    field_simp
    rfl
  rw [h.ofChars_eq] at hinteger
  refine not_ten_dvd_of_getLast? hdigits (by simp [hne]) ?_ (ten_dvd_of_value hinteger (not_le.mp hlt))
  rw [List.getLast?_append_of_ne_nil _ hne]
  exact h.trailing

/-- A number has one plain spelling. -/
theorem Spells.eq_of_value_eq (h : Spells cs whole fraction) (h' : Spells cs' whole' fraction')
    (hvalue : (ofChars cs).value = (ofChars cs').value) : cs = cs' := by
  have hlength : fraction.length = fraction'.length :=
    Nat.le_antisymm (h.length_fraction_le h' hvalue) (h'.length_fraction_le h hvalue.symm)
  have hcoefficient : Nat.ofDigitChars 10 (whole ++ fraction) 0 =
      Nat.ofDigitChars 10 (whole' ++ fraction') 0 := by
    rw [h.ofChars_eq, h'.ofChars_eq, value, value, hlength] at hvalue
    exact_mod_cast mul_right_cancel₀ (zpow_ne_zero _ (by norm_num)) hvalue
  obtain ⟨rfl, hwhole⟩ :=
    eq_of_ofDigitChars_append h.isDigit_fraction h'.isDigit_fraction hlength hcoefficient
  have hwhole : whole = whole' := by
    rw [← toDigits_ofDigitChars h.isDigit_whole h.whole_ne_nil h.leading, hwhole,
      toDigits_ofDigitChars h'.isDigit_whole h'.whole_ne_nil h'.leading]
  rw [h.eq_append, h'.eq_append, hwhole]

theorem spells_toDigits (n : Nat) (hdigits : ∀ c ∈ fraction, c.isDigit = true)
    (htrailing : fraction.getLast? ≠ some '0') :
    Spells (Nat.toDigits 10 n ++ if fraction.isEmpty then [] else '.' :: fraction)
      (Nat.toDigits 10 n) fraction where
  eq_append := rfl
  whole_ne_nil := Nat.toDigits_ne_nil
  isDigit_whole := fun _ hc => isDigit_of_mem_toDigits hc
  isDigit_fraction := hdigits
  leading := toDigits_eq_of_head?
  trailing := htrailing

theorem exists_spells_plain (d : Decimal) : ∃ whole fraction, Spells d.plain whole fraction := by
  simp only [plain]
  split
  · have hspells := @spells_toDigits [] (d.coefficient * Nat.pow 10 d.exponent.toNat) (by simp) (by simp)
    rw [List.isEmpty_nil, if_pos rfl, List.append_nil] at hspells
    exact ⟨_, _, hspells⟩
  · generalize hdigits : padded (-d.exponent).toNat
      (d.coefficient % Nat.pow 10 (-d.exponent).toNat) = digits
    have hpadded : ∀ c ∈ trimmed digits, c.isDigit = true := by
      intro c hc
      exact isDigit_of_mem_trimmed (fun c hc => isDigit_of_mem_padded (hdigits ▸ hc)) hc
    have hspells := spells_toDigits (d.coefficient / Nat.pow 10 (-d.exponent).toNat) hpadded
      (getLast?_trimmed_ne digits)
    split
    case isTrue he =>
      rw [if_pos he, List.append_nil] at hspells
      exact ⟨_, _, hspells⟩
    case isFalse he =>
      rw [if_neg he] at hspells
      exact ⟨_, _, hspells⟩

/-- A plain spelling is what is written for its number, by whatever coefficient and exponent it is given. -/
theorem Spells.eq_plain (h : Spells cs whole fraction) {d : Decimal} (hd : d.value = (ofChars cs).value) :
    cs = d.plain := by
  obtain ⟨whole', fraction', h'⟩ := exists_spells_plain d
  apply h.eq_of_value_eq h'
  rw [value_ofChars_plain, hd]

end spelling

def significant (cs : List Char) : List Char :=
  trimmed ((cs.filter Char.isDigit).dropWhile (· == '0'))

theorem significant_minus (cs : List Char) : significant ('-' :: cs) = significant cs := rfl

/-- But for a power of ten the number is its significant digits. -/
theorem Spells.exists_value_eq {cs whole fraction : List Char} (h : Spells cs whole fraction) :
    ∃ (n : Nat) (k : Int), n < 10 ^ (significant cs).length ∧ (ofChars cs).value = n * 10 ^ k := by
  have hfilter : cs.filter Char.isDigit = whole ++ fraction := by
    have hwhole := List.filter_eq_self.mpr h.isDigit_whole
    have hfraction := List.filter_eq_self.mpr h.isDigit_fraction
    rw [h.eq_append]
    cases fraction with
    | nil => simpa using hwhole
    | cons c fraction => simpa [hwhole] using hfraction
  have hdigits : ∀ c ∈ whole ++ fraction, c.isDigit = true :=
    List.forall_mem_append.mpr ⟨h.isDigit_whole, h.isDigit_fraction⟩
  rw [h.ofChars_eq, significant, hfilter]
  generalize whole ++ fraction = ds at hdigits ⊢
  obtain ⟨i, hi⟩ := exists_eq_replicate_append ds
  obtain ⟨j, hj⟩ := exists_eq_trimmed_append (ds.dropWhile (· == '0'))
  have htrimmed : ∀ c ∈ trimmed (ds.dropWhile (· == '0')), c.isDigit = true := by
    intro c hc
    exact isDigit_of_mem_trimmed (fun c hc => hdigits c ((List.dropWhile_suffix _).subset hc)) hc
  refine ⟨_, j - fraction.length, ofDigitChars_lt htrimmed, ?_⟩
  generalize ds.dropWhile (· == '0') = rest at hi hj
  have hread : Nat.ofDigitChars 10 ds 0 = 10 ^ j * Nat.ofDigitChars 10 (trimmed rest) 0 := by
    calc Nat.ofDigitChars 10 ds 0 = Nat.ofDigitChars 10 rest 0 := by
          rw [hi, Nat.ofDigitChars_append, Nat.ofDigitChars_replicate_zero, Nat.mul_zero]
      _ = Nat.ofDigitChars 10 (trimmed rest ++ List.replicate j '0') 0 := by rw [← hj]
      _ = 10 ^ j * Nat.ofDigitChars 10 (trimmed rest) 0 := by
          rw [Nat.ofDigitChars_append, Nat.ofDigitChars_replicate_zero]
  rw [value, hread, zpow_sub₀ (by norm_num), zpow_neg, zpow_natCast, zpow_natCast]
  push_cast
  ring

end DeskCalculator.Decimal
