import Mathlib
import ModularLisp.Number.Shortest
import ModularLisp.Reader.Token

/-!
# ModularLisp.Proofs.NumberText

**The text of a number reads back.** A finite number is written with a minus sign if it has
one, digits, and then perhaps a point and more digits (`exists_text_eq`). Such a text is a
numeral, and the number it denotes is the one that was written, with the sign of a zero
(`ofNumeral?_text`). The texts of the other numbers are no numerals (`ofNumeral?_infinite`).
-/

namespace ModularLisp

namespace Number

/-! ### Digits -/

theorem ofDigits_toDigits (n : Nat) : ofDigits (Nat.toDigits 10 n) = n :=
  Nat.ofDigitChars_toDigits (by decide) (by decide)

theorem ofDigits_append_zeros (s : List Char) (n : Nat) :
    ofDigits (s ++ List.replicate n '0') = ofDigits s * 10 ^ n := by
  rw [ofDigits, Nat.ofDigitChars_append, Nat.ofDigitChars_replicate_zero, Nat.mul_comm, ofDigits]

theorem ofDigits_zeros_append (s : List Char) (n : Nat) :
    ofDigits (List.replicate n '0' ++ s) = ofDigits s := by
  rw [ofDigits, Nat.ofDigitChars_append, Nat.ofDigitChars_replicate_zero, Nat.mul_zero, ofDigits]

theorem isDigit_of_mem_digitChars {d : Decimal} {c : Char} (h : c ∈ d.digitChars) :
    c.isDigit = true :=
  Nat.isDigit_of_mem_toDigits (by decide) (by decide) h

theorem isDigit_of_mem_zeros {n : Nat} {c : Char} (h : c ∈ List.replicate n '0') :
    c.isDigit = true := by
  rw [List.eq_of_mem_replicate h]
  decide

/-! ### Positional decimals -/

/-- The part of a text after its whole digits: nothing, or a point and more digits. -/
def pointChars (fraction : List Char) : List Char :=
  if fraction = [] then [] else '.' :: fraction

/-- The zeros that a whole number ends in can be moved out of the exponent. -/
theorem ofDecimal_mul_pow {negative : Bool} {digits : Nat} {exponent : Int}
    {rank : Fin magnitudes} (hexponent : 0 ≤ exponent)
    (h : ofDecimal negative digits exponent = finite negative rank) :
    ofDecimal negative (digits * 10 ^ exponent.toNat) 0 = finite negative rank := by
  unfold ofDecimal at h ⊢
  by_cases hz : digits = 0
  · simpa [hz] using h
  · have hpow : digits * 10 ^ exponent.toNat ≠ 0 := Nat.mul_ne_zero hz (by simp)
    rw [if_neg (by omega)] at h
    rw [if_neg (by simp only [hpow, false_or]; omega)]
    split at h
    · cases h
    · simpa [show (-exponent).toNat = 0 by omega] using h

/-- The text of the decimal `d` consists of the digits `whole` and perhaps a point and the digits
`fraction`, and they denote every finite number that `d` is nearest to. -/
structure Spelled (d : Decimal) (whole fraction : List Char) : Prop where
  ne_nil : whole ≠ []
  whole_digits : ∀ c ∈ whole, c.isDigit = true
  fraction_digits : ∀ c ∈ fraction, c.isDigit = true
  text : d.positional = whole ++ pointChars fraction
  reads : ∀ negative rank, ofDecimal negative d.digits d.exponent = finite negative rank →
    ofDecimal negative (ofDigits (whole ++ fraction)) (-fraction.length) = finite negative rank

/-- A decimal with as many places as its fraction has digits is read as it is. -/
theorem reads_of_places {d : Decimal} {whole fraction : List Char} {k : Nat}
    (hexponent : d.exponent = .negSucc k) (hlength : fraction.length = k + 1)
    (hdigits : ofDigits (whole ++ fraction) = d.digits) (negative : Bool) (rank : Fin magnitudes)
    (h : ofDecimal negative d.digits d.exponent = finite negative rank) :
    ofDecimal negative (ofDigits (whole ++ fraction)) (-fraction.length) =
      finite negative rank := by
  rw [hdigits, hlength, show -((k + 1 : Nat) : Int) = d.exponent by rw [hexponent]; rfl]
  exact h

theorem spelled_whole {d : Decimal} {zeros : Nat} (hexponent : d.exponent = .ofNat zeros) :
    Spelled d (d.digitChars ++ List.replicate zeros '0') [] where
  ne_nil := List.append_ne_nil_of_left_ne_nil Nat.toDigits_ne_nil _
  whole_digits c hc := (List.mem_append.mp hc).elim isDigit_of_mem_digitChars isDigit_of_mem_zeros
  fraction_digits c hc := absurd hc List.not_mem_nil
  text := by
    unfold Decimal.positional
    simp only [hexponent, pointChars, if_pos, List.append_nil]
  reads negative rank h := by
    rw [hexponent] at h
    rw [List.append_nil, ofDigits_append_zeros, Decimal.digitChars, ofDigits_toDigits]
    exact ofDecimal_mul_pow (Int.natCast_nonneg zeros) h

theorem spelled_split {d : Decimal} {k : Nat} (hexponent : d.exponent = .negSucc k)
    (hplaces : k + 1 < d.digitChars.length) :
    Spelled d (d.digitChars.take (d.digitChars.length - (k + 1)))
      (d.digitChars.drop (d.digitChars.length - (k + 1))) := by
  have hlength : (d.digitChars.drop (d.digitChars.length - (k + 1))).length = k + 1 := by
    rw [List.length_drop]; omega
  refine ⟨?_, fun c hc => ?_, fun c hc => ?_, ?_, reads_of_places hexponent hlength ?_⟩
  · rw [← List.length_pos_iff, List.length_take]; omega
  · exact isDigit_of_mem_digitChars (List.mem_of_mem_take hc)
  · exact isDigit_of_mem_digitChars (List.mem_of_mem_drop hc)
  · have hne : d.digitChars.drop (d.digitChars.length - (k + 1)) ≠ [] := by
      rw [← List.length_pos_iff]; omega
    unfold Decimal.positional
    simp only [hexponent, if_pos hplaces, pointChars, if_neg hne]
  · rw [List.take_append_drop, Decimal.digitChars, ofDigits_toDigits]

theorem spelled_small {d : Decimal} {k : Nat} (hexponent : d.exponent = .negSucc k)
    (hplaces : ¬ k + 1 < d.digitChars.length) :
    Spelled d ['0'] (List.replicate (k + 1 - d.digitChars.length) '0' ++ d.digitChars) := by
  have hlength : (List.replicate (k + 1 - d.digitChars.length) '0' ++ d.digitChars).length =
      k + 1 := by
    rw [List.length_append, List.length_replicate]; omega
  refine ⟨List.cons_ne_nil _ _, fun c hc => ?_, fun c hc => ?_, ?_,
    reads_of_places hexponent hlength ?_⟩
  · rw [List.mem_singleton.mp hc]
    decide
  · exact (List.mem_append.mp hc).elim isDigit_of_mem_zeros isDigit_of_mem_digitChars
  · have hne : List.replicate (k + 1 - d.digitChars.length) '0' ++ d.digitChars ≠ [] := by
      rw [← List.length_pos_iff]; omega
    unfold Decimal.positional
    simp only [hexponent, if_neg hplaces, pointChars, if_neg hne]
    rfl
  · have hzeros := ofDigits_zeros_append d.digitChars (k + 1 - d.digitChars.length + 1)
    rw [List.replicate_succ, List.cons_append] at hzeros
    rw [List.singleton_append, hzeros, Decimal.digitChars, ofDigits_toDigits]

theorem exists_spelled (d : Decimal) : ∃ whole fraction, Spelled d whole fraction := by
  cases hexponent : d.exponent with
  | ofNat zeros => exact ⟨_, _, spelled_whole hexponent⟩
  | negSucc k =>
      by_cases hplaces : k + 1 < d.digitChars.length
      · exact ⟨_, _, spelled_split hexponent hplaces⟩
      · exact ⟨_, _, spelled_small hexponent hplaces⟩

/-! ### Numerals -/

theorem splitSign_signChars (negative : Bool) {c : Char} (hc : c.isDigit = true)
    (r : List Char) : splitSign (signChars negative ++ c :: r) = (negative, c :: r) := by
  cases negative with
  | true => rfl
  | false =>
      rw [show signChars false ++ c :: r = c :: r from rfl, splitSign]
      · rintro r' h
        obtain ⟨rfl, -⟩ := List.cons.inj h
        exact absurd hc (by decide)
      · rintro r' h
        obtain ⟨rfl, -⟩ := List.cons.inj h
        exact absurd hc (by decide)

theorem splitFraction_pointChars {fraction : List Char}
    (h : ∀ c ∈ fraction, c.isDigit = true) : splitFraction (pointChars fraction) = (fraction, []) := by
  unfold pointChars
  split
  · next hnil => rw [hnil]; rfl
  · have htake := Text.takeWhile_run h (r := []) (by simp)
    have hdrop := Text.dropWhile_run h (r := []) (by simp)
    rw [List.append_nil] at htake hdrop
    rw [splitFraction, htake, hdrop]

/-- A sign, digits and a fraction are a numeral. -/
theorem ofNumeral?_digits (negative : Bool) {whole fraction : List Char} (hne : whole ≠ [])
    (hwhole : ∀ c ∈ whole, c.isDigit = true) (hfraction : ∀ c ∈ fraction, c.isDigit = true) :
    ofNumeral? (signChars negative ++ (whole ++ pointChars fraction)) =
      some (ofDecimal negative (ofDigits (whole ++ fraction)) (-fraction.length)) := by
  have hpoint : ∀ c ∈ (pointChars fraction).head?, c.isDigit = false := by
    unfold pointChars
    split
    · exact fun c hc => by cases hc
    · exact fun c hc => Option.mem_some.mp hc ▸ by decide
  have hsign : splitSign (signChars negative ++ (whole ++ pointChars fraction)) =
      (negative, whole ++ pointChars fraction) := by
    cases whole with
    | nil => exact absurd rfl hne
    | cons c r => exact splitSign_signChars negative (hwhole c List.mem_cons_self) _
  unfold ofNumeral?
  simp only [hsign, Text.takeWhile_run hwhole hpoint, Text.dropWhile_run hwhole hpoint,
    splitFraction_pointChars hfraction, if_neg hne, exponent?]
  simp

/-- The text of a finite number: a sign, digits and perhaps a fraction, which denote it. -/
theorem exists_text_eq (negative : Bool) (rank : Fin magnitudes) :
    ∃ whole fraction : List Char, whole ≠ [] ∧ (∀ c ∈ whole, c.isDigit = true) ∧
      (∀ c ∈ fraction, c.isDigit = true) ∧
      text (finite negative rank) = signChars negative ++ (whole ++ pointChars fraction) ∧
      ofDecimal negative (ofDigits (whole ++ fraction)) (-fraction.length) =
        finite negative rank := by
  obtain ⟨whole, fraction, h⟩ := exists_spelled (shortest rank)
  exact ⟨whole, fraction, h.ne_nil, h.whole_digits, h.fraction_digits, by rw [text, h.text],
    h.reads negative rank (ofDecimal_shortest negative rank)⟩

/-- **The text of a finite number denotes it.** -/
theorem ofNumeral?_text (negative : Bool) (rank : Fin magnitudes) :
    ofNumeral? (finite negative rank).text = some (finite negative rank) := by
  obtain ⟨whole, fraction, hne, hwhole, hfraction, htext, hreads⟩ := exists_text_eq negative rank
  rw [htext, ofNumeral?_digits negative hne hwhole hfraction, hreads]

/-- The text of an infinite number is a word and denotes no number. -/
theorem ofNumeral?_infinite (negative : Bool) : ofNumeral? (infinite negative).text = none := by
  cases negative <;> decide

end Number

/-! ### Numbers as atoms -/

namespace Reader

theorem isAtomChar_of_isDigit {c : Char} (h : c.isDigit = true) : isAtomChar c = true := by
  have hrange := Char.isDigit_iff_toNat.mp h
  have hblank : Text.isBlank c = false := by
    simp [Text.isBlank, Text.inRanges, Text.blankRanges] at hrange ⊢
    omega
  have hother : c ≠ '(' ∧ c ≠ ')' ∧ c ≠ ';' ∧ c ≠ '"' := by
    refine ⟨?_, ?_, ?_, ?_⟩ <;> rintro rfl <;> exact absurd h (by decide)
  simp [isAtomChar, hblank, hother]

/-- The text of a number is an atom. -/
theorem isAtomChar_of_mem_text {x : Number} {c : Char} (h : c ∈ x.text) :
    isAtomChar c = true := by
  cases x with
  | nan =>
      have hall : Number.nan.text.all isAtomChar = true := by decide
      exact List.all_eq_true.mp hall c h
  | infinite negative =>
      have hall : (Number.infinite negative).text.all isAtomChar = true := by
        cases negative <;> decide
      exact List.all_eq_true.mp hall c h
  | finite negative rank =>
      obtain ⟨whole, fraction, -, hwhole, hfraction, htext, -⟩ :=
        Number.exists_text_eq negative rank
      have hsign : (Number.signChars negative).all isAtomChar = true := by
        cases negative <;> decide
      have hpoint : ∀ c ∈ Number.pointChars fraction, isAtomChar c = true := by
        unfold Number.pointChars
        split
        · simp
        · intro c hc
          rcases List.mem_cons.mp hc with rfl | hc
          · decide
          · exact isAtomChar_of_isDigit (hfraction c hc)
      rw [htext, List.mem_append, List.mem_append] at h
      rcases h with h | h | h
      · exact List.all_eq_true.mp hsign c h
      · exact isAtomChar_of_isDigit (hwhole c h)
      · exact hpoint c h

theorem text_ne_nil (x : Number) : x.text ≠ [] := by
  cases x with
  | nan => decide
  | infinite negative => cases negative <;> decide
  | finite negative rank =>
      obtain ⟨whole, fraction, hne, -, -, htext, -⟩ := Number.exists_text_eq negative rank
      rw [htext]
      exact List.append_ne_nil_of_right_ne_nil _ (List.append_ne_nil_of_left_ne_nil hne _)

end Reader

end ModularLisp
