import ModularLisp.Number.Numeral

/-!
# ModularLisp.Number.Shortest

**The text of a number** has the fewest digits that read back as it, and among the
decimals of that length the one nearest to it.

For each length in turn the two decimals on either side of the exact value are tried,
the nearer first, and the first that reads back wins: if any decimal of that length
reads back, so does one of these two. An exact tie goes to the larger decimal. Trying
means reading with `Number.ofDecimal`, the function that the numerals of the language
are read with, and no decimal is taken that was not tried, so what is written reads
back by construction (`ofDecimal_shortest`).

The plain text (`Number.text`) is positional for every magnitude. The inspected text
(`Number.inspect`) always shows that a number is one: a whole number ends in `.0`, and
magnitudes from `10 ^ 16` on and below `10 ^ -4` have an exponent.
-/

namespace ModularLisp

attribute [local instance (high)] instPowNat

/-- The decimal `digits * 10 ^ exponent`. -/
structure Decimal where
  digits : Nat
  exponent : Int
  deriving DecidableEq, Repr

namespace Decimal

/-- The same decimal with one final zero moved into the exponent, if it has one. -/
def dropZero (d : Decimal) : Decimal :=
  if d.digits % 10 = 0 then ⟨d.digits / 10, d.exponent + 1⟩ else d

/-- The digits of `d` as characters. -/
def digitChars (d : Decimal) : List Char :=
  Nat.toDigits 10 d.digits

/-- `d` without an exponent, with a point only if there are digits after it. -/
def positional (d : Decimal) : List Char :=
  let chars := d.digitChars
  match d.exponent with
  | .ofNat zeros => chars ++ List.replicate zeros '0'
  | .negSucc k =>
    let places := k + 1
    if places < chars.length then
      chars.take (chars.length - places) ++ '.' :: chars.drop (chars.length - places)
    -- All digits are after the point, the leading ones perhaps far after it.
    else
      '0' :: '.' :: List.replicate (places - chars.length) '0' ++ chars

/-- The exponent of the leading digit of `d`. -/
def leadingExponent (d : Decimal) : Int :=
  d.exponent + d.digitChars.length - 1

/-- `d` with one digit before the point and the exponent of that digit. -/
def scientific (d : Decimal) : List Char :=
  let mantissa := match d.digitChars with
    | first :: second :: r => first :: '.' :: second :: r
    | chars => chars
  mantissa ++ 'e' :: (toString d.leadingExponent).toList

end Decimal

namespace Number

/-! ### The shortest decimal -/

/-- How many digits `n` has. Ten to the power of the first guess is at most a little
more than `n`, because `0.30103` is a little more than the logarithm of two. -/
def digitCount (n : Nat) : Nat :=
  let guess := n.log2 * 30103 / 100000
  if n < 10 ^ guess then guess else if n < 10 ^ (guess + 1) then guess + 1 else guess + 2

/-- The two decimals around the exact expansion of a magnitude that do without its last
`dropped` digits, the nearer first. -/
def neighbours (exact dropped : Nat) : List Decimal :=
  let step := 10 ^ dropped
  let exponent : Int := dropped - unitPlaces
  let below : Decimal := ⟨exact / step, exponent⟩
  let above : Decimal := ⟨exact / step + 1, exponent⟩
  if 2 * (exact % step) < step then [below.dropZero, above.dropZero]
  else [above.dropZero, below.dropZero]

/-- Does `d` read back as the magnitude of the given rank? -/
def readsBack (rank : Fin magnitudes) (d : Decimal) : Bool :=
  ofDecimal false d.digits d.exponent == finite false rank

/-- The first neighbour, in order of length, that reads back as the given magnitude.
Seventeen digits are always enough. -/
def shortReading? (rank : Fin magnitudes) : Option Decimal :=
  let exact := exactDigits rank
  let count := digitCount exact
  (List.range' 1 17).findSome? fun length =>
    (neighbours exact (count - length)).find? (readsBack rank)

/-- The shortest decimal that reads back as the given magnitude. The exact expansion,
which needs no trial, stands behind the ones that are tried. -/
def shortest (rank : Fin magnitudes) : Decimal :=
  if rank.val = 0 then ⟨0, 0⟩
  else (shortReading? rank).getD ⟨exactDigits rank, -unitPlaces⟩

theorem ofDecimal_sign {digits : Nat} {exponent : Int} {rank : Fin magnitudes}
    (h : ofDecimal false digits exponent = finite false rank) (negative : Bool) :
    ofDecimal negative digits exponent = finite negative rank := by
  unfold ofDecimal at h ⊢
  simp only at h ⊢
  split
  · next hz => simpa [hz] using h
  · next hz =>
      rw [if_neg hz] at h
      split
      · next hb => simp [hb] at h
      · next hb =>
          rw [if_neg hb] at h
          split
          · next hr => rw [dif_pos hr] at h; simpa using h
          · next hr => rw [dif_neg hr] at h; simp at h

theorem ofDecimal_of_readsBack {rank : Fin magnitudes} {d : Decimal}
    (h : readsBack rank d = true) :
    ofDecimal false d.digits d.exponent = finite false rank :=
  eq_of_beq h

theorem ofDecimal_of_shortReading? {rank : Fin magnitudes} {d : Decimal}
    (h : shortReading? rank = some d) :
    ofDecimal false d.digits d.exponent = finite false rank := by
  obtain ⟨length, -, hd⟩ := List.exists_of_findSome?_eq_some h
  exact ofDecimal_of_readsBack (List.find?_some hd)

/-- The decimal chosen for a magnitude reads back as it. -/
theorem ofDecimal_shortest (negative : Bool) (rank : Fin magnitudes) :
    ofDecimal negative (shortest rank).digits (shortest rank).exponent =
      finite negative rank := by
  apply ofDecimal_sign
  unfold shortest
  split
  · next hz => rw [ofDecimal, if_pos (Or.inl rfl)]; simp [Fin.ext_iff, hz]
  · cases hfound : shortReading? rank with
    | none => rw [Option.getD_none]; exact ofDecimal_exactDigits false rank
    | some d => rw [Option.getD_some]; exact ofDecimal_of_shortReading? hfound

/-! ### Texts -/

/-- A minus sign, if there is to be one. -/
def signChars (negative : Bool) : List Char :=
  if negative then ['-'] else []

/-- The text of a number, without an exponent. -/
def text : Number → List Char
  | nan => "NaN".toList
  | infinite negative => signChars negative ++ "inf".toList
  | finite negative rank => signChars negative ++ (shortest rank).positional

/-- The text of a number that shows it to be one. -/
def inspect : Number → List Char
  | finite negative rank =>
    let d := shortest rank
    let magnitude :=
      if rank.val ≠ 0 ∧ (16 ≤ d.leadingExponent ∨ d.leadingExponent < -4) then d.scientific
      else if 0 ≤ d.exponent then d.positional ++ ['.', '0']
      else d.positional
    signChars negative ++ magnitude
  | number => number.text

end Number

end ModularLisp
