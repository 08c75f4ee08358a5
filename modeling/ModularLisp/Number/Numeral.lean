import ModularLisp.Number.Basic

/-!
# ModularLisp.Number.Numeral

**Numerals**: the texts that denote numbers. A numeral is an optional sign, digits,
optionally a point with or without further digits, and optionally an exponent, which
is the letter `e` or `E`, an optional sign and at least one digit. The digits before
the point are required, so no numeral starts with a point, and the digits are the
ten ASCII ones. Such a text denotes the number nearest to the decimal it spells.

Everything else is no numeral, words such as `inf` and `nan` included.
-/

namespace ModularLisp.Number

/-! ### Parts of a numeral -/

/-- Splits off one sign; the first part says whether it was a minus. -/
def splitSign : List Char → Bool × List Char
  | '-' :: r => (true, r)
  | '+' :: r => (false, r)
  | s => (false, s)

/-- The value of a run of digits. -/
def ofDigits (s : List Char) : Nat :=
  Nat.ofDigitChars 10 s 0

/-- Splits the fraction off what follows the whole digits: its digits, and the rest. -/
def splitFraction : List Char → List Char × List Char
  | '.' :: r => (r.takeWhile Char.isDigit, r.dropWhile Char.isDigit)
  | s => ([], s)

/-- The exponent that `s`, the end of a numeral, spells; zero if nothing is left. -/
def exponent? : List Char → Option Int
  | [] => some 0
  | c :: r =>
    let (negative, digits) := splitSign r
    if (c = 'e' ∨ c = 'E') ∧ digits ≠ [] ∧ digits.all Char.isDigit then
      some (if negative then -ofDigits digits else ofDigits digits)
    else none

/-! ### Reading -/

/-- The number that the whole of `s` denotes, if `s` is a numeral. -/
def ofNumeral? (s : List Char) : Option Number :=
  let (negative, unsigned) := splitSign s
  let whole := unsigned.takeWhile Char.isDigit
  let (fraction, rest) := splitFraction (unsigned.dropWhile Char.isDigit)
  if whole = [] then none
  else (exponent? rest).map fun exponent =>
    ofDecimal negative (ofDigits (whole ++ fraction)) (exponent - fraction.length)

theorem ofDecimal_ne_nan (negative : Bool) (digits : Nat) (exponent : Int) :
    ofDecimal negative digits exponent ≠ nan := by
  unfold ofDecimal
  simp only
  split
  · simp
  · split
    · simp
    · split <;> simp

/-- No numeral denotes `nan`. -/
theorem ofNumeral?_ne_nan (s : List Char) : ofNumeral? s ≠ some nan := by
  unfold ofNumeral?
  simp only
  split
  · simp
  · simp [Option.map_eq_some_iff, ofDecimal_ne_nan]

end ModularLisp.Number
