/-!
# ModularLisp.Number.Basic

**Numbers** are the binary floating-point numbers of 64 bits. The language reads,
compares and prints them and does no arithmetic on them, so a number is stored by
what those three need: what kind it is, its sign and, when it is finite, the *rank*
of its magnitude in the ascending sequence of all finite magnitudes.

The rank determines the magnitude. Below rank `2 ^ 53` neighbouring magnitudes lie
one unit of `2 ^ -1074` apart; from there on each block of `2 ^ 52` ranks has twice
the spacing of the block before. `Number.units` is the magnitude in units of
`2 ^ -1074`, and `Number.nearestRank` goes back from an arbitrary fraction of units
to the rank of the nearest magnitude. The two are inverse (`nearestRank_units`), and
that is why an exact decimal expansion reads back as the number it came from.
-/

namespace ModularLisp

-- Powers of naturals are those of the core library, whatever structures are known.
attribute [local instance (high)] instPowNat

/-- How many finite magnitudes there are, zero included. -/
def Number.magnitudes : Nat := 2047 * 2 ^ (52 : Nat)

/-- A floating-point number of 64 bits. -/
inductive Number
  /-- The result of no sensible operation; it equals nothing, itself included. -/
  | nan
  /-- Larger in magnitude than every finite number. -/
  | infinite (negative : Bool)
  /-- The sign, and the rank of the magnitude among all finite magnitudes. Zero is
  rank zero and has a sign like the others. -/
  | finite (negative : Bool) (rank : Fin Number.magnitudes)
  deriving DecidableEq

namespace Number

/-! ### Comparison -/

/-- Numeric equality: the two zeros are equal, and `nan` differs from itself. -/
def equals : Number → Number → Bool
  | infinite n, infinite m => n == m
  | finite n r, finite m s => r == s && (n == m || r.val == 0)
  | _, _ => false

/-- Only `nan` differs from itself. -/
theorem equals_self_iff (x : Number) : x.equals x = true ↔ x ≠ nan := by
  cases x <;> simp [equals]

theorem equals_symm {x y : Number} (h : x.equals y = true) : y.equals x = true := by
  cases x <;> cases y <;> simp_all [equals]
  exact h.2.imp Eq.symm fun hz => h.1 ▸ hz

theorem equals_trans {x y z : Number} (hxy : x.equals y = true) (hyz : y.equals z = true) :
    x.equals z = true := by
  cases x <;> cases y <;> cases z <;> simp_all [equals]
  grind

/-! ### Ranks and magnitudes -/

/-- The least positive magnitude, the unit in which magnitudes are counted, is two to
the power of minus this. -/
def unitPlaces : Nat := 1074

/-- The magnitude of the given rank, counted in units. -/
def units (rank : Nat) : Nat :=
  if rank < 2 ^ (53 : Nat) then rank
  else (2 ^ (52 : Nat) + rank % 2 ^ (52 : Nat)) * 2 ^ (rank / 2 ^ (52 : Nat) - 1)

/-- The integer nearest to `num / den`; of two nearest ones, the even one. -/
def roundHalfEven (num den : Nat) : Nat :=
  let q := num / den
  let r := num % den
  if 2 * r < den then q else if den < 2 * r then q + 1 else q + q % 2

/-- The rank of the magnitude nearest to `num / den` units. The spacing around the
value is a power of two that leaves 53 binary digits; a value that rounds up to the
end of its block gets the first rank of the next block. -/
def nearestRank (num den : Nat) : Nat :=
  let spacing := (num / den).log2 - 52
  spacing * 2 ^ (52 : Nat) + roundHalfEven num (den * 2 ^ spacing)

theorem roundHalfEven_mul {n den : Nat} (h : 0 < den) : roundHalfEven (n * den) den = n := by
  simp [roundHalfEven, Nat.mul_div_cancel _ h, h]

/-- A magnitude is nearest to itself. -/
theorem nearestRank_units (rank : Nat) {den : Nat} (h : 0 < den) :
    nearestRank (units rank * den) den = rank := by
  unfold nearestRank
  simp only [Nat.mul_div_cancel _ h]
  unfold units
  split
  -- Up to the first block of wider spacing a magnitude is its own rank.
  · next hlt =>
      have hlog : rank.log2 - 52 = 0 := by
        by_cases hz : rank = 0
        · subst hz; decide
        · have := (Nat.log2_lt hz).mpr hlt
          omega
      simp [hlog, roundHalfEven_mul h]
  -- From there on the number of binary digits tells the block.
  · next hge =>
      have hdiv : 2 ≤ rank / 2 ^ 52 := by omega
      generalize hm : 2 ^ 52 + rank % 2 ^ 52 = m
      generalize hs : rank / 2 ^ 52 - 1 = s
      have hmlo : 2 ^ 52 ≤ m := by omega
      have hmhi : m < 2 ^ 53 := by omega
      have hne : m * 2 ^ s ≠ 0 := Nat.mul_ne_zero (by omega) (by simp)
      have hlog : (m * 2 ^ s).log2 = s + 52 := by
        apply Nat.le_antisymm
        · apply Nat.le_of_lt_succ
          rw [Nat.log2_lt hne, show (s + 52).succ = 53 + s by omega, Nat.pow_add]
          exact Nat.mul_lt_mul_of_pos_right hmhi (Nat.two_pow_pos s)
        · rw [Nat.le_log2 hne, show s + 52 = 52 + s by omega, Nat.pow_add]
          exact Nat.mul_le_mul_right _ hmlo
      rw [hlog, Nat.add_sub_cancel, Nat.mul_right_comm,
        show m * den * 2 ^ s = m * (den * 2 ^ s) by rw [Nat.mul_assoc],
        roundHalfEven_mul (Nat.mul_pos h (Nat.two_pow_pos s))]
      omega

/-! ### Decimals -/

/-- The number nearest to `digits * 10 ^ exponent`. Decimals beyond every finite
magnitude are infinite and those far below the least one are zero; saying so first
keeps the powers of ten small. -/
def ofDecimal (negative : Bool) (digits : Nat) (exponent : Int) : Number :=
  if digits = 0 ∨ exponent + digits.log2 < -330 then
    finite negative ⟨0, by decide⟩
  else if 310 < exponent then
    infinite negative
  else
    let rank := nearestRank (digits * 10 ^ exponent.toNat * 2 ^ unitPlaces)
      (10 ^ (-exponent).toNat)
    if h : rank < magnitudes then finite negative ⟨rank, h⟩ else infinite negative

/-- The digits of the exact decimal expansion of a magnitude, as many of them after
the point as the unit has binary places. -/
def exactDigits (rank : Nat) : Nat :=
  units rank * 5 ^ unitPlaces

theorem units_pos {rank : Nat} (h : 0 < rank) : 0 < units rank := by
  unfold units
  split
  · exact h
  · exact Nat.mul_pos (by omega) (Nat.two_pow_pos _)

/-- The exact decimal expansion of a magnitude reads back as that magnitude. -/
theorem ofDecimal_exactDigits (negative : Bool) (rank : Fin magnitudes) :
    ofDecimal negative (exactDigits rank) (-unitPlaces) = finite negative rank := by
  have hplaces : 0 < unitPlaces := by decide
  unfold ofDecimal exactDigits
  by_cases hz : rank.val = 0
  · simp [hz, units, Fin.ext_iff]
  · have hpos := units_pos (Nat.pos_of_ne_zero hz)
    have hne : units rank.val * 5 ^ unitPlaces ≠ 0 :=
      Nat.mul_ne_zero (by omega) (Nat.pos_iff_ne_zero.mp (Nat.pow_pos (by decide)))
    have hlog : unitPlaces ≤ (units rank.val * 5 ^ unitPlaces).log2 := by
      rw [Nat.le_log2 hne]
      calc 2 ^ unitPlaces ≤ 5 ^ unitPlaces := Nat.pow_le_pow_left (by decide) _
        _ ≤ units rank.val * 5 ^ unitPlaces := Nat.le_mul_of_pos_left _ hpos
    have hmul : units rank.val * 5 ^ unitPlaces * 10 ^ (-(unitPlaces : Int)).toNat *
        2 ^ unitPlaces = units rank.val * 10 ^ (-(-(unitPlaces : Int))).toNat := by
      rw [show (-(unitPlaces : Int)).toNat = 0 by omega,
        show (-(-(unitPlaces : Int))).toNat = unitPlaces by omega,
        Nat.pow_zero, Nat.mul_one, Nat.mul_assoc, ← Nat.mul_pow]
    rw [if_neg (by omega), if_neg (by omega), hmul,
      nearestRank_units _ (Nat.pow_pos (by decide))]
    simp [rank.isLt]

end Number

end ModularLisp
