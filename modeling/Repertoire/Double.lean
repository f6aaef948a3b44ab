/-!
# Binary floating-point numbers

The numbers of the double format: 53 significant binary digits, and exponents that reach from the
unit `2 ^ -1074` up to just below `2 ^ 1024`. A magnitude is held by its rank, which is its place
among all magnitudes of the format in ascending order. So neighbouring ranks are neighbouring
numbers, every rank below `rankLimit` is a magnitude, and no magnitude has two ranks.

Where a number has to be taken for one that the format lacks, it is the nearest, and of two that
are equally near the one with the even rank. `nearestRank_units` says that a number of the format
is taken for itself.
-/

namespace Repertoire

/-- The rank that the magnitude `2 ^ 1024` would have. The format has no magnitudes from there. -/
def rankLimit : Nat := 2047 * Nat.pow 2 52

inductive Double where
  | finite (negative : Bool) (rank : Fin rankLimit)
  | infinite (negative : Bool)
  | nan
  deriving DecidableEq

structure Decimal where
  digits : Nat
  exponent : Int
  deriving DecidableEq, Repr

/-- The nearest integer to a quotient, the even one if two are equally near. -/
def roundedDiv (num den : Nat) : Nat :=
  let below := num / den
  let rest := num % den
  if 2 * rest < den ∨ (2 * rest = den ∧ below % 2 = 0) then below else below + 1

namespace Double

/-! ## Magnitudes and their ranks -/

/-- The magnitude of a rank, in units of `2 ^ -1074`. Up to `2 ^ 53` units the magnitudes are one
unit apart, then the distance doubles after each `2 ^ 52` of them. -/
def units (rank : Nat) : Nat :=
  if rank < Nat.pow 2 52 then rank
  else (Nat.pow 2 52 + rank % Nat.pow 2 52) * Nat.pow 2 (rank / Nat.pow 2 52 - 1)

/-- The rank of the magnitude nearest to `num / den` units. It reaches `rankLimit` if there is no
magnitude for it. -/
def nearestRank (num den : Nat) : Nat :=
  let shift := (num / den).log2 - 52
  shift * Nat.pow 2 52 + roundedDiv num (den * Nat.pow 2 shift)

/-- The number of a rank. From `rankLimit` on it is infinite. -/
def ofRank (negative : Bool) (rank : Nat) : Double :=
  if h : rank < rankLimit then finite negative ⟨rank, h⟩ else infinite negative

/-- The magnitude of a decimal number as a quotient, in units of `2 ^ -1074`. -/
def decimalUnits (d : Decimal) : Nat × Nat :=
  (d.digits * Nat.pow 10 d.exponent.toNat * Nat.pow 2 1074, Nat.pow 10 (-d.exponent).toNat)

def decimalRank (d : Decimal) : Nat :=
  let (num, den) := decimalUnits d
  nearestRank num den

/-- The number nearest to a decimal number with a sign. Decimals that are out of reach, being less
than `10 ^ -400` or at least `10 ^ 400`, are told apart beforehand, since their powers of ten could
be arbitrarily great. -/
def ofDecimal (negative : Bool) (d : Decimal) : Double :=
  if d.digits = 0 ∨ d.exponent + d.digits.log2 + 1 < -400 then ofRank negative 0
  else if 400 < d.exponent then infinite negative
  else ofRank negative (decimalRank d)

/-- The integer that a number is, if it is one. -/
def whole? : Double → Option Int
  | finite negative rank =>
    let n := units rank
    let one := Nat.pow 2 1074
    if n % one = 0 then
      some (if negative then -((n / one : Nat) : Int) else (n / one : Nat))
    else none
  | _ => none

/-- Are two numbers equal? The two zeros are, and not-a-number equals nothing. -/
def same : Double → Double → Bool
  | finite negative rank, finite negative' rank' =>
    rank == rank' && (negative == negative' || rank.val == 0)
  | infinite negative, infinite negative' => negative == negative'
  | _, _ => false

/-! ## Numbers of the format are taken for themselves -/

theorem roundedDiv_mul (n : Nat) {den : Nat} (h : 0 < den) : roundedDiv (n * den) den = n := by
  unfold roundedDiv
  rw [Nat.mul_div_cancel n h, Nat.mul_mod_left]
  exact if_pos (Or.inl (by omega))

theorem nearestRank_units (rank : Nat) : nearestRank (units rank) 1 = rank := by
  simp only [nearestRank, units, Nat.pow_eq, Nat.div_one, Nat.one_mul]
  split
  · rename_i h
    have hlog : rank.log2 - 52 = 0 := by
      rcases Nat.eq_zero_or_pos rank with rfl | hpos
      · rfl
      · have := (Nat.log2_lt (by omega)).2 h
        omega
    rw [hlog]
    have := roundedDiv_mul rank Nat.one_pos
    simpa using this
  · rename_i h
    have hmod : rank % 2 ^ 52 < 2 ^ 52 := Nat.mod_lt _ (by decide)
    have hdiv := Nat.div_add_mod rank (2 ^ 52)
    have hbinade : 1 ≤ rank / 2 ^ 52 := by omega
    generalize rank % 2 ^ 52 = fraction at *
    generalize rank / 2 ^ 52 = binade at *
    have hpow : 0 < 2 ^ (binade - 1) := Nat.two_pow_pos _
    have hlog : ((2 ^ 52 + fraction) * 2 ^ (binade - 1)).log2 = 52 + (binade - 1) := by
      rw [Nat.log2_eq_iff (Nat.ne_of_gt (Nat.mul_pos (by omega) hpow))]
      constructor
      · rw [Nat.pow_add]
        exact Nat.mul_le_mul_right _ (by omega)
      · rw [show 52 + (binade - 1) + 1 = 53 + (binade - 1) by omega, Nat.pow_add]
        exact Nat.mul_lt_mul_of_pos_right (by omega) hpow
    rw [hlog, Nat.add_sub_cancel_left, roundedDiv_mul _ hpow]
    omega

end Double

end Repertoire
