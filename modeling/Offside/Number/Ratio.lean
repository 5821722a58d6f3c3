import Offside.Number.Binary
import Offside.Number.Int128

/-!
# Fractions

Fractions of 128-bit whole numbers, always in lowest terms with a positive denominator.
-/
namespace Offside.Number

/-- Why two whole numbers make no fraction. -/
inductive RatioError where
  | zeroDenominator
  | overflow (num den : Int)
deriving DecidableEq, Repr

def RatioError.message : RatioError → String
  | .zeroDenominator => "rational with zero denominator"
  | .overflow n d => "rational " ++ decimalText n ++ " % " ++ decimalText d ++ " overflows i128"

/-- A fraction in lowest terms whose two parts fit 128 bits. -/
structure Ratio where
  num : Int
  den : Nat
  den_pos : 0 < den
  coprime : Nat.Coprime num.natAbs den
  num_fits : Fits128 num
  den_fits : Fits128 den

namespace Ratio

/-- Two fractions in lowest terms are equal when their parts are. -/
theorem eq_iff {r s : Ratio} : r = s ↔ r.num = s.num ∧ r.den = s.den := by
  cases r
  cases s
  simp

instance : DecidableEq Ratio := fun _ _ => decidable_of_iff _ eq_iff.symm

/-- The greatest common divisor, by division with remainder; one if both numbers are zero. -/
def commonDivisor (a b : Nat) : Nat :=
  if _ : b = 0 then max a 1 else commonDivisor b (a % b)
termination_by b
decreasing_by exact Nat.mod_lt a (by omega)

/-- Each turn of the loop keeps the common divisors of the two numbers. -/
theorem commonDivisor_eq (a b : Nat) : commonDivisor a b = max (Nat.gcd a b) 1 := by
  fun_induction commonDivisor a b with
  | case1 a => rw [Nat.gcd_zero_right]
  | case2 a b hb ih => rw [ih, Nat.gcd_comm, ← Nat.gcd_rec, Nat.gcd_comm]

theorem commonDivisor_of_ne_zero {n d : Int} (hd : d ≠ 0) :
    commonDivisor n.natAbs d.natAbs = Nat.gcd n.natAbs d.natAbs := by
  have hpos : 0 < Nat.gcd n.natAbs d.natAbs := Nat.gcd_pos_of_pos_right _ (by omega)
  rw [commonDivisor_eq]
  omega

/-- The two parts of `n / d` in lowest terms, with the sign above; none for a zero denominator, or
when a part does not fit. -/
def lowestTerms? (n d : Int) : Option (Int128 × Int128) :=
  if d = 0 then none
  else do
    let g := commonDivisor n.natAbs d.natAbs
    let num ←
      if (n < 0) ≠ (d < 0) then Int128.ofInt? (-(n.natAbs / g : Nat)) else
        Int128.ofInt? ↑(n.natAbs / g)
    let den ← Int128.ofInt? ↑(d.natAbs / g)
    return (num, den)

theorem lowestTerms?_eq_some_iff {n d : Int} {num den : Int128} :
    lowestTerms? n d = some (num, den) ↔
      d ≠ 0 ∧
        (if (n < 0) ≠ (d < 0) then -(↑(n.natAbs / Nat.gcd n.natAbs d.natAbs) : Int)
          else ↑(n.natAbs / Nat.gcd n.natAbs d.natAbs)) = num.val ∧
        ↑(d.natAbs / Nat.gcd n.natAbs d.natAbs) = den.val := by
  by_cases hd : d = 0
  · simp [lowestTerms?, hd]
  · rw [lowestTerms?, if_neg hd, commonDivisor_of_ne_zero hd]
    split <;> simp [-Int.natCast_ediv, Option.bind_eq_some_iff, Int128.ofInt?_eq_some_iff, hd]

/-- The fraction `n / d` in lowest terms; none for a zero denominator, or when a part does not
fit. -/
def ofFraction? (n d : Int) : Option Ratio :=
  match h : lowestTerms? n d with
  | none => none
  | some (num, den) =>
    have hparts := lowestTerms?_eq_some_iff.mp h
    have hpos : 0 < Nat.gcd n.natAbs d.natAbs := Nat.gcd_pos_of_pos_right _ (by omega)
    have hden : den.val.toNat = d.natAbs / Nat.gcd n.natAbs d.natAbs := by
      rw [← hparts.2.2, Int.toNat_natCast]
    some
      { num := num.val
        den := den.val.toNat
        den_pos := by
          rw [hden]
          exact Nat.div_pos (Nat.gcd_le_right _ (by omega)) hpos
        coprime := by
          have hnum : num.val.natAbs = n.natAbs / Nat.gcd n.natAbs d.natAbs := by
            rw [← hparts.2.1]
            split <;> simp only [Int.natAbs_neg, Int.natAbs_natCast]
          rw [hnum, hden]
          exact Nat.coprime_div_gcd_div_gcd hpos
        num_fits := num.fits
        den_fits := by
          rw [hden, hparts.2.2]
          exact den.fits }

/-- The parts of a fraction: both numbers over what they have in common, with the sign above. -/
theorem ofFraction?_eq_some_iff_parts {n d : Int} {r : Ratio} :
    ofFraction? n d = some r ↔
      d ≠ 0 ∧
        (if (n < 0) ≠ (d < 0) then -(↑(n.natAbs / Nat.gcd n.natAbs d.natAbs) : Int)
          else ↑(n.natAbs / Nat.gcd n.natAbs d.natAbs)) = r.num ∧
        d.natAbs / Nat.gcd n.natAbs d.natAbs = r.den := by
  unfold ofFraction?
  constructor
  · intro h
    split at h
    · cases h
    · next num den hterms =>
      obtain ⟨hd, hnum, hden⟩ := lowestTerms?_eq_some_iff.mp hterms
      rw [← Option.some.inj h]
      exact ⟨hd, hnum, (Int.toNat_natCast _).symm.trans (congrArg Int.toNat hden)⟩
  · rintro ⟨hd, hnum, hden⟩
    have hterms : lowestTerms? n d = some (⟨r.num, r.num_fits⟩, ⟨r.den, r.den_fits⟩) :=
      lowestTerms?_eq_some_iff.mpr ⟨hd, hnum, congrArg _ hden⟩
    split
    · next hnone => rw [hnone] at hterms; cases hterms
    · next num den hsome =>
      rw [hsome] at hterms
      cases hterms
      exact congrArg some (eq_iff.mpr ⟨rfl, Int.toNat_natCast _⟩)

/-- The fraction `n / d` in lowest terms, or why there is none. -/
def ofFraction (n d : Int) : Except RatioError Ratio :=
  match ofFraction? n d with
  | some r => .ok r
  | none => .error (if d = 0 then .zeroDenominator else .overflow n d)

def ofInt (n : Int128) : Ratio :=
  { num := n.val, den := 1, den_pos := Nat.one_pos, coprime := Nat.coprime_one_right _
    num_fits := n.fits, den_fits := by decide }

/-- The double nearest to the quotient of the doubles nearest to the two parts. -/
def toDouble (r : Ratio) : Double := (Binary.ofInt r.num).div (Binary.ofNat r.den)

/-- The parts divided by a percent sign, a negative numerator in parentheses. -/
def text (r : Ratio) : String :=
  let num := if r.num < 0 then "(" ++ decimalText r.num ++ ")" else decimalText r.num
  num ++ " % " ++ decimalText r.den

end Ratio

end Offside.Number
