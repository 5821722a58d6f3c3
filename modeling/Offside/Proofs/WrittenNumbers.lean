import Mathlib
import Offside.Tree.Node

/-!
# Numbers in JSON

A whole number of 128 bits is written as a number or as its decimal text, and both are read as the
number. A fraction in lowest terms is what its two parts are read as. Any other two parts are read
as the fraction in lowest terms with the same value.
-/
namespace Offside

open Number Text

/-! ### Decimal text -/

theorem isBlank_of_isDigit {c : Char} (hc : c.isDigit = true) : isBlank c = false := by
  have hbounds : 48 ≤ c.toNat ∧ c.toNat ≤ 57 := by
    simpa [Char.isDigit, UInt32.le_iff_toNat_le] using hc
  have hlow : ∀ n, n ≤ 48 → (n ≤ c.toNat) = True := fun n hn => eq_true (by omega)
  have hhigh : ∀ n, 58 ≤ n → (n ≤ c.toNat) = False := fun n hn => eq_false (by omega)
  simp [isBlank, blanks, CodeSet.contains, hlow, hhigh]

theorem trim_of_forall {cs : List Char} (h : ∀ c ∈ cs, isBlank c = false) : trim cs = cs := by
  have hkeep : ∀ {ds : List Char}, (∀ d ∈ ds, isBlank d = false) → ds.dropWhile isBlank = ds := by
    intro ds hds
    cases ds with
    | nil => rfl
    | cons d ds => simp [hds d (by simp)]
  rw [trim, hkeep h, hkeep (by simpa using h), List.reverse_reverse]

theorem parseInt?_digits (n : Nat) : Decimal.parseInt?.unsigned (Nat.toDigits 10 n) = some n := by
  have hne : (Nat.toDigits 10 n).isEmpty = false := by simp [Nat.toDigits_ne_nil]
  have hdigits : (Nat.toDigits 10 n).all Char.isDigit = true :=
    List.all_eq_true.mpr fun c hc => Nat.isDigit_of_mem_toDigits (by decide) (by decide) hc
  have hvalue : digitsValue (Nat.toDigits 10 n) = n :=
    Nat.ofDigitChars_toDigits (by decide) (by decide)
  simp [Decimal.parseInt?.unsigned, hne, hdigits, hvalue]

/-- Without a sign the digits are all there is. -/
theorem parseInt?_unsigned (n : Nat) : Decimal.parseInt? (Nat.toDigits 10 n) = some (n : Int) := by
  have hdigit : ∀ c ∈ Nat.toDigits 10 n, c.isDigit = true := fun c hc =>
    Nat.isDigit_of_mem_toDigits (by decide) (by decide) hc
  unfold Decimal.parseInt?
  split
  · next ds heq => exact absurd (hdigit '-' (by simp [heq])) (by decide)
  · next ds heq => exact absurd (hdigit '+' (by simp [heq])) (by decide)
  · rw [parseInt?_digits]
    rfl

theorem trim_decimalText (n : Int) : trim (decimalText n).toList = (decimalText n).toList := by
  have hblank : ∀ c ∈ Nat.toDigits 10 n.natAbs, isBlank c = false := fun c hc =>
    isBlank_of_isDigit (Nat.isDigit_of_mem_toDigits (by decide) (by decide) hc)
  unfold decimalText
  split
  · rw [String.toList_ofList, trim_of_forall (List.forall_mem_cons.mpr ⟨by decide, hblank⟩)]
  · rw [String.toList_ofList, trim_of_forall hblank]

/-- The decimal text of a whole number is read as the number. -/
theorem parseInt?_toList_decimalText (n : Int) :
    Decimal.parseInt? (decimalText n).toList = some n := by
  unfold decimalText
  by_cases hn : n < 0
  · have hvalue : -(n.natAbs : Int) = n := by omega
    rw [if_pos hn, String.toList_ofList, Decimal.parseInt?, parseInt?_digits]
    exact congrArg some hvalue
  · have hvalue : (n.natAbs : Int) = n := by omega
    rw [if_neg hn, String.toList_ofList, parseInt?_unsigned, hvalue]

theorem parseInt?_decimalText (n : Int) :
    Decimal.parseInt? (trim (decimalText n).toList) = some n := by
  rw [trim_decimalText, parseInt?_toList_decimalText]

/-! ### Fractions -/

namespace Number.Ratio

/-- A fraction in lowest terms is made of its own parts. -/
theorem ofFraction?_self (r : Ratio) : ofFraction? r.num r.den = some r := by
  have hpos := r.den_pos
  have hgcd : Nat.gcd r.num.natAbs r.den = 1 := r.coprime
  have hnum :
      (if (r.num < 0) ≠ ((r.den : Int) < 0) then -(r.num.natAbs : Int) else
      r.num.natAbs) = r.num := by
    by_cases hneg : r.num < 0
    · rw [if_pos (by simp [hneg])]
      omega
    · rw [if_neg (by simp [hneg])]
      omega
  rw [ofFraction?_eq_some_iff_parts]
  simp only [Int.natAbs_natCast, hgcd, Nat.div_one, hnum]
  exact ⟨by omega, trivial, trivial⟩

/-- Lowest terms have the value of the two numbers that they are made of. -/
theorem cross_mul_of_ofFraction? {n d : Int} {r : Ratio} (h : ofFraction? n d = some r) :
    d ≠ 0 ∧ r.num * d = n * r.den := by
  obtain ⟨hd, hnum, hden⟩ := ofFraction?_eq_some_iff_parts.mp h
  refine ⟨hd, ?_⟩
  obtain ⟨a, ha⟩ := Nat.gcd_dvd_left n.natAbs d.natAbs
  obtain ⟨b, hb⟩ := Nat.gcd_dvd_right n.natAbs d.natAbs
  have hpos : 0 < Nat.gcd n.natAbs d.natAbs := Nat.gcd_pos_of_pos_right _ (by omega)
  generalize Nat.gcd n.natAbs d.natAbs = g at ha hb hpos hnum hden
  have hcast : (n.natAbs : Int) = g * a ∧ (d.natAbs : Int) = g * b := by
    exact_mod_cast And.intro ha hb
  rw [ha, Nat.mul_div_cancel_left a hpos] at hnum
  rw [hb, Nat.mul_div_cancel_left b hpos] at hden
  rw [← hnum, ← hden]
  by_cases hn : n < 0
  · have hn' : n = -(g * a) := by omega
    by_cases hs : d < 0
    · have hd' : d = -(g * b) := by omega
      rw [if_neg (by simp [hn, hs]), hn', hd']
      ring
    · have hd' : d = g * b := by omega
      rw [if_pos (by simp [hn, hs]), hn', hd']
      ring
  · have hn' : n = g * a := by omega
    by_cases hs : d < 0
    · have hd' : d = -(g * b) := by omega
      rw [if_pos (by simp [hn, hs]), hn', hd']
      ring
    · have hd' : d = g * b := by omega
      rw [if_neg (by simp [hn, hs]), hn', hd']
      ring

end Number.Ratio

end Offside
