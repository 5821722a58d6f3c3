import Offside.Proofs.ReadBack

/-!
# Fractions are exact

Two whole numbers make the fraction that their quotient is in lowest terms, whatever their signs and
whatever they have in common. There is none exactly if the lower number is zero or if a part of the
quotient takes more than 128 bits, so two fractions are the same exactly if the quotients are. A
fraction in JSON is what its two parts make.
-/
namespace Offside

open Number

namespace Number.Ratio

/-- The fraction as a rational number. -/
def toRat (r : Ratio) : ℚ := ⟨r.num, r.den, r.den_pos.ne', r.coprime⟩

theorem toRat_injective : Function.Injective toRat := by
  intro r s h
  exact eq_iff.mpr ⟨congrArg Rat.num h, congrArg Rat.den h⟩

/-- A rational number as a fraction, if both of its parts fit. -/
def ofRat? (q : ℚ) : Option Ratio :=
  if h : Fits128 q.num ∧ Fits128 q.den then
    some
      { num := q.num, den := q.den, den_pos := q.den_pos, coprime := q.reduced
        num_fits := h.1, den_fits := h.2 }
  else none

theorem ofRat?_eq_some_iff {q : ℚ} {r : Ratio} : ofRat? q = some r ↔ r.toRat = q := by
  constructor
  · intro h
    obtain ⟨_, hr⟩ := Option.dite_none_right_eq_some.mp h
    rw [← Option.some.inj hr]
    rfl
  · rintro rfl
    exact dif_pos ⟨r.num_fits, r.den_fits⟩

theorem isSome_ofRat? (q : ℚ) : (ofRat? q).isSome ↔ Fits128 q.num ∧ Fits128 q.den := by
  unfold ofRat?
  split <;> simp_all

/-! ### The parts of a quotient -/

section

variable {n d : Int}

/-- The sign goes above. -/
theorem sign_mul_eq (hd : d ≠ 0) :
    d.sign * n = if (n < 0) ≠ (d < 0) then -(n.natAbs : Int) else n.natAbs := by
  rcases Int.lt_or_gt_of_ne hd with hneg | hpos
  · rw [Int.sign_eq_neg_one_of_neg hneg]
    by_cases hn : n < 0
    · rw [if_neg (by simp [hn, hneg])]
      omega
    · rw [if_pos (by simp [hn, hneg])]
      omega
  · have hd' : ¬ d < 0 := by omega
    rw [Int.sign_eq_one_of_pos hpos]
    by_cases hn : n < 0
    · rw [if_pos (by simp [hn, hd'])]
      omega
    · rw [if_neg (by simp [hn, hd'])]
      omega

theorem num_quotient (hd : d ≠ 0) :
    ((n : ℚ) / d).num = if (n < 0) ≠ (d < 0) then
      -((n.natAbs / Nat.gcd n.natAbs d.natAbs : Nat) : Int)
      else ((n.natAbs / Nat.gcd n.natAbs d.natAbs : Nat) : Int) := by
  have hdvd : ((Nat.gcd n.natAbs d.natAbs : Nat) : Int) ∣ n.natAbs :=
    Int.natCast_dvd_natCast.mpr (Nat.gcd_dvd_left ..)
  rw [← Rat.divInt_eq_div, Rat.num_divInt, sign_mul_eq hd, Int.gcd, Nat.gcd_comm d.natAbs]
  split
  · rw [Int.neg_ediv_of_dvd hdvd, Int.natCast_div]
  · rw [Int.natCast_div]

theorem den_quotient (hd : d ≠ 0) : ((n : ℚ) / d).den = d.natAbs / Nat.gcd n.natAbs d.natAbs := by
  rw [← Rat.divInt_eq_div, Rat.den_divInt, if_neg hd, Int.gcd, Nat.gcd_comm]

end

/-- Two whole numbers make the fraction that is their quotient. -/
theorem ofFraction?_eq_ofRat? {n d : Int} (hd : d ≠ 0) :
    ofFraction? n d = ofRat? ((n : ℚ) / d) := by
  ext r
  have hparts : r.toRat = (n : ℚ) / d ↔ ((n : ℚ) / d).num = r.num ∧ ((n : ℚ) / d).den = r.den :=
    ⟨fun h => by simp [← h, toRat], fun ⟨hnum, hden⟩ => Rat.ext hnum.symm hden.symm⟩
  rw [ofFraction?_eq_some_iff_parts, ofRat?_eq_some_iff, hparts, num_quotient hd, den_quotient hd]
  exact and_iff_right hd

theorem ofFraction?_zero (n : Int) : ofFraction? n 0 = none :=
  Option.eq_none_iff_forall_ne_some.mpr fun _ h => (ofFraction?_eq_some_iff_parts.mp h).1 rfl

theorem ofFraction?_eq_some_iff {n d : Int} {r : Ratio} :
    ofFraction? n d = some r ↔ d ≠ 0 ∧ r.toRat = (n : ℚ) / d := by
  by_cases hd : d = 0
  · simp [hd, ofFraction?_zero]
  · rw [ofFraction?_eq_ofRat? hd, ofRat?_eq_some_iff]
    exact (and_iff_right hd).symm

theorem isSome_ofFraction? (n d : Int) :
    (ofFraction? n d).isSome ↔ d ≠ 0 ∧ Fits128 ((n : ℚ) / d).num ∧ Fits128 ((n : ℚ) / d).den := by
  by_cases hd : d = 0
  · simp [hd, ofFraction?_zero]
  · rw [ofFraction?_eq_ofRat? hd, isSome_ofRat?]
    exact (and_iff_right hd).symm

end Number.Ratio

namespace Syntax

open Read

theorem readRatio_eq_ok_iff {L : Library} {p : Place} {j : Json} {r : Ratio} :
    readRatio L p j = .ok r ↔
      ∃ n d : Int128, readRatioParts L p j = .ok (n, d) ∧
        Ratio.ofFraction? n.val d.val = some r := by
  constructor
  · intro h
    obtain ⟨⟨n, d⟩, hparts, hr⟩ := of_bind_eq_ok h
    refine ⟨n, d, hparts, ?_⟩
    cases hfraction : Ratio.ofFraction? n.val d.val with
    | none => simp [hfraction] at hr
    | some s => simpa [hfraction] using hr
  · rintro ⟨n, d, hparts, hr⟩
    exact bind_ok hparts (by simp [hr])

/-- The whole numbers of 128 bits in JSON: a number of 64 bits, signed or not, or a text. -/
inductive IsWide : Json → Int128 → Prop where
  | number {n : Int128} (low : -2 ^ 63 ≤ n.val) (high : n.val < 2 ^ 64) : IsWide (.int n.val) n
  | text {s : String} {n : Int128} (value : Decimal.parseInt? (Text.trim s.toList) = some n.val) :
    IsWide (.string s) n

theorem int128_eq_ok_iff {L : Library} {p : Place} {j : Json} {n : Int128} (hj : j.Within L.limit) :
    int128 L p j = .ok n ↔ IsWide j n := by
  constructor
  · intro h
    obtain ⟨x, hx, hn⟩ := of_bind_eq_ok h
    have hx := (L.numberOrText_agree p hj x).mp hx
    cases j with
    | int k =>
      simp only [Read.numberOrText] at hx
      split at hx
      · next hrange =>
        cases hx
        cases hk : Int128.ofInt? k with
        | none => simp [hk, malformed] at hn
        | some m =>
          obtain rfl : m = n := by simpa [hk] using hn
          obtain rfl := Int128.ofInt?_eq_some_iff.mp hk
          exact .number (by omega) (by omega)
      · cases hx
    | string s =>
      cases hx
      cases hk : (Decimal.parseInt? (Text.trim s.toList)).bind Int128.ofInt? with
      | none => simp [hk] at hn
      | some m =>
        obtain rfl : m = n := by simpa [hk] using hn
        obtain ⟨k, hparse, hk⟩ := Option.bind_eq_some_iff.mp hk
        exact .text (Int128.ofInt?_eq_some_iff.mp hk ▸ hparse)
    | _ => cases hx
  · rintro (⟨low, high⟩ | ⟨value⟩)
    · have hx : Read.numberOrText p (.int n.val) = .ok (.inl n.val) := if_pos (by omega)
      refine bind_ok ((L.numberOrText_agree p hj _).mpr hx) ?_
      simp [Int128.ofInt?_val]
    · refine bind_ok ((L.numberOrText_agree p hj _).mpr rfl) ?_
      simp [value, Int128.ofInt?_val]

/-- The two numbers of a fraction are the values of two members. -/
theorem readRatioParts_eq_ok_iff {L : Library} {p : Place} {ms : List (String × Json)}
    {n d : Int128} (hms : (Json.object ms).Within L.limit) :
    readRatioParts L p (.object ms) = .ok (n, d) ↔
      ∃ a b : Json, ms.lookup "numerator" = some a ∧ ms.lookup "denominator" = some b ∧
        IsWide a n ∧ IsWide b d := by
  have hpart {key : String} {k : Int128} : part ⟨p, .object ms⟩ key (int128 L) = .ok k ↔
      ∃ v, ms.lookup key = some v ∧ IsWide v k := by
    unfold part
    simp only [Json.get?]
    cases hv : ms.lookup key with
    | none => simp [malformed]
    | some v => simp [int128_eq_ok_iff (hms.member hv)]
  rw [readRatioParts, L.record_agree _ _ p hms (n, d)]
  constructor
  · intro h
    obtain ⟨n', hn, h⟩ := of_bind_eq_ok h
    obtain ⟨d', hd, h⟩ := of_bind_eq_ok h
    cases h
    obtain ⟨a, ha, hn⟩ := hpart.mp hn
    obtain ⟨b, hb, hd⟩ := hpart.mp hd
    exact ⟨a, b, ha, hb, hn, hd⟩
  · rintro ⟨a, b, ha, hb, hn, hd⟩
    exact bind_ok (hpart.mpr ⟨a, ha, hn⟩) (bind_ok (hpart.mpr ⟨b, hb, hd⟩) rfl)

/-- Two numbers of 128 bits make a fraction exactly if the lower one is not zero and both parts of
their quotient in lowest terms fit. Then the fraction is in lowest terms, its denominator is
positive and its value is the quotient, so two fractions are the same exactly if the quotients are.
In JSON a fraction is read exactly if its two numbers are read and make one; these are the numbers
that two members of the object stand for. -/
theorem fractions_are_exact :
    (∀ n d : Int128, (Ratio.ofFraction? n.val d.val).isSome ↔
      d.val ≠ 0 ∧ Fits128 ((n.val : ℚ) / d.val).num ∧ Fits128 ((n.val : ℚ) / d.val).den) ∧
    (∀ (n d : Int128) (r : Ratio), Ratio.ofFraction? n.val d.val = some r →
      0 < r.den ∧ Nat.Coprime r.num.natAbs r.den ∧ r.num * d.val = n.val * r.den) ∧
    (∀ (n d n' d' : Int128) (r r' : Ratio), Ratio.ofFraction? n.val d.val = some r →
      Ratio.ofFraction? n'.val d'.val = some r' →
        (r = r' ↔ (n.val : ℚ) / d.val = n'.val / d'.val)) ∧
    (∀ (L : Library) (p : Place) (j : Json) (r : Ratio), readRatio L p j = .ok r ↔
      ∃ n d : Int128, readRatioParts L p j = .ok (n, d) ∧ Ratio.ofFraction? n.val d.val = some r) ∧
    ∀ (L : Library) (p : Place) (ms : List (String × Json)) (n d : Int128),
      (Json.object ms).Within L.limit →
      (readRatioParts L p (.object ms) = .ok (n, d) ↔
        ∃ a b : Json, ms.lookup "numerator" = some a ∧ ms.lookup "denominator" = some b ∧
          IsWide a n ∧ IsWide b d) := by
  refine ⟨fun n d => Ratio.isSome_ofFraction? n.val d.val, ?_, ?_,
    fun L p j r => readRatio_eq_ok_iff, fun L p ms n d hms => readRatioParts_eq_ok_iff hms⟩
  · intro n d r hr
    exact ⟨r.den_pos, r.coprime, (Ratio.cross_mul_of_ofFraction? hr).2⟩
  · intro n d n' d' r r' hr hr'
    obtain ⟨-, hvalue⟩ := Ratio.ofFraction?_eq_some_iff.mp hr
    obtain ⟨-, hvalue'⟩ := Ratio.ofFraction?_eq_some_iff.mp hr'
    rw [← hvalue, ← hvalue']
    exact Ratio.toRat_injective.eq_iff.symm

/-- The least number over itself is one; over minus one it would be one more than the largest
number. -/
theorem least_number_over_itself_is_one :
    let least : Int128 := ⟨-0x80000000000000000000000000000000, by decide⟩
    let minusOne : Int128 := ⟨-1, by decide⟩
    (∃ r, Ratio.ofFraction? least.val least.val = some r ∧ r.num * least.val = least.val * r.den) ∧
      Ratio.ofFraction? least.val minusOne.val = none := by
  intro least minusOne
  obtain ⟨hsome, hparts, -⟩ := fractions_are_exact
  constructor
  · have hone : (least.val : ℚ) / least.val = 1 := div_self (by decide)
    have hfits : (Ratio.ofFraction? least.val least.val).isSome := by
      rw [hsome, hone]
      decide
    obtain ⟨r, hr⟩ := Option.isSome_iff_exists.mp hfits
    exact ⟨r, hr, (hparts _ _ r hr).2.2⟩
  · have hquotient :
        (least.val : ℚ) / minusOne.val = (0x80000000000000000000000000000000 : Int) := by
      norm_num [least, minusOne]
    rw [← Option.not_isSome_iff_eq_none, hsome, hquotient, Rat.num_intCast]
    decide

end Syntax

end Offside
