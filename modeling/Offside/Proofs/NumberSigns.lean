import Offside.Proofs.Joints

/-!
# The signs of written numbers

A number is written with a minus sign exactly if it is below zero, also where it is rounded to a
binary format first: a fraction becomes no value without a sign, since its denominator is rounded to
a value above zero. What is written ends in a digit or a letter.
-/
namespace Offside

open Number Reading

namespace Reading

theorem not_sign_of_isDigit {c : Char} (hc : c.isDigit = true) : c ∉ asciiSymbols ∧ c ≠ '\x7b' := by
  constructor
  · intro h
    have hall : asciiSymbols.all (fun d => !d.isDigit) = true := by decide
    simpa [hc] using List.all_eq_true.mp hall c h
  · rintro rfl
    exact absurd hc (by decide)

theorem opensSoftly_of_isDigit {s : String} (hs : ∀ c ∈ s.toList.head?, c.isDigit = true) :
    opensSoftly s = true := by
  rw [opensSoftly, Option.all_eq_true]
  exact fun c hc => by simpa using (not_sign_of_isDigit (hs c hc)).1

theorem closesSoftly_of_isDigit {s : String} (hs : ∀ c ∈ s.toList.getLast?, c.isDigit = true) :
    closesSoftly s = true := by
  rw [closesSoftly, Option.all_eq_true]
  exact fun c hc => by simpa using not_sign_of_isDigit (hs c hc)

end Reading

/-! ### Whole numbers -/

theorem isDigit_toDigits (n : Nat) : ∀ c ∈ Nat.toDigits 10 n, c.isDigit = true := fun _ hc =>
  Nat.isDigit_of_mem_toDigits (by decide) (by decide) hc

theorem isDigit_last_decimalText (n : Int) :
    ∀ c ∈ (decimalText n).toList.getLast?, c.isDigit = true := by
  have hdigits := isDigit_toDigits n.natAbs
  intro c hc
  unfold decimalText at hc
  split at hc
  · rw [String.toList_ofList, List.getLast?_cons_of_ne_nil Nat.toDigits_ne_nil] at hc
    exact hdigits c (List.mem_of_mem_getLast? hc)
  · rw [String.toList_ofList] at hc
    exact hdigits c (List.mem_of_mem_getLast? hc)

theorem head?_decimalText {n : Int} (hn : n < 0) : (decimalText n).toList.head? = some '-' := by
  rw [decimalText, if_pos hn, String.toList_ofList, List.head?_cons]

theorem opensSoftly_decimalText {n : Int} (hn : ¬ n < 0) : opensSoftly (decimalText n) = true := by
  apply opensSoftly_of_isDigit
  rw [decimalText, if_neg hn, String.toList_ofList]
  exact fun c hc => isDigit_toDigits _ c (List.mem_of_mem_head? hc)

/-! ### Binary numbers -/

theorem isDigit_orZero {cs : List Char} (hcs : ∀ c ∈ cs, c.isDigit = true) :
    ∀ c ∈ orZero cs, c.isDigit = true := by
  unfold orZero
  split
  · simp
  · exact hcs

theorem orZero_ne_nil (cs : List Char) : orZero cs ≠ [] := by
  unfold orZero
  split
  · simp
  · next h => simpa using h

section

variable {digits : List Char} (hdigits : ∀ c ∈ digits, c.isDigit = true)
include hdigits

theorem isDigit_head_magnitudeText (hne : digits ≠ []) (e : Int32) :
    ∀ c ∈ (magnitudeText digits e).head?, c.isDigit = true := by
  intro c hc
  unfold magnitudeText at hc
  split at hc
  · have hwhole : ∀ n, ∀ c ∈ digits.take n ++ List.replicate (n - digits.length) '0',
        c.isDigit = true := by
      intro n
      rw [List.forall_mem_append]
      refine ⟨fun c hc => hdigits c (List.mem_of_mem_take hc), fun c hc => ?_⟩
      rw [List.eq_of_mem_replicate hc]
      decide
    rw [positional, List.head?_append_of_ne_nil _ (orZero_ne_nil _)] at hc
    exact isDigit_orZero (hwhole _) c (List.mem_of_mem_head? hc)
  · obtain ⟨d, ds, rfl⟩ := List.exists_cons_of_ne_nil hne
    obtain rfl : d = c := by simpa [scientific] using hc
    exact hdigits d (by simp)

theorem isDigit_last_magnitudeText (e : Int32) :
    ∀ c ∈ (magnitudeText digits e).getLast?, c.isDigit = true := by
  intro c hc
  unfold magnitudeText at hc
  split at hc
  · rw [positional, List.getLast?_append_of_ne_nil _ (by simp),
      List.getLast?_cons_of_ne_nil (orZero_ne_nil _)] at hc
    exact isDigit_orZero (fun c hc => hdigits c (List.mem_of_mem_drop hc)) c
      (List.mem_of_mem_getLast? hc)
  · have hne : (decimalText (e - 1).toInt).toList ≠ [] := by
      simpa using (isWord_decimalText (e - 1).toInt).1
    rw [scientific, List.getLast?_append_of_ne_nil _ (by simp),
      List.getLast?_cons_of_ne_nil hne] at hc
    exact isDigit_last_decimalText _ c hc

end

theorem closesSoftly_realText {f : Format} (x : Binary f) : closesSoftly (realText x) = true := by
  have happend : ∀ s t : String, t ≠ "" → closesSoftly t = true → closesSoftly (s ++ t) = true := by
    intro s t ht hsoft
    rwa [closesSoftly, String.toList_append, List.getLast?_append_of_ne_nil _ (by simpa using ht),
      ← closesSoftly]
  cases x with
  | nan => exact (by decide : closesSoftly "NaN" = true)
  | infinite negative => exact happend _ _ (by decide) (by decide)
  | finite negative significand exponent =>
    by_cases hzero : significand = 0
    · subst hzero
      exact happend _ _ (by decide) (by decide)
    · obtain ⟨e, he⟩ := realText_finite negative hzero exponent
      rw [he]
      apply happend
      · simpa using magnitudeText_ne_nil _ _
      · apply closesSoftly_of_isDigit
        rw [String.toList_ofList]
        exact isDigit_last_magnitudeText (isDigit_toDigits _) _

namespace Number.Binary

variable {f g : Format}

/-- Whether the value has a minus sign. -/
def isNegative : Binary f → Bool
  | .nan => false
  | .infinite negative => negative
  | .finite negative _ _ => negative

/-- Rounding keeps the sign. -/
theorem ofFraction_cases (negative : Bool) (num den : Nat) :
    (ofFraction negative num den : Binary f) = .infinite negative ∨
      ∃ m q, (ofFraction negative num den : Binary f) = .finite negative m q := by
  have hite : ∀ (p : Prop) [Decidable p] (m : Nat) (q : Int),
      (if p then .infinite negative else .finite negative m q : Binary f) = .infinite negative ∨
        ∃ m' q', (if p then .infinite negative else .finite negative m q : Binary f) =
        .finite negative m' q' := by
    intro p _ m q
    by_cases hp : p
    · exact .inl (if_pos hp)
    · exact .inr ⟨m, q, if_neg hp⟩
  unfold ofFraction
  split
  · exact .inr ⟨_, _, rfl⟩
  · exact hite _ _ _

theorem isNegative_ofFraction (negative : Bool) (num den : Nat) :
    (ofFraction negative num den : Binary f).isNegative = negative := by
  obtain h | ⟨m, q, h⟩ := ofFraction_cases (f := f) negative num den <;> rw [h, isNegative]

theorem isNegative_convert (x : Binary f) : (x.convert : Binary g).isNegative = x.isNegative := by
  cases x with
  | nan => rfl
  | infinite negative => rfl
  | finite negative significand exponent => exact isNegative_ofFraction _ _ _

theorem head?_realText {x : Binary f} (hx : x.isNegative = true) :
    (realText x).toList.head? = some '-' := by
  cases x with
  | nan => simp [isNegative] at hx
  | infinite negative =>
    obtain rfl : negative = true := hx
    simp [realText, showReal, showReal.sign]
  | finite negative significand exponent =>
    obtain rfl : negative = true := hx
    by_cases hzero : significand = 0
    · simp [hzero, realText_zero, showReal.sign]
    · obtain ⟨e, he⟩ := realText_finite (f := f) true hzero exponent
      simp [he, showReal.sign]

theorem opensSoftly_realText {x : Binary f} (hx : x.isNegative = false) :
    opensSoftly (realText x) = true := by
  cases x with
  | nan => exact (by decide : opensSoftly "NaN" = true)
  | infinite negative =>
    obtain rfl : negative = false := hx
    exact (by decide : opensSoftly "Infinity" = true)
  | finite negative significand exponent =>
    obtain rfl : negative = false := hx
    by_cases hzero : significand = 0
    · rw [hzero, realText_zero]
      decide
    · obtain ⟨e, he⟩ := realText_finite false hzero exponent
      rw [he]
      apply opensSoftly_of_isDigit
      simp only [showReal.sign, Bool.false_eq_true, if_false, String.empty_append,
        String.toList_ofList]
      exact isDigit_head_magnitudeText (isDigit_toDigits _) Nat.toDigits_ne_nil _

/-! ### Fractions -/

theorem le_roundDiv (n d : Nat) : n / d ≤ roundDiv n d := by
  unfold roundDiv
  dsimp only
  split_ifs <;> omega

theorem floorLog2_one {n : Nat} (hn : n ≠ 0) : floorLog2 n 1 = n.log2 := by
  have hle := Nat.log2_self_le hn
  have hone : Nat.log2 1 = 0 := by decide
  have hshift : (shift n 1 (-(n.log2 : Int))).2 ≤ (shift n 1 (-(n.log2 : Int))).1 := by
    unfold shift
    split
    · exact Nat.mul_pos (Nat.pos_of_ne_zero hn) (Nat.pow_pos (by decide))
    · simpa using hle
  unfold floorLog2
  simp only [hone, Nat.cast_zero, Int.sub_zero, if_pos hshift]

/-- A whole number of at most 128 bits is rounded to a finite value above zero. -/
theorem ofNat_eq_finite {n : Nat} (hpos : n ≠ 0) (hfits : n < 2 ^ 128) :
    ∃ m q, (ofNat n : Double) = .finite false m q ∧ m ≠ 0 := by
  have hlog : n.log2 < 128 := (Nat.log2_lt hpos).mpr hfits
  have hmin : Format.double.minExponent = -1074 := by decide
  have hmax : Format.double.maxExponent = 971 := by decide
  have hexponent : max Format.double.minExponent (floorLog2 n 1 + 1 - Format.double.precision) =
      (n.log2 : Int) - 52 := by
    have hprecision : Format.double.precision = 53 := rfl
    rw [floorLog2_one hpos, hmin, hprecision]
    omega
  have hround :
      roundDiv (shift n 1 (-((n.log2 : Int) - 52))).1
        (shift n 1 (-((n.log2 : Int) - 52))).2 ≠ 0 := by
    apply Nat.ne_of_gt
    refine Nat.lt_of_lt_of_le ?_ (le_roundDiv _ _)
    unfold shift
    split
    · simp only [Nat.pow_eq, Nat.div_one]
      positivity
    · simp only [Nat.pow_eq, one_mul, Int.neg_neg]
      apply Nat.div_pos _ (by positivity)
      calc 2 ^ ((n.log2 : Int) - 52).toNat ≤ 2 ^ n.log2 :=
        Nat.pow_le_pow_right (by decide) (by omega)
        _ ≤ n := Nat.log2_self_le hpos
  unfold ofNat ofFraction
  rw [if_neg hpos, hexponent]
  dsimp only
  generalize roundDiv _ _ = m at hround ⊢
  by_cases hcarry : m = Nat.pow 2 Format.double.precision
  · rw [if_pos hcarry]
    dsimp only
    rw [if_neg (by rw [hmax]; omega)]
    refine ⟨_, _, rfl, ?_⟩
    rw [hcarry]
    decide
  · rw [if_neg hcarry]
    dsimp only
    rw [if_neg (by rw [hmax]; omega)]
    exact ⟨_, _, rfl, hround⟩

/-- The double of a fraction has the sign of the fraction. -/
theorem isNegative_toDouble (r : Ratio) : r.toDouble.isNegative = decide (r.num < 0) := by
  have hden : r.den < 2 ^ 128 := by
    have hfits := r.den_fits.2
    omega
  obtain ⟨n, q, hfinite, hn⟩ := ofNat_eq_finite (Nat.ne_of_gt r.den_pos) hden
  rw [Ratio.toDouble, hfinite, ofInt]
  obtain h | ⟨m, e, h⟩ := ofFraction_cases (f := .double) (decide (r.num < 0)) r.num.natAbs 1
  · rw [h, div, isNegative, Bool.bne_false]
  · rw [h, div, if_neg hn]
    dsimp only
    rw [isNegative_ofFraction, Bool.bne_false]

end Number.Binary

end Offside
