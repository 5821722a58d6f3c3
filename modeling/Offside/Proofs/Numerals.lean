import Offside.Proofs.NumberSigns
import Offside.Proofs.WrittenNumbers

/-!
# Written decimal numbers keep their value

A positive number in scientific form is given by its digits and a power of ten. It is written with
digits on both sides of a point, positionally from one tenth up to below ten million and with a
power of ten otherwise. Either way the text is read as the number that the scientific form stands
for: digits are moved across the point, and the zeros that are filled in count for nothing.
-/
namespace Offside.Number

/-! ### The value of a decimal -/

/-- The number that a decimal stands for. -/
def Decimal.value (d : Decimal) : ℚ := (if d.negative then -1 else 1) * d.digits * 10 ^ d.exponent

theorem digitsValue_append (xs ys : List Char) :
    digitsValue (xs ++ ys) = 10 ^ ys.length * digitsValue xs + digitsValue ys := by
  have h : ∀ cs, digitsValue cs = Nat.ofDigitChars 10 cs 0 := fun _ => rfl
  rw [h, h, h, Nat.ofDigitChars_append, Nat.ofDigitChars_eq_ofDigitChars_zero]

@[simp] theorem digitsValue_replicate_zero (n : Nat) : digitsValue (List.replicate n '0') = 0 :=
  Nat.ofDigitChars_replicate_zero

/-- Zeros after the last digit count for nothing if the power of ten makes up for them. -/
theorem digitsValue_zeros_mul (cs : List Char) (k : Nat) (x : Int) :
    (digitsValue (cs ++ List.replicate k '0') : ℚ) * 10 ^ (x - k) = digitsValue cs * 10 ^ x := by
  rw [digitsValue_append, digitsValue_replicate_zero, List.length_replicate, Nat.add_zero]
  push_cast
  rw [mul_comm ((10 : ℚ) ^ k), mul_assoc, ← zpow_natCast, ← zpow_add₀ (by norm_num), add_sub_cancel]

theorem digitsValue_zero_cons (cs : List Char) : digitsValue ('0' :: cs) = digitsValue cs := rfl

theorem digitsValue_cons (c : Char) (cs : List Char) :
    digitsValue (c :: cs) = 10 ^ cs.length * (c.toNat - '0'.toNat) + digitsValue cs := by
  rw [← List.singleton_append, digitsValue_append]
  simp [digitsValue]

theorem toNat_bounds_of_isDigit {c : Char} (hc : c.isDigit = true) :
    '0'.toNat ≤ c.toNat ∧ c.toNat ≤ '9'.toNat := by
  simpa [Char.isDigit, UInt32.le_iff_toNat_le] using hc

theorem digitsValue_lt {cs : List Char} (hcs : ∀ c ∈ cs, c.isDigit = true) :
    digitsValue cs < 10 ^ cs.length := by
  induction cs with
  | nil => decide
  | cons c cs ih =>
    obtain ⟨hc, hcs⟩ := List.forall_mem_cons.mp hcs
    have hdigit := toNat_bounds_of_isDigit hc
    have hrest := ih hcs
    have hnine : 10 ^ cs.length * (c.toNat - '0'.toNat) ≤ 10 ^ cs.length * 9 :=
      Nat.mul_le_mul_left _ (by grind)
    rw [digitsValue_cons, List.length_cons, Nat.pow_succ]
    omega

/-- The digits of a positive number in scientific form: the first one is not zero. The last one may
be. -/
structure IsSignificand (digits : List Char) : Prop where
  isDigit : ∀ c ∈ digits, c.isDigit = true
  first : ∃ c ∈ digits.head?, c ≠ '0'

/-- The number `d₁.d₂… * 10 ^ x`. -/
def scientificValue (digits : List Char) (x : Int) : ℚ :=
  digitsValue digits * 10 ^ (x + 1 - digits.length)

namespace IsSignificand

variable {digits : List Char} (h : IsSignificand digits)
include h

theorem exists_cons : ∃ d ds, digits = d :: ds ∧ d ≠ '0' := by
  obtain ⟨d, hd, hzero⟩ := h.first
  cases digits with
  | nil => simp at hd
  | cons c ds =>
    obtain rfl : c = d := by simpa using hd
    exact ⟨c, ds, rfl, hzero⟩

theorem ne_nil : digits ≠ [] := by
  obtain ⟨d, ds, rfl, -⟩ := h.exists_cons
  simp

theorem le_digitsValue : 10 ^ (digits.length - 1) ≤ digitsValue digits := by
  obtain ⟨d, ds, rfl, hd⟩ := h.exists_cons
  have hbounds := toNat_bounds_of_isDigit (h.isDigit d (by simp))
  have hpos : 1 ≤ d.toNat - '0'.toNat := by
    have hne : d.toNat ≠ '0'.toNat := fun heq => hd (Char.toNat_inj.mp heq)
    omega
  calc 10 ^ ((d :: ds).length - 1) = 10 ^ ds.length * 1 := by simp
    _ ≤ 10 ^ ds.length * (d.toNat - '0'.toNat) := Nat.mul_le_mul_left _ hpos
    _ ≤ digitsValue (d :: ds) := by
      rw [digitsValue_cons]
      omega

/-- The first digit tells the power of ten. -/
theorem zpow_le_scientificValue (x : Int) : (10 : ℚ) ^ x ≤ scientificValue digits x := by
  have hlength : 0 < digits.length := List.length_pos_iff.mpr h.ne_nil
  have hle : (10 : ℚ) ^ (digits.length - 1) ≤ digitsValue digits := by
    exact_mod_cast h.le_digitsValue
  calc (10 : ℚ) ^ x = 10 ^ (digits.length - 1) * 10 ^ (x + 1 - digits.length) := by
        rw [← zpow_natCast, ← zpow_add₀ (by norm_num)]
        congr 1
        omega
    _ ≤ digitsValue digits * 10 ^ (x + 1 - digits.length) := by gcongr

theorem scientificValue_lt_zpow (x : Int) : scientificValue digits x < (10 : ℚ) ^ (x + 1) := by
  have hlt : (digitsValue digits : ℚ) < 10 ^ digits.length := by
    exact_mod_cast digitsValue_lt h.isDigit
  calc (digitsValue digits : ℚ) * 10 ^ (x + 1 - digits.length) <
    10 ^ digits.length * 10 ^ (x + 1 - digits.length) := by
        gcongr
    _ = 10 ^ (x + 1) := by
        rw [← zpow_natCast, ← zpow_add₀ (by norm_num)]
        congr 1
        omega

theorem scientificValue_range (x : Int) :
    (1 / 10 ≤ scientificValue digits x ∧ scientificValue digits x < 10 ^ 7) ↔
      0 ≤ x + 1 ∧ x + 1 ≤ 7 := by
  have hlow := h.zpow_le_scientificValue x
  have hhigh := h.scientificValue_lt_zpow x
  have htenth : (1 / 10 : ℚ) = 10 ^ (-1 : Int) := by norm_num
  have hmillions : (10 : ℚ) ^ 7 = 10 ^ (7 : Int) := by norm_num
  rw [htenth, hmillions]
  constructor
  · rintro ⟨hle, hlt⟩
    have h1 : (-1 : Int) < x + 1 := (zpow_lt_zpow_iff_right₀ (by norm_num)).mp (hle.trans_lt hhigh)
    have h2 : x < 7 := (zpow_lt_zpow_iff_right₀ (by norm_num)).mp (hlow.trans_lt hlt)
    omega
  · rintro ⟨hle, hlt⟩
    exact ⟨(zpow_le_zpow_right₀ (by norm_num) (by omega)).trans hlow,
      hhigh.trans_le (zpow_le_zpow_right₀ (by norm_num) hlt)⟩

end IsSignificand

/-! ### Numbers with a point -/

/-- A number as it is written: digits before and after a point, and a power of ten behind them or
none. -/
structure Numeral where
  whole : List Char
  fraction : List Char
  exponent : Option Int

namespace Numeral

def exponentText : Option Int → List Char
  | none => []
  | some x => 'e' :: (decimalText x).toList

def text (n : Numeral) : List Char := n.whole ++ '.' :: n.fraction ++ exponentText n.exponent

/-- There are digits on both sides of the point. -/
structure WellFormed (n : Numeral) : Prop where
  whole_ne_nil : n.whole ≠ []
  fraction_ne_nil : n.fraction ≠ []
  isDigit : ∀ c ∈ n.whole ++ n.fraction, c.isDigit = true

/-- The number of a numeral. -/
def value (n : Numeral) : ℚ :=
  digitsValue (n.whole ++ n.fraction) * 10 ^ (n.exponent.getD 0 - n.fraction.length)

theorem takeWhile_digits {ds rest : List Char} (hds : ∀ c ∈ ds, c.isDigit = true)
    (hrest : ∀ c ∈ rest.head?, c.isDigit = false) :
    (ds ++ rest).takeWhile Char.isDigit = ds ∧ (ds ++ rest).dropWhile Char.isDigit = rest := by
  rw [List.takeWhile_append_of_pos hds, List.dropWhile_append_of_pos hds]
  cases rest with
  | nil => simp
  | cons c rest => simp [hrest c (by simp)]

theorem head?_exponentText (exponent : Option Int) :
    ∀ c ∈ (exponentText exponent).head?, c.isDigit = false := by
  cases exponent <;> simp [exponentText]

/-- Reading stops at the point and at the exponent. -/
theorem unsigned_text {n : Numeral} (hn : n.WellFormed) (negative : Bool) :
    Decimal.parse?.unsigned negative n.text =
      some ⟨negative, digitsValue (n.whole ++ n.fraction),
        n.exponent.getD 0 - n.fraction.length⟩ := by
  obtain ⟨hwhole, hfraction⟩ := List.forall_mem_append.mp hn.isDigit
  have hpoint : ∀ c ∈ ('.' :: (n.fraction ++ exponentText n.exponent)).head?,
      c.isDigit = false := by simp
  obtain ⟨htake, hdrop⟩ := takeWhile_digits hwhole hpoint
  obtain ⟨htake', hdrop'⟩ := takeWhile_digits hfraction (head?_exponentText n.exponent)
  have hne : (n.whole ++ n.fraction).isEmpty = false := by simp [hn.whole_ne_nil]
  rw [text, List.append_assoc, List.cons_append, Decimal.parse?.unsigned]
  simp only [htake, hdrop, htake', hdrop', hne]
  cases n.exponent with
  | none => simp [exponentText]
  | some x => simp [exponentText, parseInt?_toList_decimalText]

/-- Without a fraction reading stops at the exponent alone. -/
theorem unsigned_whole {whole : List Char} (hne : whole ≠ [])
    (hwhole : ∀ c ∈ whole, c.isDigit = true) (negative : Bool) (x : Int) :
    Decimal.parse?.unsigned negative (whole ++ exponentText (some x)) =
      some ⟨negative, digitsValue whole, x⟩ := by
  obtain ⟨htake, hdrop⟩ := takeWhile_digits hwhole (head?_exponentText (some x))
  have hempty : whole.isEmpty = false := by simpa using hne
  rw [Decimal.parse?.unsigned]
  simp only [htake, hdrop]
  simp [exponentText, hempty, parseInt?_toList_decimalText]

/-- What starts with a digit has no sign. -/
theorem parse?_of_isDigit {c : Char} (hc : c.isDigit = true) (cs : List Char) :
    Decimal.parse? (c :: cs) = Decimal.parse?.unsigned false (c :: cs) := by
  have hsign : ∀ d : Char, d.isDigit = false → ∀ ds, c :: cs = d :: ds → False := by
    intro d hd ds heq
    rw [← (List.cons.inj heq).1, hc] at hd
    cases hd
  rw [Decimal.parse?]
  · exact hsign '-' rfl
  · exact hsign '+' rfl

/-- A sign before the numeral is the sign of the number. -/
theorem parse?_text {n : Numeral} (hn : n.WellFormed) (negative : Bool) :
    (Decimal.parse? ((showReal.sign negative).toList ++ n.text)).map Decimal.value =
      some (if negative then -n.value else n.value) := by
  have hparse : Decimal.parse? ((showReal.sign negative).toList ++ n.text) =
      Decimal.parse?.unsigned negative n.text := by
    cases negative with
    | true => rfl
    | false =>
      obtain ⟨c, cs, hcs⟩ := List.exists_cons_of_ne_nil hn.whole_ne_nil
      have hc : c.isDigit = true := hn.isDigit c (by simp [hcs])
      have htext : n.text = c :: (cs ++ '.' :: n.fraction ++ exponentText n.exponent) := by
        simp [text, hcs]
      rw [htext]
      exact parse?_of_isDigit hc _
  rw [hparse, unsigned_text hn]
  cases negative <;> simp [Decimal.value, value]

theorem count_point {n : Numeral} (hn : n.WellFormed) : n.text.count '.' = 1 := by
  have hdigits : ∀ {cs : List Char}, (∀ c ∈ cs, c.isDigit = true) → cs.count '.' = 0 := fun hcs =>
    List.count_eq_zero.mpr fun hmem => absurd (hcs _ hmem) (by decide)
  obtain ⟨hwhole, hfraction⟩ := List.forall_mem_append.mp hn.isDigit
  have hexponent : (exponentText n.exponent).count '.' = 0 := by
    cases n.exponent with
    | none => rfl
    | some x =>
      rw [exponentText, List.count_cons_of_ne (by decide), decimalText]
      split
      · rw [String.toList_ofList, List.count_cons_of_ne (by decide)]
        exact hdigits (isDigit_toDigits _)
      · rw [String.toList_ofList]
        exact hdigits (isDigit_toDigits _)
  rw [text, List.count_append, List.count_append, List.count_cons_self, hdigits hwhole,
    hdigits hfraction, hexponent]

end Numeral

/-! ### Digits and where the point goes -/

/-- The numeral of `0.d₁d₂… * 10 ^ e`. -/
def numeral (digits : List Char) (e : Int) : Numeral :=
  if 0 ≤ e ∧ e ≤ 7 then
    { whole := orZero (digits.take e.toNat ++ List.replicate (e.toNat - digits.length) '0')
      fraction := orZero (digits.drop e.toNat)
      exponent := none }
  else { whole := digits.take 1, fraction := orZero (digits.drop 1), exponent := some (e - 1) }

/-- A power of ten that fits a word of 32 bits is read as it is written. -/
theorem toInt_powerOf {x : Int} (hlow : -2 ^ 31 ≤ x) (hhigh : x < 2 ^ 31) :
    (powerOf (decimalText x).toList).toInt = x := by
  have hrange : Int32.minValue.toInt ≤ x ∧ x ≤ Int32.maxValue.toInt := by
    simp only [Int32.toInt_minValue, Int32.toInt_maxValue]
    omega
  rw [powerOf, parseInt?_toList_decimalText]
  simp only [hrange, and_self, if_true]
  exact Int32.toInt_ofInt_of_le hlow hhigh

/-- The words that count the power of ten do not wrap around. -/
theorem magnitudeText_eq_text (digits : List Char) {e : Int32} {x : Int} (he : e.toInt = x)
    (hlow : -2 ^ 31 < x) : magnitudeText digits e = (numeral digits x).text := by
  have hpred : (e - 1).toInt = x - 1 := by
    have hhigh := e.toInt_lt
    rw [Int32.toInt_sub, he, Int32.toInt_one]
    exact Int.bmod_eq_of_le (by omega) (by omega)
  unfold magnitudeText numeral
  rw [he, hpred]
  split
  · simp [positional, Numeral.text, Numeral.exponentText]
  · simp [scientific, Numeral.text, Numeral.exponentText]

theorem exponent_numeral (digits : List Char) (e : Int) :
    (numeral digits e).exponent = none ↔ 0 ≤ e ∧ e ≤ 7 := by
  unfold numeral
  split <;> simp_all

theorem orZero_of_ne_nil {cs : List Char} (h : cs ≠ []) : orZero cs = cs :=
  if_neg (by simpa using h)

/-- The point among the digits, or zeros up to it. -/
theorem value_positional {digits : List Char} (hne : digits ≠ []) (k : Nat) :
    Numeral.value ⟨orZero (digits.take k ++ List.replicate (k - digits.length) '0'),
      orZero (digits.drop k), none⟩ =
      digitsValue digits * 10 ^ ((k : Int) - digits.length) := by
  have hlength : 0 < digits.length := List.length_pos_iff.mpr hne
  unfold Numeral.value
  rcases Nat.eq_zero_or_pos k with rfl | hk
  · simp [orZero, hne, digitsValue_zero_cons]
  · by_cases hlt : k < digits.length
    · have htake : digits.take k ≠ [] := by simpa using ⟨hk.ne', hne⟩
      have hdrop : digits.drop k ≠ [] := by simpa using hlt
      rw [Nat.sub_eq_zero_of_le hlt.le, List.replicate_zero, List.append_nil,
        orZero_of_ne_nil htake, orZero_of_ne_nil hdrop, List.take_append_drop, List.length_drop]
      congr 2
      simp only [Option.getD_none]
      omega
    · have hle : digits.length ≤ k := Nat.le_of_not_lt hlt
      have hwhole : digits ++ List.replicate (k - digits.length) '0' ≠ [] := by simp [hne]
      have hzeros : digits ++ List.replicate (k - digits.length) '0' ++ ['0'] =
          digits ++ List.replicate (k - digits.length + 1) '0' := by
        rw [List.append_assoc, ← List.replicate_succ']
      have hexponent : (0 : Int) - 1 = k - digits.length - (k - digits.length + 1 : Nat) := by omega
      rw [List.take_of_length_le hle, List.drop_of_length_le hle, orZero_of_ne_nil hwhole, orZero,
        List.isEmpty_nil, if_pos rfl, hzeros, Option.getD_none, List.length_singleton, Nat.cast_one,
        hexponent, digitsValue_zeros_mul]

theorem value_scientific {digits : List Char} (hne : digits ≠ []) (x : Int) :
    Numeral.value ⟨digits.take 1, orZero (digits.drop 1), some x⟩ = scientificValue digits x := by
  obtain ⟨d, ds, rfl⟩ := List.exists_cons_of_ne_nil hne
  unfold Numeral.value scientificValue
  cases ds with
  | nil =>
    -- a zero stands after the point
    have hzero := digitsValue_zeros_mul [d] 1 x
    simpa [orZero] using hzero
  | cons c ds =>
    rw [orZero_of_ne_nil (by simp), List.take_append_drop]
    congr 2
    simp

namespace IsSignificand

variable {digits : List Char} (h : IsSignificand digits)
include h

theorem wellFormed_scientific (exponent : Option Int) :
    Numeral.WellFormed ⟨digits.take 1, orZero (digits.drop 1), exponent⟩ := by
  refine ⟨by simpa using h.ne_nil, orZero_ne_nil _, List.forall_mem_append.mpr ⟨?_, ?_⟩⟩
  · exact fun c hc => h.isDigit c (List.mem_of_mem_take hc)
  · exact isDigit_orZero fun c hc => h.isDigit c (List.mem_of_mem_drop hc)

theorem wellFormed_numeral (e : Int) : (numeral digits e).WellFormed := by
  unfold numeral
  split
  · refine ⟨orZero_ne_nil _, orZero_ne_nil _,
      List.forall_mem_append.mpr ⟨isDigit_orZero ?_, isDigit_orZero ?_⟩⟩
    · refine List.forall_mem_append.mpr ⟨fun c hc => h.isDigit c (List.mem_of_mem_take hc),
        fun c hc => ?_⟩
      rw [List.eq_of_mem_replicate hc]
      rfl
    · exact fun c hc => h.isDigit c (List.mem_of_mem_drop hc)
  · exact h.wellFormed_scientific _

/-- Wherever the point goes, the numeral stands for the number in scientific form. -/
theorem value_numeral (x : Int) : (numeral digits (x + 1)).value = scientificValue digits x := by
  unfold numeral
  split
  · next hfixed =>
    have hcast : ((x + 1).toNat : Int) = x + 1 := Int.toNat_of_nonneg hfixed.1
    rw [value_positional h.ne_nil, scientificValue, hcast]
  · rw [Int.add_sub_cancel, value_scientific h.ne_nil]

/-- The scientific form is read as the number of its digits. -/
theorem parse?_scientificForm (x : Int) :
    (Decimal.parse? (scientificForm digits x)).map Decimal.value =
      some (scientificValue digits x) := by
  obtain ⟨d, ds, rfl, -⟩ := h.exists_cons
  cases ds with
  | nil =>
    have hd : d.isDigit = true := h.isDigit d (by simp)
    have hform : scientificForm [d] x = [d] ++ Numeral.exponentText (some x) := by
      simp [scientificForm, Numeral.exponentText]
    rw [hform, List.singleton_append, Numeral.parse?_of_isDigit hd, ← List.singleton_append,
      Numeral.unsigned_whole (by simp) h.isDigit]
    simp [Decimal.value, scientificValue]
  | cons c ds =>
    have hform : scientificForm (d :: c :: ds) x =
        Numeral.text ⟨[d], orZero (c :: ds), some x⟩ := by
      simp [scientificForm, Numeral.text, Numeral.exponentText, orZero]
    rw [hform, ← value_scientific h.ne_nil]
    exact Numeral.parse?_text (h.wellFormed_scientific (some x)) false

/-- With a power of ten one digit stands before the point, and it is not zero. -/
theorem whole_numeral {e : Int} (he : (numeral digits e).exponent ≠ none) :
    ∃ d, (numeral digits e).whole = [d] ∧ d ≠ '0' := by
  obtain ⟨d, ds, rfl, hd⟩ := h.exists_cons
  rw [ne_eq, exponent_numeral] at he
  rw [numeral, if_neg he]
  exact ⟨d, rfl, hd⟩

end IsSignificand

/-- The text of a number in scientific form is that of its numeral. -/
theorem IsSignificand.showReal_eq {digits : List Char} (h : IsSignificand digits) {x : Int}
    (hlow : -2 ^ 31 ≤ x) (hhigh : x + 1 < 2 ^ 31) (negative : Bool) :
    (showReal negative false false false (scientificForm digits x)).toList =
      (showReal.sign negative).toList ++ (numeral digits (x + 1)).text := by
  have hpower : (powerOf (decimalText x).toList + 1).toInt = x + 1 := by
    rw [Int32.toInt_add, toInt_powerOf hlow (by omega), Int32.toInt_one]
    exact Int.bmod_eq_of_le (by omega) (by omega)
  have hreal : showReal negative false false false (scientificForm digits x) =
      showReal.sign negative ++
      String.ofList (magnitudeText digits (powerOf (decimalText x).toList + 1)) := by
    simp only [showReal, Bool.false_eq_true, if_false, floatDigits_scientificForm h.isDigit]
  rw [hreal, String.toList_append, String.toList_ofList,
    magnitudeText_eq_text digits hpower (by omega)]

/-- A number in scientific form, its power of ten in a word of 32 bits, is written with one point
and digits on both sides of it. The text is read as the number that the scientific form is read as,
with the sign before it. It has no power of ten exactly from one tenth up to below ten million;
otherwise a single digit other than zero stands before the point. A binary number is written in this
way with its shortest digits. -/
theorem written_numbers_keep_their_value {digits : List Char} (h : IsSignificand digits) {x : Int}
    (hlow : -2 ^ 31 ≤ x) (hhigh : x + 1 < 2 ^ 31) (negative : Bool) :
    let text := showReal negative false false false (scientificForm digits x)
    (∃ q : ℚ, (Decimal.parse? (scientificForm digits x)).map Decimal.value = some q ∧
      (Decimal.parse? text.toList).map Decimal.value = some (if negative then -q else q) ∧
      ∃ n : Numeral, n.WellFormed ∧ text.toList = (showReal.sign negative).toList ++ n.text ∧
        text.toList.count '.' = 1 ∧ (n.exponent = none ↔ 1 / 10 ≤ q ∧ q < 10 ^ 7) ∧
        (n.exponent ≠ none → ∃ d, n.whole = [d] ∧ d ≠ '0')) ∧
    ∀ (f : Format) (m : Nat) (e : Int), m ≠ 0 →
    Nat.toDigits 10 (Shortest.decimal f m e).1 = digits →
      (Shortest.decimal f m e).2 = x + 1 → realText (.finite negative m e : Binary f) = text := by
  intro text
  have hn := h.wellFormed_numeral (x + 1)
  have htext : text.toList = (showReal.sign negative).toList ++ (numeral digits (x + 1)).text :=
    h.showReal_eq hlow hhigh negative
  constructor
  · refine ⟨scientificValue digits x, h.parse?_scientificForm x, ?_, numeral digits (x + 1), hn,
      htext, ?_, ?_, ?_⟩
    · rw [htext, Numeral.parse?_text hn, h.value_numeral]
    · have hsign : (showReal.sign negative).toList.count '.' = 0 := by cases negative <;> decide
      rw [htext, List.count_append, hsign, Numeral.count_point hn]
    · rw [exponent_numeral, h.scientificValue_range]
    · exact h.whole_numeral
  · intro f m e hm hdigits hexponent
    rw [realText, Binary.scientificText, if_neg hm]
    simp only [hm, decide_false, hdigits, hexponent, Int.add_sub_cancel, text]

/-- One tenth in double precision is on the edge and has no power of ten. -/
theorem tenth_is_written_without_power :
    IsSignificand ['1'] ∧ realText (.finite true 0x1999999999999A (-56) : Double) = "-0.1" ∧
      (Decimal.parse? "1e-1".toList).map Decimal.value = some (1 / 10) ∧
      (Decimal.parse? "-0.1".toList).map Decimal.value = some (-(1 / 10)) := by
  have h : IsSignificand ['1'] := ⟨by simp, '1', by simp, by decide⟩
  obtain ⟨⟨q, hq, htext, -⟩, hreal⟩ :=
    written_numbers_keep_their_value h (x := -1) (by decide) (by decide) true
  have hform : scientificForm ['1'] (-1) = "1e-1".toList := by decide
  have hvalue : q = 1 / 10 := by
    have hone := h.parse?_scientificForm (-1)
    rw [hq, Option.some.injEq] at hone
    have hdigit : digitsValue ['1'] = 1 := rfl
    rw [hone, scientificValue, hdigit]
    norm_num
  have hshow : showReal true false false false (scientificForm ['1'] (-1)) = "-0.1" := by
    decide +kernel
  rw [hform, hvalue] at hq
  rw [hvalue, hshow] at htext
  rw [hshow] at hreal
  exact ⟨h, hreal Format.double _ _ (by decide) (by decide +kernel) (by decide +kernel), hq, htext⟩

end Offside.Number
