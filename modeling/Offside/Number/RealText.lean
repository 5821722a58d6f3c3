import Offside.Number.Decimal
import Offside.Number.Int128
import Offside.Number.Shortest

/-!
# Real numbers as Haskell writes them

From one tenth up to ten million a number is written positionally, otherwise with one digit before
the point and a power of ten. There is always a digit on either side of the point. The text is made
from the scientific form of the number, whose digits and power of ten are read off again.
-/
namespace Offside.Number

/-- The scientific form `d₁.d₂…e<x>` of a number, with a point only before further digits. -/
def scientificForm (digits : List Char) (x : Int) : List Char :=
  digits.take 1 ++ (if digits.length ≤ 1 then [] else '.' :: digits.drop 1) ++ 'e' ::
    (decimalText x).toList

/-- A power of ten, in a word of 32 bits. What is no such number counts as zero. -/
def powerOf (cs : List Char) : Int32 :=
  match Decimal.parseInt? cs with
  | some n => if Int32.minValue.toInt ≤ n ∧ n ≤ Int32.maxValue.toInt then .ofInt n else 0
  | none => 0

/-- The digits and the `e` of the number `0.d₁d₂… * 10 ^ e`, from its scientific form. -/
def floatDigits (sci : List Char) : List Char × Int32 :=
  let mantissa := sci.takeWhile (· != 'e')
  let power := match sci.dropWhile (· != 'e') with
    | [] => ['0']
    | _ :: power => power
  (mantissa.filter Char.isDigit, powerOf power + 1)

/-- The point is passed over, and the power of ten is read as it stands. -/
theorem floatDigits_scientificForm {digits : List Char} (hdigits : ∀ c ∈ digits, c.isDigit = true)
    (x : Int) :
    floatDigits (scientificForm digits x) = (digits, powerOf (decimalText x).toList + 1) := by
  obtain ⟨mantissa, hform, hfilter, hmark⟩ : ∃ mantissa,
      scientificForm digits x = mantissa ++ 'e' :: (decimalText x).toList ∧
        mantissa.filter Char.isDigit = digits ∧ ∀ c ∈ mantissa, (c != 'e') = true := by
    refine ⟨_, rfl, ?_, ?_⟩
    · rw [List.filter_append, List.filter_eq_self.mpr fun c hc =>
        hdigits c (List.mem_of_mem_take hc)]
      split
      · next h => rw [List.filter_nil, List.append_nil, List.take_of_length_le h]
      · rw [List.filter_cons_of_neg (by decide),
          List.filter_eq_self.mpr fun c hc => hdigits c (List.mem_of_mem_drop hc),
          List.take_append_drop]
    · intro c hc
      have hcases : c.isDigit = true ∨ c = '.' := by
        rcases List.mem_append.mp hc with hc | hc
        · exact .inl (hdigits c (List.mem_of_mem_take hc))
        · split at hc
          · cases hc
          · exact (List.mem_cons.mp hc).symm.imp_left fun hc => hdigits c (List.mem_of_mem_drop hc)
      rcases hcases with hc | rfl
      · exact bne_iff_ne.mpr fun h => by rw [h] at hc; exact absurd hc (by decide)
      · decide
  rw [floatDigits, hform, List.takeWhile_append_of_pos hmark, List.dropWhile_append_of_pos hmark]
  simp [hfilter]

/-- A part of a number, with a zero in place of no digits. -/
def orZero (digits : List Char) : List Char := if digits.isEmpty then ['0'] else digits

/-- The number `0.d₁d₂… * 10 ^ e`, the point after the first `e` digits. -/
def positional (digits : List Char) (e : Nat) : List Char :=
  orZero (digits.take e ++ List.replicate (e - digits.length) '0') ++ '.' :: orZero (digits.drop e)

/-- The number `d₁.d₂… * 10 ^ x`, the point after the first digit. -/
def scientific (digits : List Char) (x : Int) : List Char :=
  digits.take 1 ++ '.' :: orZero (digits.drop 1) ++ 'e' :: (decimalText x).toList

/-- The text of the positive number `0.d₁d₂… * 10 ^ e`. -/
def magnitudeText (digits : List Char) (e : Int32) : List Char :=
  if 0 ≤ e.toInt ∧ e.toInt ≤ 7 then positional digits e.toInt.toNat
  else scientific digits (e - 1).toInt

/-- The text of a number that is not a number, infinite, zero or has the scientific form. -/
def showReal (negative zero nan infinite : Bool) (sci : List Char) : String :=
  if nan then "NaN"
  else if infinite then sign negative ++ "Infinity"
  else if zero then sign negative ++ "0.0"
  else
    let (digits, e) := floatDigits sci
    sign negative ++ String.ofList (magnitudeText digits e)
where
  sign (negative : Bool) : String := if negative then "-" else ""

/-- The scientific form of the magnitude of a value, by its shortest digits. -/
def Binary.scientificText {f : Format} : Binary f → List Char
  | .nan => "NaN".toList
  | .infinite _ => "inf".toList
  | .finite _ significand exponent =>
    if significand = 0 then scientificForm ['0'] 0
    else
      let (s, e) := Shortest.decimal f significand exponent
      scientificForm (Nat.toDigits 10 s) (e - 1)

/-- The text of a value of a binary format. -/
def realText {f : Format} (x : Binary f) : String :=
  match x with
  | .nan => showReal false false true false x.scientificText
  | .infinite negative => showReal negative false false true x.scientificText
  | .finite negative significand _ =>
    showReal negative (significand = 0) false false x.scientificText

theorem realText_zero {f : Format} (negative : Bool) (exponent : Int) :
    realText (.finite negative 0 exponent : Binary f) = showReal.sign negative ++ "0.0" := rfl

theorem realText_finite {f : Format} (negative : Bool) {significand : Nat} (h : significand ≠ 0)
    (exponent : Int) :
    ∃ e, realText (.finite negative significand exponent : Binary f) =
      showReal.sign negative ++
        String.ofList
          (magnitudeText (Nat.toDigits 10 (Shortest.decimal f significand exponent).1) e) := by
  have hdigits : ∀ c ∈ Nat.toDigits 10 (Shortest.decimal f significand exponent).1,
      c.isDigit = true :=
    fun _ hc => Nat.isDigit_of_mem_toDigits (by decide) (by decide) hc
  refine ⟨powerOf (decimalText ((Shortest.decimal f significand exponent).2 - 1)).toList + 1, ?_⟩
  rw [realText, Binary.scientificText, if_neg h]
  simp only [showReal, h, decide_false, Bool.false_eq_true, if_false,
    floatDigits_scientificForm hdigits]

end Offside.Number
