/-!
# Whole numbers of 128 bits
-/
namespace Offside.Number

/-- Whether a whole number fits a signed word of 128 bits. -/
def Fits128 (n : Int) : Prop :=
  -0x80000000000000000000000000000000 ≤ n ∧ n < 0x80000000000000000000000000000000

instance (n : Int) : Decidable (Fits128 n) := inferInstanceAs (Decidable (_ ∧ _))

/-- A whole number that fits a signed word of 128 bits. -/
structure Int128 where
  val : Int
  fits : Fits128 val
deriving DecidableEq

namespace Int128

def ofInt? (n : Int) : Option Int128 := if h : Fits128 n then some ⟨n, h⟩ else none

theorem ofInt?_val (n : Int128) : ofInt? n.val = some n := by
  simp [ofInt?, n.fits]

theorem ofInt?_eq_some_iff {n : Int} {m : Int128} : ofInt? n = some m ↔ n = m.val := by
  constructor
  · intro h
    unfold ofInt? at h
    split at h
    · cases h; rfl
    · cases h
  · rintro rfl
    exact ofInt?_val m

end Int128

/-- A whole number in decimal, with a minus sign below zero. -/
def decimalText (n : Int) : String :=
  if n < 0 then String.ofList ('-' :: Nat.toDigits 10 n.natAbs) else
    String.ofList (Nat.toDigits 10 n.natAbs)

end Offside.Number
