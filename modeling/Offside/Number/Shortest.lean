import Offside.Number.Binary

/-!
# Shortest decimal digits

The fewest decimal digits that read back as a given binary value. For each count of digits the two
decimals on either side of the value are tried; the first count with one that rounds to the value
wins, of two the nearer, and of two equally near the upper one.
-/
namespace Offside.Number.Shortest

/-- The reals that round to a value, as whole numbers of quarter units in its last place: the value
itself and the two ends, which belong to the interval exactly for an even significand. -/
structure Interval where
  low : Nat
  value : Nat
  high : Nat
  closed : Bool
deriving Repr

/-- Below a power of two the neighbour is half as far as above it, except at the least exponent. -/
def interval (f : Format) (significand : Nat) (exponent : Int) : Interval :=
  let narrow := significand = Nat.pow 2 (f.precision - 1) ∧ f.minExponent < exponent
  { low := 4 * significand - (if narrow then 1 else 2)
    value := 4 * significand
    high := 4 * significand + 2
    closed := significand % 2 = 0 }

/-- The exponent `e` with `10 ^ (e - 1) ≤ num / den < 10 ^ e`, for positive `num` and `den`: an
estimate from the lengths of the two numbers, or the one below it. -/
def decimalExponent (num den : Nat) : Int :=
  let e : Int := (Nat.toDigits 10 num).length - (Nat.toDigits 10 den).length
  if num * Nat.pow 10 (-e).toNat < den * Nat.pow 10 e.toNat then e else e + 1

/-- Whether `n / d` lies in the interval. -/
def Interval.contains (i : Interval) (n d : Nat) : Bool :=
  if i.closed then i.low * d ≤ n ∧ n ≤ i.high * d else i.low * d < n ∧ n < i.high * d

/-- Of the two decimals with unit `num / den` around the value, the nearer that rounds to it, in
units. The unit and the interval are measured in the same quantity. -/
def nearest? (i : Interval) (num den : Nat) : Option Nat :=
  let below := i.value * den / num
  let above := below + 1
  let lower := i.contains (below * num) den
  let upper := i.contains (above * num) den
  -- twice the distance from `below`, against one unit
  let past := num ≤ 2 * (i.value * den - below * num)
  if lower && upper then some (if past then above else below)
  else if lower then some below
  else if upper then some above
  else none

/-- The shortest decimal of the positive value `significand * 2 ^ exponent`: its digits as a whole
number `s` and an exponent `e` with the value near `0.s * 10 ^ e`. Seventeen digits always suffice
for the formats in use. -/
def decimal (f : Format) (significand : Nat) (exponent : Int) : Nat × Int :=
  let i := interval f significand exponent
  let (num, den) := shift significand 1 exponent
  let e := decimalExponent num den
  -- one decimal unit `10 ^ (e - n)` in quarters of the last binary place
  let unit (n : Nat) : Nat × Nat :=
    let k := e - n
    shift (Nat.pow 10 k.toNat) (Nat.pow 10 (-k).toNat) (2 - exponent)
  let attempt (n : Nat) : Option Nat := let (a, b) := unit n; nearest? i a b
  let count := ((List.range' 1 17).find? fun n => (attempt n).isSome).getD 17
  let s := (attempt count).getD 0
  if s = Nat.pow 10 count then (1, e + 1) else (s, e)

end Offside.Number.Shortest
