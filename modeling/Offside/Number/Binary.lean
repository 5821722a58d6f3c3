/-!
# Binary floating-point numbers

A value of a binary format is exact: a sign, a whole significand and a power of two. Every operation
computes the exact fraction first and rounds it once, to the nearest value of the format, a half to
the even neighbour. Two formats are used, single (32 bits) and double (64 bits).
-/
namespace Offside.Number

/-- The whole number nearest to `n / d`; a half goes to the even neighbour. -/
def roundDiv (n d : Nat) : Nat :=
  let q := n / d
  let r := n % d
  if 2 * r < d then q
  else if d < 2 * r then q + 1
  else if q % 2 = 0 then q else q + 1

/-- The whole number nearest to `n / d`; a half goes up. -/
def roundDivUp (n d : Nat) : Nat :=
  (2 * n + d) / (2 * d)

/-- `num / den * 2 ^ k` as a fraction of whole numbers. -/
def shift (num den : Nat) (k : Int) : Nat × Nat :=
  if 0 ≤ k then (num * Nat.pow 2 k.toNat, den) else (num, den * Nat.pow 2 (-k).toNat)

/-- The exponent `k` with `2 ^ k ≤ num / den < 2 ^ (k + 1)`, for positive `num` and `den`. -/
def floorLog2 (num den : Nat) : Int :=
  let k : Int := Nat.log2 num - Nat.log2 den
  let (n, d) := shift num den (-k)
  if d ≤ n then k else k - 1

/-- A format by the bits of its significand, the leading one included, and the bits of its
exponent. -/
structure Format where
  precision : Nat
  exponentBits : Nat
deriving DecidableEq, Repr

namespace Format

def single : Format := ⟨24, 8⟩
def double : Format := ⟨53, 11⟩

def bias (f : Format) : Int := (Nat.pow 2 (f.exponentBits - 1) : Nat) - 1

/-- The exponent of the last bit of the least normal value, and of every subnormal one. -/
def minExponent (f : Format) : Int := 2 - f.bias - f.precision

/-- The exponent of the last bit of the largest finite value. -/
def maxExponent (f : Format) : Int := f.bias + 1 - f.precision

end Format

/-- A value of a format. A finite one is `significand * 2 ^ exponent` with its sign. -/
inductive Binary (f : Format) where
  | nan
  | infinite (negative : Bool)
  | finite (negative : Bool) (significand : Nat) (exponent : Int)
deriving DecidableEq, Repr

abbrev Single := Binary Format.single
abbrev Double := Binary Format.double

namespace Binary

variable {f g : Format}

def zero (negative : Bool) : Binary f := .finite negative 0 f.minExponent

/-- The value of the format nearest to `num / den`, a half going to the even significand. -/
def ofFraction (negative : Bool) (num den : Nat) : Binary f :=
  if num = 0 then zero negative
  else
    let q := max f.minExponent (floorLog2 num den + 1 - f.precision)
    let (n, d) := shift num den (-q)
    let m := roundDiv n d
    let (m, q) := if m = Nat.pow 2 f.precision then (m / 2, q + 1) else (m, q)
    if f.maxExponent < q then .infinite negative else .finite negative m q

def ofNat (n : Nat) : Binary f := ofFraction false n 1

def ofInt (n : Int) : Binary f := ofFraction (n < 0) n.natAbs 1

/-- The magnitude of a finite value as a fraction. -/
def magnitude (significand : Nat) (exponent : Int) : Nat × Nat := shift significand 1 exponent

/-- The nearest value of another format. -/
def convert : Binary f → Binary g
  | .nan => .nan
  | .infinite s => .infinite s
  | .finite s m q => let (n, d) := magnitude m q; ofFraction s n d

def div : Binary f → Binary f → Binary f
  | .nan, _ => .nan
  | _, .nan => .nan
  | .infinite _, .infinite _ => .nan
  | .infinite s, .finite t _ _ => .infinite (s != t)
  | .finite s _ _, .infinite t => zero (s != t)
  | .finite s m q, .finite t n r =>
    if n = 0 then if m = 0 then .nan else .infinite (s != t)
    else
      let (a, b) := shift m n (q - r)
      ofFraction (s != t) a b

/-- Whether the value is zero, of either sign, or below; no comparison holds of `nan`. -/
def isNonpositive : Binary f → Bool
  | .nan => false
  | .infinite s => s
  | .finite s m _ => s || m = 0

/-- The nearest whole number, a half going away from zero, held within `0` and `limit`; `nan` gives
`0`. -/
def toNatWithin (limit : Nat) : Binary f → Nat
  | .nan => 0
  | .infinite s => if s then 0 else limit
  | .finite s m q =>
    if s then 0 else let (n, d) := magnitude m q; min limit (roundDivUp n d)

/-- The value with the interchange encoding `bits`: sign, biased exponent, trailing significand. -/
def ofBits (bits : Nat) : Binary f :=
  let trailing := f.precision - 1
  let fraction := bits % Nat.pow 2 trailing
  let biased := bits / Nat.pow 2 trailing % Nat.pow 2 f.exponentBits
  let negative := bits / Nat.pow 2 (trailing + f.exponentBits) % 2 = 1
  if biased = Nat.pow 2 f.exponentBits - 1 then
    if fraction = 0 then .infinite negative else .nan
  else if biased = 0 then .finite negative fraction f.minExponent
  else .finite negative (Nat.pow 2 trailing + fraction) (f.minExponent + biased - 1)

/-- The interchange encoding; `nan` has the quiet one without payload. -/
def toBits : Binary f → Nat
  | .nan =>
    (Nat.pow 2 f.exponentBits - 1) * Nat.pow 2 (f.precision - 1) + Nat.pow 2 (f.precision - 2)
  | .infinite s => signBit s + (Nat.pow 2 f.exponentBits - 1) * Nat.pow 2 (f.precision - 1)
  | .finite s m q =>
    if m < Nat.pow 2 (f.precision - 1) then signBit s + m
    else signBit s + (q - f.minExponent).toNat * Nat.pow 2 (f.precision - 1) + m
where
  signBit (s : Bool) : Nat := if s then Nat.pow 2 (f.precision - 1 + f.exponentBits) else 0

end Binary

end Offside.Number
