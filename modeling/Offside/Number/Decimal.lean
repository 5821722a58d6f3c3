import Offside.Number.Binary

/-!
# Decimal numbers and their text

A decimal is a whole number of units in some power of ten. `Decimal.parse?` reads the usual text of
a number and `Decimal.toBinary` gives the nearest value of a binary format.
-/
namespace Offside.Number

/-- The number `digits * 10 ^ exponent` with its sign. -/
structure Decimal where
  negative : Bool
  digits : Nat
  exponent : Int
deriving DecidableEq, Repr

/-- The value of a run of decimal digits, most significant first. -/
def digitsValue (cs : List Char) : Nat :=
  cs.foldl (fun n c => 10 * n + (c.toNat - '0'.toNat)) 0

namespace Decimal

/-- The nearest value of the format. Past `10 ^ 400` every format in use has overflowed, and below
`10 ^ (-400)` only zero is near, so the power of ten stays small. -/
def toBinary {f : Format} (d : Decimal) : Binary f :=
  if d.digits = 0 then .zero d.negative
  else
    let top := d.exponent + (Nat.toDigits 10 d.digits).length
    if 400 < top then .infinite d.negative
    else if top < -400 then .zero d.negative
    else if 0 ≤ d.exponent then .ofFraction d.negative (d.digits * Nat.pow 10 d.exponent.toNat) 1
    else .ofFraction d.negative d.digits (Nat.pow 10 (-d.exponent).toNat)

/-- A whole number in decimal with an optional sign. -/
def parseInt? (cs : List Char) : Option Int :=
  match cs with
  | '-' :: ds => (unsigned ds).map fun n => -(n : Int)
  | '+' :: ds => (unsigned ds).map fun n => (n : Int)
  | ds => (unsigned ds).map fun n => (n : Int)
where
  unsigned (ds : List Char) : Option Nat :=
    if !ds.isEmpty && ds.all Char.isDigit then some (digitsValue ds) else none

/-- An optional sign, digits with an optional point among or beside them, and an optional
exponent. -/
def parse? (cs : List Char) : Option Decimal :=
  match cs with
  | '-' :: rest => unsigned true rest
  | '+' :: rest => unsigned false rest
  | rest => unsigned false rest
where
  unsigned (negative : Bool) (cs : List Char) : Option Decimal :=
    let whole := cs.takeWhile Char.isDigit
    let rest := cs.dropWhile Char.isDigit
    let (fraction, rest) := match rest with
      | '.' :: more => (more.takeWhile Char.isDigit, more.dropWhile Char.isDigit)
      | _ => ([], rest)
    if (whole ++ fraction).isEmpty then none
    else
      let exponent? := match rest with
        | [] => some 0
        | c :: more => if c = 'e' ∨ c = 'E' then parseInt? more else none
      exponent?.map fun e => ⟨negative, digitsValue (whole ++ fraction), e - fraction.length⟩

end Decimal

namespace Binary

/-- Reads a decimal number, or `inf`, `infinity` or `nan` in any case, with an optional sign. -/
def parse? {f : Format} (s : String) : Option (Binary f) :=
  match s.toList with
  | '-' :: rest => word true rest <|> (Decimal.parse? s.toList).map Decimal.toBinary
  | '+' :: rest => word false rest <|> (Decimal.parse? s.toList).map Decimal.toBinary
  | rest => word false rest <|> (Decimal.parse? rest).map Decimal.toBinary
where
  word (negative : Bool) (cs : List Char) : Option (Binary f) :=
    match String.ofList (cs.map Char.toLower) with
    | "inf" | "infinity" => some (.infinite negative)
    | "nan" => some .nan
    | _ => none

end Binary

end Offside.Number
