import Offside.Number.Decimal
import Offside.Number.Int128

/-!
# JSON values

An object keeps its members in order, with any key it repeats. A number written without a point and
an exponent is a whole number, any other a decimal, and so is `-0`. A string whose escapes leave a
surrogate unpaired has no text; it is read as `unpaired`, and so is an object with such a key.
-/
namespace Offside

open Offside.Number

inductive Json where
  | null
  | bool (b : Bool)
  | int (n : Int)
  | real (d : Decimal)
  | string (s : String)
  | unpaired
  | array (items : List Json)
  | object (members : List (String × Json))

namespace Json

mutual

/-- How deep arrays and objects stand in each other. -/
def depth : Json → Nat
  | .array items => itemsDepth items + 1
  | .object members => membersDepth members + 1
  | _ => 0

def itemsDepth : List Json → Nat
  | [] => 0
  | j :: js => max j.depth (itemsDepth js)

def membersDepth : List (String × Json) → Nat
  | [] => 0
  | (_, j) :: ms => max j.depth (membersDepth ms)

end

mutual

/-- Whether every string has a text, every number is below `10 ^ 308` and no object repeats a
key. -/
def proper : Json → Bool
  | .int n => (Nat.toDigits 10 n.natAbs).length ≤ 308
  | .real d => (Nat.toDigits 10 d.digits).length + d.exponent ≤ 308
  | .unpaired => false
  | .array items => itemsProper items
  | .object members => membersProper members
  | _ => true

def itemsProper : List Json → Bool
  | [] => true
  | j :: js => j.proper && itemsProper js

def membersProper : List (String × Json) → Bool
  | [] => true
  | (key, j) :: ms => (ms.lookup key).isNone && j.proper && membersProper ms

end

/-- The proper values that are nested no deeper than the limit, if there is one. -/
structure Within (limit : Option Nat) (j : Json) : Prop where
  proper : j.proper = true
  depth_le : ∀ n ∈ limit, j.depth ≤ n

/-- The value of a key, the first if it is repeated. -/
def get? (j : Json) (key : String) : Option Json :=
  match j with
  | .object members => members.lookup key
  | _ => none

end Json

end Offside
