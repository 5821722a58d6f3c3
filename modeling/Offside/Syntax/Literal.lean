import Offside.Number.Ratio

/-!
# Literals
-/
namespace Offside.Syntax

open Offside.Number

/-- The last five are the unboxed ones, which are written with hash signs at the end. -/
inductive Literal where
  | char (c : Char)
  | string (s : String)
  | int (n : Int128)
  | frac (r : Ratio)
  | charPrim (c : Char)
  | stringPrim (s : String)
  | intPrim (n : Int128)
  | floatPrim (r : Ratio)
  | doublePrim (r : Ratio)
deriving DecidableEq

/-- Whether the literal is a number below zero. -/
def Literal.isNegative : Literal → Bool
  | .int n | .intPrim n => n.val < 0
  | .frac r | .floatPrim r | .doublePrim r => r.num < 0
  | _ => false

end Offside.Syntax
