import Offside.Number.Int128

/-!
# Places in a source text
-/
namespace Offside.Syntax

open Offside.Number

/-- A place in a file. Lines and columns count from one, and line zero means that it is not
known. -/
structure Location where
  file : String := ""
  line : UInt32 := 0
  column : UInt32 := 0
deriving DecidableEq, Repr

namespace Location

def unknown : Location := {}

def isUnknown (l : Location) : Bool := l.line == 0

def text (l : Location) : String :=
  if l.isUnknown then "<unknown>"
  else l.file ++ ":" ++ decimalText l.line.toNat ++ ":" ++ decimalText l.column.toNat

end Location

end Offside.Syntax
