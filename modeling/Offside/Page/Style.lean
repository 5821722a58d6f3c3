import Offside.Number.Binary

/-!
# Page geometry
-/
namespace Offside

open Offside.Number

/-- What becomes of lines and indentation. -/
inductive Discipline where
  /-- Lines are broken at the page and ribbon width. -/
  | page
  /-- Everything stands on one line, and a line break becomes a space. -/
  | oneLine
  /-- Line breaks stay, indentation is dropped, and a group that can stand on one line does. -/
  | left
deriving DecidableEq, Repr

structure Style where
  discipline : Discipline := .page
  lineLength : UInt64 := 100
  /-- The width of the page over the preferred width of a line's text without its indentation. -/
  ribbonsPerLine : Single := Binary.ofFraction false 3 2

namespace Style

/-- The preferred width of a line's text: the quotient in single precision to the nearest whole
number, or the whole line where no positive number of ribbons is asked for. -/
def ribbonWidth (s : Style) : UInt64 :=
  if s.ribbonsPerLine.isNonpositive then s.lineLength
  else .ofNat (((Binary.ofNat s.lineLength.toNat).div s.ribbonsPerLine).toNatWithin
    0xFFFFFFFFFFFFFFFF)

end Style

end Offside
