/-!
# How trees are printed

A mode fixes the layout of blocks, how far each kind of block is indented, and what is printed
beside the tree itself.
-/
namespace Offside

/-- How the members of a block are kept apart. -/
inductive Layout where
  /-- By indentation alone. -/
  | offside
  /-- By indentation, and by braces and semicolons. -/
  | semicolon
  /-- By braces and semicolons on one line; only the members of the module stand on lines of their
  own. -/
  | inline
  /-- By braces and semicolons, the whole module on one line. -/
  | none
deriving DecidableEq, Repr

namespace Layout

/-- Whether blocks are stacked. -/
def isVertical : Layout → Bool
  | .offside | .semicolon => true
  | .inline | .none => false

/-- The name under which a layout is shown. -/
def name : Layout → String
  | .offside => "offside"
  | .semicolon => "semicolon"
  | .inline => "inline"
  | .none => "no-layout"

end Layout

structure Mode where
  classIndent : Nat := 8
  doIndent : Nat := 3
  caseIndent : Nat := 4
  letIndent : Nat := 4
  whereIndent : Nat := 6
  /-- How far the later lines of an expression stand to the right of its first. -/
  onsideIndent : Nat := 2
  /-- An empty line before every declaration that is not a binding. -/
  spacing : Bool := true
  layout : Layout := .offside
  /-- A pragma with its place before each node that has one. -/
  linePragmas : Bool := false
  /-- Without effect: trees hold no comments. -/
  comments : Bool := false
deriving DecidableEq, Repr

namespace Mode

/-- Comments are never printed, whatever a mode asks for. -/
def commentsSupported : Bool := false

def isVertical (m : Mode) : Bool := m.layout.isVertical

/-- An indent as a number of columns. An indent is an unsigned word of 64 bits and a number of
columns a signed one, so from 2^63 on an indent leads to the left. -/
def columns (indent : Nat) : Int := (Int64.ofNat indent).toInt

end Mode

end Offside
