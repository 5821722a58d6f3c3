/-!
# Pieces of output
-/
namespace Offside

inductive Chunk where
  | text (s : String)
  | spaces (n : Nat)
  | newline
deriving DecidableEq, Repr

namespace Chunk

def toText : Chunk → String
  | .text s => s
  | .spaces n => String.ofList (List.replicate n ' ')
  | .newline => "\n"

/-- The text of a sequence of pieces. -/
def textOf (cs : List Chunk) : String := cs.foldl (fun out c => out ++ c.toText) ""

end Chunk

end Offside
