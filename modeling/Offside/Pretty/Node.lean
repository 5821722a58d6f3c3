import Offside.Page.Machine
import Offside.Pretty.Module
import Offside.Tree.Node

/-!
# Printing trees

Trees of every category as documents and as text, one by one or in a session. A session keeps the
first fault of its trees until it is asked to report it.
-/
namespace Offside

open Offside.Syntax

/-- The document of a tree at a level; categories without levels pass it over. -/
def Syntax.Node.pretty (m : Mode) (level : Nat) : Node → Checked Doc
  | .module node => node.pretty m
  | .exportSpec node => return node.doc m
  | .importDecl node => return node.doc m
  | .importSpecs node => return node.doc m
  | .importSpec node => return node.doc m
  | .decl node => node.pretty m
  | .conDecl node => node.pretty m
  | .fieldDecl node => node.pretty m
  | .bangType node => node.pretty m level
  | .clause node => node.pretty m
  | .rhs node => node.pretty m
  | .guardedRhs node => node.pretty m
  | .assoc node => return node.doc
  | .safety node => return node.doc
  | .ty node => node.pretty m level
  | .qualType node => node.pretty m
  | .assertion node => node.pretty m
  | .name node => return node.doc
  | .qname node => return node.doc
  | .moduleName node => return node.doc
  | .op node => return node.doc
  | .qop node => return node.doc
  | .cname node => return node.doc
  | .literal node => return node.doc
  | .pat node => node.pretty m level
  | .patField node => node.pretty m
  | .expr node => node.pretty m level
  | .stmt node => node.pretty m
  | .fieldUpdate node => node.pretty m
  | .alt node => node.pretty m
  | .guardedAlts node => node.pretty m
  | .guardedAlt node => node.pretty m

namespace Checked

/-- The result, or the fault if there is one. -/
def toExcept {α : Type} (x : Checked α) : Except Fault α :=
  match x.fault with
  | some f => .error f
  | none => .ok x.value

end Checked

namespace Syntax.Node

def toDoc (m : Mode) (level : Nat) (n : Node) : Except Fault Doc := (n.pretty m level).toExcept

/-- The tree laid out, piece by piece. -/
def chunks (s : Style) (m : Mode) (level : Nat) (n : Node) : Except Fault (List Chunk) := do
  return (← n.toDoc m level).chunks s

/-- The tree as text. -/
def print (s : Style) (m : Mode) (level : Nat) (n : Node) : Except Fault String := do
  return (← n.toDoc m level).render s

end Syntax.Node

/-- Several trees printed in one mode. -/
structure Session where
  mode : Mode
  /-- The first fault that has not been reported. -/
  fault : Option Fault := none

namespace Session

/-- The document of a tree, built with the fault of the session in the slot; what is in the slot
then is kept for later. -/
def pretty (s : Session) (level : Nat) (n : Node) : Session × Doc :=
  let (d, fault) := (n.pretty s.mode level).run s.fault
  ({ s with fault }, d)

/-- The document of a tree, or the first fault since the last report. Either way none is left. -/
def print (s : Session) (level : Nat) (n : Node) : Session × Except Fault Doc :=
  let (s, d) := s.pretty level n
  ({ s with fault := none }, match s.fault with
    | some f => .error f
    | none => .ok d)

end Session

end Offside
