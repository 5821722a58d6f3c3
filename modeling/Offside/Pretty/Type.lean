import Offside.Pretty.Block
import Offside.Pretty.Fault
import Offside.Pretty.Name
import Offside.Syntax.Data

/-!
# Types as documents

A type is printed at a level: 0 anywhere, 1 before an arrow or at the head of an application, 2 as
an argument.
-/
namespace Offside.Syntax

open Offside.Doc

mutual

def Ty.pretty (m : Mode) (level : Nat) : Ty → Checked Doc
  | .tuple elems =>
    if elems.length < 2 then .broken (.shortTuple .type elems.length)
    else do return m.parenList (← Ty.pretties m 0 elems)
  | .fn source target => do
    let source ← source.pretty m 1
    let target ← target.pretty m 0
    return parensIf (0 < level) (m.fillOnside [source, text "->", target])
  | .app f arg =>
    if f.isListCon then do return (← arg.pretty m 0).brackets
    else do
      let f ← f.pretty m 1
      let arg ← arg.pretty m 2
      return parensIf (1 < level) (m.fillOnside [f, arg])
  | .var name => return name.doc
  | .con name => return name.doc

def Ty.pretties (m : Mode) (level : Nat) : List Ty → Checked (List Doc)
  | [] => return []
  | t :: ts => do
    let d ← t.pretty m level
    return d :: (← Ty.pretties m level ts)

end

def Assertion.pretty (m : Mode) (a : Assertion) : Checked Doc := do
  return m.fillOnside (a.className.doc :: (← Ty.pretties m 2 a.types))

/-- The context of a type or a class, in parentheses before a double arrow. -/
def Context.pretty (m : Mode) (c : Context) : Checked Doc :=
  if c.isEmpty then return .empty
  else do return m.sepFirst [m.parenList (← c.mapM (Assertion.pretty m)), text "=>"]

def QualType.pretty (m : Mode) (q : QualType) : Checked Doc := do
  let context ← Context.pretty m q.context
  return m.fillOnside [context, ← q.ty.pretty m 0]

def BangType.pretty (m : Mode) (level : Nat) : BangType → Checked Doc
  | .banged ty => do return char '!' ++ (← ty.pretty m 2)
  | .unbanged ty => ty.pretty m level

end Offside.Syntax
