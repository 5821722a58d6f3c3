import Offside.Pretty.Block
import Offside.Pretty.Fault
import Offside.Pretty.Name
import Offside.Syntax.Pattern

/-!
# Patterns as documents

A pattern is printed at a level: 0 anywhere, 1 beside an operator, 2 as an argument.
-/
namespace Offside.Syntax

open Offside.Doc

mutual

def Pat.pretty (m : Mode) (level : Nat) : Pat → Checked Doc
  | .var name => return name.doc
  | .lit lit => return parensIf (0 < level && lit.isNegative) lit.doc
  | .neg pat => do return parensIf (0 < level) (char '-' ++ (← pat.pretty m 2))
  | .infixApp left op right => do
    let left ← left.pretty m 1
    let right ← right.pretty m 1
    return parensIf (0 < level) (m.fillOnside [left, op.infixDoc, right])
  | .app con args => do
    let docs ← Pat.pretties m 2 args
    return parensIf (1 < level && !args.isEmpty) (m.fillOnside (con.doc :: docs))
  | .tuple elems =>
    if elems.length < 2 then .broken (.shortTuple .pattern elems.length)
    else do return m.parenList (← Pat.pretties m 0 elems)
  | .list elems => do return m.bracketList (punctuate comma (← Pat.pretties m 0 elems))
  | .paren pat => do return (← pat.pretty m 0).parens
  | .record con fields => do return con.doc ++ m.braceList (← PatField.pretties m fields)
  -- without a space the two signs would be one operator
  | .asPat name (.irrefutable pat) => do
    return m.fillOnside [name.doc ++ char '@', char '~' ++ (← pat.pretty m 2)]
  | .asPat name pat => do return name.doc ++ char '@' ++ (← pat.pretty m 2)
  | .wildcard => return char '_'
  | .irrefutable pat => do return char '~' ++ (← pat.pretty m 2)

def PatField.pretty (m : Mode) : PatField → Checked Doc
  | .mk field pat => do return m.fillOnside [field.doc, equals, ← pat.pretty m 0]

def Pat.pretties (m : Mode) (level : Nat) : List Pat → Checked (List Doc)
  | [] => return []
  | p :: ps => do
    let d ← p.pretty m level
    return d :: (← Pat.pretties m level ps)

def PatField.pretties (m : Mode) : List PatField → Checked (List Doc)
  | [] => return []
  | f :: fs => do
    let d ← f.pretty m
    return d :: (← PatField.pretties m fs)

end

end Offside.Syntax
