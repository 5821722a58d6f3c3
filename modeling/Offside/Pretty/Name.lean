import Offside.Doc.Combinators
import Offside.Syntax.Literal
import Offside.Syntax.Name
import Offside.Text.Literal

/-!
# Names and literals as documents
-/
namespace Offside.Syntax

open Offside.Doc Offside.Number

def SpecialCon.text : SpecialCon → String
  | .unit => "()"
  | .list => "[]"
  | .fn => "->"
  | .cons => ":"
  | .tuple arity => String.ofList ('(' :: List.replicate (arity.toNat - 1) ',' ++ [')'])

namespace Name

/-- The name by itself. -/
def bare : Name → Doc
  | .ident s | .symbol s => text s
  | .special con => text con.text

/-- The name as an operand. -/
def doc (n : Name) : Doc := parensIf n.isSymbolic n.bare

end Name

/-- In backquotes, as an identifier stands between operands. -/
def backquoted (d : Doc) : Doc := char '\x60' ++ d ++ char '\x60'

/-- The name between two operands. -/
def Name.infixDoc (n : Name) : Doc := if n.isSymbolic then n.bare else backquoted n.bare

namespace QName

/-- The name by itself. The special names of the prelude have no qualified form. -/
def bare (q : QName) : Doc :=
  match q.qualifier, q.name with
  | some m, .special con =>
    if m = .prelude then Name.bare (.special con) else text (m.text ++ ".") ++
      Name.bare (.special con)
  | some m, n => text (m.text ++ ".") ++ n.bare
  | none, n => n.bare

def doc (q : QName) : Doc := parensIf q.isSymbolic q.bare

def infixDoc (q : QName) : Doc := if q.isSymbolic then q.bare else backquoted q.bare

end QName

def ModuleName.doc (m : ModuleName) : Doc := Doc.text m.text

def Op.doc (o : Op) : Doc := o.name.infixDoc

def QOp.doc (o : QOp) : Doc := o.name.infixDoc

def CName.doc (c : CName) : Doc := c.name.doc

def Literal.doc : Literal → Doc
  | .char c => text (Text.charLiteral c)
  | .string s => text (Text.stringLiteral s)
  | .int n => Doc.int n.val
  | .frac r => real r.toDouble
  | .charPrim c => text (Text.charLiteral c) ++ Doc.char '#'
  | .stringPrim s => text (Text.stringLiteral s) ++ Doc.char '#'
  | .intPrim n => Doc.int n.val ++ Doc.char '#'
  | .floatPrim r => real (r.toDouble.convert : Single) ++ Doc.char '#'
  | .doublePrim r => real r.toDouble ++ text "##"

end Offside.Syntax
