import Offside.Syntax.Literal
import Offside.Syntax.Name

/-!
# Patterns
-/
namespace Offside.Syntax

mutual

inductive Pat where
  | var (name : Name)
  | lit (lit : Literal)
  | neg (pat : Pat)
  | infixApp (left : Pat) (op : QName) (right : Pat)
  | app (con : QName) (args : List Pat)
  | tuple (elems : List Pat)
  | list (elems : List Pat)
  | paren (pat : Pat)
  | record (con : QName) (fields : List PatField)
  | asPat (name : Name) (pat : Pat)
  | wildcard
  | irrefutable (pat : Pat)

inductive PatField where
  | mk (field : QName) (pat : Pat)

end

namespace Pat

def ofVar (s : String) : Pat := .var (.ident s)

def ofCon (s : String) (args : List Pat) : Pat := .app (.ofIdent s) args

end Pat

end Offside.Syntax
