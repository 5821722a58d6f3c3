import Offside.Syntax.Name

/-!
# Types
-/
namespace Offside.Syntax

inductive Ty where
  | fn (source target : Ty)
  | tuple (elems : List Ty)
  | app (f arg : Ty)
  | var (name : Name)
  | con (name : QName)

namespace Ty

def ofVar (s : String) : Ty := .var (.ident s)

def ofCon (s : String) : Ty := .con (.ofIdent s)

def special (con : SpecialCon) : Ty := .con (.ofSpecial con)

/-- The type of lists with this element type. -/
def list (elem : Ty) : Ty := .app (special .list) elem

/-- Whether the type is the list constructor by itself. -/
def isListCon : Ty → Bool
  | .con q => q.name == .special .list
  | _ => false

end Ty

/-- A class applied to types, as it stands in a context. -/
structure Assertion where
  className : QName
  types : List Ty

abbrev Context := List Assertion

structure QualType where
  context : Context
  ty : Ty

def QualType.ofTy (ty : Ty) : QualType := ⟨[], ty⟩

end Offside.Syntax
