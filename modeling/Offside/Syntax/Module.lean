import Offside.Syntax.Expr

/-!
# Modules, exports and imports
-/
namespace Offside.Syntax

inductive ExportSpec where
  | var (name : QName)
  | abs (name : QName)
  | thingAll (name : QName)
  | thingWith (name : QName) (items : List CName)
  | moduleContents (module : ModuleName)
deriving DecidableEq, Repr

inductive ImportSpec where
  | var (name : Name)
  | abs (name : Name)
  | thingAll (name : Name)
  | thingWith (name : Name) (items : List CName)
deriving DecidableEq, Repr

/-- The entities of an import, or those it hides. -/
structure ImportSpecs where
  hides : Bool
  items : List ImportSpec
deriving DecidableEq, Repr

structure ImportDecl where
  loc : Location := .unknown
  module : ModuleName
  qualified : Bool := false
  asName : Option ModuleName := none
  specs : Option ImportSpecs := none
deriving DecidableEq, Repr

structure Module where
  loc : Location := .unknown
  name : ModuleName
  exports : Option (List ExportSpec) := none
  imports : List ImportDecl := []
  decls : List Decl

end Offside.Syntax
