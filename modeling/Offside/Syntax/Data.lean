import Offside.Syntax.Location
import Offside.Syntax.Type

/-!
# Constructors of data types, fixity and calling
-/
namespace Offside.Syntax

/-- The type of a component of a constructor, strict if it is banged. -/
inductive BangType where
  | banged (ty : Ty)
  | unbanged (ty : Ty)

structure FieldDecl where
  names : List Name
  ty : BangType

inductive ConDecl where
  | positional (loc : Location) (name : Name) (args : List BangType)
  | record (loc : Location) (name : Name) (fields : List FieldDecl)

namespace ConDecl

def loc : ConDecl → Location
  | .positional loc _ _ | .record loc _ _ => loc

def ofTypes (s : String) (args : List Ty) : ConDecl :=
  .positional .unknown (.ident s) (args.map .unbanged)

end ConDecl

inductive Assoc where
  | neither
  | left
  | right
deriving DecidableEq, Repr

/-- Whether a foreign function may call back. -/
inductive Safety where
  | safe
  | unsafeCall
deriving DecidableEq, Repr

end Offside.Syntax
