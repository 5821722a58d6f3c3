import Offside.Text.Alphabetic

/-!
# Names and operators
-/
namespace Offside.Syntax

/-- A dotted module name. -/
structure ModuleName where
  text : String
deriving DecidableEq, Repr

namespace ModuleName

def prelude : ModuleName := ⟨"Prelude"⟩

/-- The module of a source text without a header. -/
def main : ModuleName := ⟨"Main"⟩

end ModuleName

/-- The constructors with a form of their own: `()`, `[]`, `->`, tuples by their arity, and `:`. -/
inductive SpecialCon where
  | unit
  | list
  | fn
  | tuple (arity : UInt64)
  | cons
deriving DecidableEq, Repr

namespace SpecialCon

def isSymbolic : SpecialCon → Bool
  | .fn | .cons => true
  | _ => false

end SpecialCon

inductive Name where
  /-- Letters and digits, as in `map` or `Just`. -/
  | ident (s : String)
  /-- Operator characters, as in `+` or `:|`. -/
  | symbol (s : String)
  | special (con : SpecialCon)
deriving DecidableEq, Repr

namespace Name

/-- Whether a name stands by itself between two operands and needs parentheses elsewhere. -/
def isSymbolic : Name → Bool
  | .ident _ => false
  | .symbol _ => true
  | .special con => con.isSymbolic

end Name

/-- A name with or without a module before it. -/
structure QName where
  qualifier : Option ModuleName
  name : Name
deriving DecidableEq, Repr

namespace QName

def unqualified (name : Name) : QName := ⟨none, name⟩

def qualified (module : ModuleName) (name : Name) : QName := ⟨some module, name⟩

/-- An identifier without a module. -/
def ofIdent (s : String) : QName := unqualified (.ident s)

/-- A special constructor, which belongs to the prelude. -/
def ofSpecial (con : SpecialCon) : QName := qualified .prelude (.special con)

def isSymbolic (q : QName) : Bool := q.name.isSymbolic

end QName

/-- An operator that is declared: a variable or a constructor. -/
inductive Op where
  | var (name : Name)
  | con (name : Name)
deriving DecidableEq, Repr

def Op.name : Op → Name
  | .var n | .con n => n

/-- An operator in use, which may be qualified. -/
inductive QOp where
  | var (name : QName)
  | con (name : QName)
deriving DecidableEq, Repr

namespace QOp

def name : QOp → QName
  | .var n | .con n => n

/-- The variable operator with this text: an identifier if it starts with a letter or an
underscore. -/
def ofText (s : String) : QOp :=
  let isIdent := s.toList.head?.any fun c => Text.isAlphabetic c || c = '_'
  .var (.unqualified (if isIdent then .ident s else .symbol s))

end QOp

/-- A part of an entity that is imported or exported: a field, a method or a constructor. -/
inductive CName where
  | var (name : Name)
  | con (name : Name)
deriving DecidableEq, Repr

def CName.name : CName → Name
  | .var n | .con n => n

end Offside.Syntax
