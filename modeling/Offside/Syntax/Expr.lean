import Offside.Syntax.Data
import Offside.Syntax.Pattern

/-!
# Expressions and declarations
-/
namespace Offside.Syntax

mutual

inductive Expr where
  | var (name : QName)
  | con (name : QName)
  | lit (lit : Literal)
  | infixApp (left : Expr) (op : QOp) (right : Expr)
  | app (f arg : Expr)
  | neg (expr : Expr)
  | lambda (loc : Location) (pats : List Pat) (body : Expr)
  | letIn (decls : List Decl) (body : Expr)
  | ifThenElse (cond yes no : Expr)
  | caseOf (scrutinee : Expr) (alts : List Alt)
  | doBlock (stmts : List Stmt)
  | tuple (elems : List Expr)
  | list (elems : List Expr)
  | paren (expr : Expr)
  | leftSection (expr : Expr) (op : QOp)
  | rightSection (op : QOp) (expr : Expr)
  | recConstr (con : QName) (fields : List FieldUpdate)
  | recUpdate (expr : Expr) (fields : List FieldUpdate)
  | enumFrom (start : Expr)
  | enumFromTo (start stop : Expr)
  | enumFromThen (start next : Expr)
  | enumFromThenTo (start next stop : Expr)
  | listComp (expr : Expr) (quals : List Stmt)
  | typed (loc : Location) (expr : Expr) (ty : QualType)
  | asPat (name : Name) (expr : Expr)
  | wildcard
  | irrefutable (expr : Expr)

inductive Stmt where
  | generator (loc : Location) (pat : Pat) (expr : Expr)
  | qualifier (expr : Expr)
  | letStmt (decls : List Decl)

inductive FieldUpdate where
  | mk (field : QName) (expr : Expr)

/-- An alternative of a case expression. -/
inductive Alt where
  | mk (loc : Location) (pat : Pat) (alts : GuardedAlts) (wheres : List Decl)

inductive GuardedAlts where
  | unguarded (expr : Expr)
  | guarded (alts : List GuardedAlt)

inductive GuardedAlt where
  | mk (loc : Location) (guard expr : Expr)

inductive Decl where
  | typeDecl (loc : Location) (name : Name) (vars : List Name) (ty : Ty)
  | dataDecl (loc : Location) (context : Context) (name : Name) (vars : List Name)
      (cons : List ConDecl)
      (derivings : List QName)
  | newtypeDecl (loc : Location) (context : Context) (name : Name) (vars : List Name)
      (con : ConDecl)
      (derivings : List QName)
  | infixDecl (loc : Location) (assoc : Assoc) (prec : UInt8) (ops : List Op)
  | classDecl (loc : Location) (context : Context) (name : Name) (vars : List Name)
      (decls : List Decl)
  | instDecl (loc : Location) (context : Context) (className : QName) (types : List Ty)
      (decls : List Decl)
  | defaultDecl (loc : Location) (types : List Ty)
  | typeSig (loc : Location) (names : List Name) (ty : QualType)
  | foreignImport (loc : Location) (callConv : String) (safety : Safety) (entity : String)
      (name : Name)
      (ty : Ty)
  | foreignExport (loc : Location) (callConv : String) (entity : String) (name : Name) (ty : Ty)
  | funBind (clauses : List Match)
  | patBind (loc : Location) (pat : Pat) (rhs : Rhs) (wheres : List Decl)

/-- A clause of a function. -/
inductive Match where
  | mk (loc : Location) (name : Name) (pats : List Pat) (rhs : Rhs) (wheres : List Decl)

inductive Rhs where
  | unguarded (expr : Expr)
  | guarded (rhss : List GuardedRhs)

inductive GuardedRhs where
  | mk (loc : Location) (guard expr : Expr)

end

namespace Expr

def ofVar (s : String) : Expr := .var (.ofIdent s)

def ofCon (s : String) : Expr := .con (.ofIdent s)

def special (con : SpecialCon) : Expr := .con (.ofSpecial con)

def int (n : Number.Int128) : Expr := .lit (.int n)

def string (s : String) : Expr := .lit (.string s)

/-- A function applied to several arguments. -/
def apps (f : Expr) (args : List Expr) : Expr := args.foldl .app f

def fn (pats : List Pat) (body : Expr) : Expr := .lambda .unknown pats body

end Expr

namespace Stmt

def draw (pat : Pat) (expr : Expr) : Stmt := .generator .unknown pat expr

end Stmt

def FieldUpdate.ofIdent (s : String) (expr : Expr) : FieldUpdate := .mk (.ofIdent s) expr

def Alt.ofExpr (pat : Pat) (expr : Expr) : Alt := .mk .unknown pat (.unguarded expr) []

def GuardedRhs.ofExprs (guard expr : Expr) : GuardedRhs := .mk .unknown guard expr

namespace Match

def loc : Match → Location
  | .mk loc _ _ _ _ => loc

def ofRhs (name : Name) (pats : List Pat) (rhs : Rhs) : Match := .mk .unknown name pats rhs []

def withWheres (wheres : List Decl) : Match → Match
  | .mk loc name pats rhs _ => .mk loc name pats rhs wheres

end Match

namespace Decl

/-- The place of a declaration; a function has that of its first clause. -/
def loc? : Decl → Option Location
  | .typeDecl loc .. | .dataDecl loc .. | .newtypeDecl loc .. | .infixDecl loc ..
  | .classDecl loc ..
  | .instDecl loc .. | .defaultDecl loc .. | .typeSig loc .. | .foreignImport loc ..
  | .foreignExport loc ..
  | .patBind loc .. => some loc
  | .funBind clauses => clauses.head?.map Match.loc

/-- A function of one clause without guards. -/
def simpleFun (s : String) (pats : List Pat) (body : Expr) : Decl :=
  .funBind [.ofRhs (.ident s) pats (.unguarded body)]

def signature (names : List Name) (ty : Ty) : Decl := .typeSig .unknown names (.ofTy ty)

end Decl

end Offside.Syntax
