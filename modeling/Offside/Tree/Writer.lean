import Offside.Json.Basic
import Offside.Syntax.Module

/-!
# Syntax trees as JSON

A node with variants is an object with its variant under `kind` and its parts beside it. Names,
operators, literals and component types are objects with their variant as the one key. Every part is
written, also one with its default value.
-/
namespace Offside.Syntax

open Offside.Number

/-- A list of values, each by its own form. -/
def listJson {α : Type} (f : α → Json) (xs : List α) : Json := .array (xs.map f)

def optionJson {α : Type} (f : α → Json) : Option α → Json
  | none => .null
  | some a => f a

/-- A node of a variant with its parts. -/
def kindJson (kind : String) (parts : List (String × Json)) : Json :=
  .object (("kind", .string kind) :: parts)

/-- A number if it fits 64 bits, otherwise its decimal text. -/
def wideJson (n : Int) : Json :=
  if -0x8000000000000000 ≤ n ∧ n < 0x8000000000000000 then .int n else .string (decimalText n)

def Location.toJson (l : Location) : Json :=
  .object [("filename", .string l.file), ("line", .int l.line.toNat),
    ("column", .int l.column.toNat)]

def ModuleName.toJson (m : ModuleName) : Json := .string m.text

def SpecialCon.toJson : SpecialCon → Json
  | .unit => .string "unit"
  | .list => .string "list"
  | .fn => .string "fun"
  | .tuple arity => .object [("tuple", .int arity.toNat)]
  | .cons => .string "cons"

def Name.toJson : Name → Json
  | .ident s => .object [("ident", .string s)]
  | .symbol s => .object [("symbol", .string s)]
  | .special con => .object [("special", con.toJson)]

def QName.toJson (q : QName) : Json :=
  match q.qualifier with
  | some m => kindJson "qual" [("module", m.toJson), ("name", q.name.toJson)]
  | none => kindJson "unQual" [("name", q.name.toJson)]

def Op.toJson : Op → Json
  | .var n => .object [("varOp", n.toJson)]
  | .con n => .object [("conOp", n.toJson)]

def QOp.toJson : QOp → Json
  | .var q => .object [("qVarOp", q.toJson)]
  | .con q => .object [("qConOp", q.toJson)]

def CName.toJson : CName → Json
  | .var n => .object [("varName", n.toJson)]
  | .con n => .object [("conName", n.toJson)]

def ratioJson (r : Ratio) : Json :=
  .object [("numerator", wideJson r.num), ("denominator", wideJson r.den)]

def Literal.toJson : Literal → Json
  | .char c => .object [("char", .string (String.singleton c))]
  | .string s => .object [("string", .string s)]
  | .int n => .object [("int", wideJson n.val)]
  | .frac r => .object [("frac", ratioJson r)]
  | .charPrim c => .object [("charPrim", .string (String.singleton c))]
  | .stringPrim s => .object [("stringPrim", .string s)]
  | .intPrim n => .object [("intPrim", wideJson n.val)]
  | .floatPrim r => .object [("floatPrim", ratioJson r)]
  | .doublePrim r => .object [("doublePrim", ratioJson r)]

mutual

def Ty.toJson : Ty → Json
  | .fn source target => kindJson "fun" [("from", source.toJson), ("to", target.toJson)]
  | .tuple elems => kindJson "tuple" [("elems", .array (Ty.jsons elems))]
  | .app f arg => kindJson "app" [("fun", f.toJson), ("arg", arg.toJson)]
  | .var name => kindJson "var" [("name", name.toJson)]
  | .con name => kindJson "con" [("name", name.toJson)]

def Ty.jsons : List Ty → List Json
  | [] => []
  | t :: ts => t.toJson :: Ty.jsons ts

end

def Assertion.toJson (a : Assertion) : Json :=
  .object [("class", a.className.toJson), ("types", listJson Ty.toJson a.types)]

def Context.toJson (c : Context) : Json := listJson Assertion.toJson c

def QualType.toJson (q : QualType) : Json :=
  .object [("context", Context.toJson q.context), ("ty", q.ty.toJson)]

mutual

def Pat.toJson : Pat → Json
  | .var name => kindJson "var" [("name", name.toJson)]
  | .lit l => kindJson "lit" [("lit", l.toJson)]
  | .neg p => kindJson "neg" [("pat", p.toJson)]
  | .infixApp l op r =>
    kindJson "infixApp" [("left", l.toJson), ("op", op.toJson), ("right", r.toJson)]
  | .app con args => kindJson "app" [("con", con.toJson), ("args", .array (Pat.jsons args))]
  | .tuple elems => kindJson "tuple" [("elems", .array (Pat.jsons elems))]
  | .list elems => kindJson "list" [("elems", .array (Pat.jsons elems))]
  | .paren p => kindJson "paren" [("pat", p.toJson)]
  | .record con fields =>
    kindJson "rec" [("con", con.toJson), ("fields", .array (PatField.jsons fields))]
  | .asPat name p => kindJson "asPat" [("name", name.toJson), ("pat", p.toJson)]
  | .wildcard => kindJson "wildCard" []
  | .irrefutable p => kindJson "irrPat" [("pat", p.toJson)]

def PatField.toJson : PatField → Json
  | .mk field p => .object [("field", field.toJson), ("pat", p.toJson)]

def Pat.jsons : List Pat → List Json
  | [] => []
  | p :: ps => p.toJson :: Pat.jsons ps

def PatField.jsons : List PatField → List Json
  | [] => []
  | f :: fs => f.toJson :: PatField.jsons fs

end

def BangType.toJson : BangType → Json
  | .banged ty => .object [("banged", ty.toJson)]
  | .unbanged ty => .object [("unBanged", ty.toJson)]

def FieldDecl.toJson (f : FieldDecl) : Json :=
  .object [("names", listJson Name.toJson f.names), ("ty", f.ty.toJson)]

def ConDecl.toJson : ConDecl → Json
  | .positional loc name args =>
    kindJson "conDecl" [("loc", loc.toJson), ("name", name.toJson),
      ("args", listJson BangType.toJson args)]
  | .record loc name fields =>
    kindJson "recDecl" [("loc", loc.toJson), ("name", name.toJson),
      ("fields", listJson FieldDecl.toJson fields)]

def Assoc.toJson : Assoc → Json
  | .neither => .string "none"
  | .left => .string "left"
  | .right => .string "right"

def Safety.toJson : Safety → Json
  | .safe => .string "safe"
  | .unsafeCall => .string "unsafe"

mutual

def Expr.toJson : Expr → Json
  | .var name => kindJson "var" [("name", name.toJson)]
  | .con name => kindJson "con" [("name", name.toJson)]
  | .lit l => kindJson "lit" [("lit", l.toJson)]
  | .infixApp l op r =>
    kindJson "infixApp" [("left", l.toJson), ("op", op.toJson), ("right", r.toJson)]
  | .app f arg => kindJson "app" [("fun", f.toJson), ("arg", arg.toJson)]
  | .neg e => kindJson "negApp" [("expr", e.toJson)]
  | .lambda loc pats body =>
    kindJson "lambda" [("loc", loc.toJson), ("pats", listJson Pat.toJson pats),
      ("body", body.toJson)]
  | .letIn decls body =>
    kindJson "let" [("decls", .array (Decl.jsons decls)), ("body", body.toJson)]
  | .ifThenElse cond yes no =>
    kindJson "if" [("cond", cond.toJson), ("then_expr", yes.toJson), ("else_expr", no.toJson)]
  | .caseOf scrutinee alts =>
    kindJson "case" [("scrutinee", scrutinee.toJson), ("alts", .array (Alt.jsons alts))]
  | .doBlock stmts => kindJson "do" [("stmts", .array (Stmt.jsons stmts))]
  | .tuple elems => kindJson "tuple" [("elems", .array (Expr.jsons elems))]
  | .list elems => kindJson "list" [("elems", .array (Expr.jsons elems))]
  | .paren e => kindJson "paren" [("expr", e.toJson)]
  | .leftSection e op => kindJson "leftSection" [("expr", e.toJson), ("op", op.toJson)]
  | .rightSection op e => kindJson "rightSection" [("op", op.toJson), ("expr", e.toJson)]
  | .recConstr con fields =>
    kindJson "recConstr" [("con", con.toJson), ("fields", .array (FieldUpdate.jsons fields))]
  | .recUpdate e fields =>
    kindJson "recUpdate" [("expr", e.toJson), ("fields", .array (FieldUpdate.jsons fields))]
  | .enumFrom start => kindJson "enumFrom" [("from", start.toJson)]
  | .enumFromTo start stop => kindJson "enumFromTo" [("from", start.toJson), ("to", stop.toJson)]
  | .enumFromThen start next =>
    kindJson "enumFromThen" [("from", start.toJson), ("then", next.toJson)]
  | .enumFromThenTo start next stop =>
    kindJson "enumFromThenTo" [("from", start.toJson), ("then", next.toJson), ("to", stop.toJson)]
  | .listComp e quals =>
    kindJson "listComp" [("expr", e.toJson), ("quals", .array (Stmt.jsons quals))]
  | .typed loc e ty =>
    kindJson "expTypeSig" [("loc", loc.toJson), ("expr", e.toJson), ("ty", ty.toJson)]
  | .asPat name e => kindJson "asPat" [("name", name.toJson), ("expr", e.toJson)]
  | .wildcard => kindJson "wildCard" []
  | .irrefutable e => kindJson "irrPat" [("expr", e.toJson)]

def Stmt.toJson : Stmt → Json
  | .generator loc pat e =>
    kindJson "generator" [("loc", loc.toJson), ("pat", pat.toJson), ("expr", e.toJson)]
  | .qualifier e => kindJson "qualifier" [("expr", e.toJson)]
  | .letStmt decls => kindJson "letStmt" [("decls", .array (Decl.jsons decls))]

def FieldUpdate.toJson : FieldUpdate → Json
  | .mk field e => .object [("field", field.toJson), ("expr", e.toJson)]

def Alt.toJson : Alt → Json
  | .mk loc pat alts wheres =>
    .object [("loc", loc.toJson), ("pat", pat.toJson), ("alts", alts.toJson),
      ("wheres", .array (Decl.jsons wheres))]

def GuardedAlts.toJson : GuardedAlts → Json
  | .unguarded e => kindJson "unGuarded" [("expr", e.toJson)]
  | .guarded alts => kindJson "guarded" [("alts", .array (GuardedAlt.jsons alts))]

def GuardedAlt.toJson : GuardedAlt → Json
  | .mk loc guard e => .object [("loc", loc.toJson), ("guard", guard.toJson), ("expr", e.toJson)]

def Decl.toJson : Decl → Json
  | .typeDecl loc name vars ty =>
    kindJson "typeDecl"
      [("loc", loc.toJson), ("name", name.toJson), ("vars", listJson Name.toJson vars),
        ("ty", ty.toJson)]
  | .dataDecl loc context name vars cons derivings =>
    kindJson "dataDecl"
      [("loc", loc.toJson), ("context", Context.toJson context), ("name", name.toJson),
        ("vars", listJson Name.toJson vars), ("cons", listJson ConDecl.toJson cons),
        ("deriving", listJson QName.toJson derivings)]
  | .newtypeDecl loc context name vars con derivings =>
    kindJson "newTypeDecl"
      [("loc", loc.toJson), ("context", Context.toJson context), ("name", name.toJson),
        ("vars", listJson Name.toJson vars), ("con", con.toJson),
        ("deriving", listJson QName.toJson derivings)]
  | .infixDecl loc assoc prec ops =>
    kindJson "infixDecl"
      [("loc", loc.toJson), ("assoc", assoc.toJson), ("prec", .int prec.toNat),
        ("ops", listJson Op.toJson ops)]
  | .classDecl loc context name vars decls =>
    kindJson "classDecl"
      [("loc", loc.toJson), ("context", Context.toJson context), ("name", name.toJson),
        ("vars", listJson Name.toJson vars), ("decls", .array (Decl.jsons decls))]
  | .instDecl loc context className types decls =>
    kindJson "instDecl"
      [("loc", loc.toJson), ("context", Context.toJson context), ("class", className.toJson),
        ("types", listJson Ty.toJson types), ("decls", .array (Decl.jsons decls))]
  | .defaultDecl loc types =>
    kindJson "defaultDecl" [("loc", loc.toJson), ("types", listJson Ty.toJson types)]
  | .typeSig loc names ty =>
    kindJson "typeSig" [("loc", loc.toJson), ("names", listJson Name.toJson names),
      ("ty", ty.toJson)]
  | .foreignImport loc callConv safety entity name ty =>
    kindJson "foreignImport"
      [("loc", loc.toJson), ("call_conv", .string callConv), ("safety", safety.toJson),
        ("entity", .string entity), ("name", name.toJson), ("ty", ty.toJson)]
  | .foreignExport loc callConv entity name ty =>
    kindJson "foreignExport"
      [("loc", loc.toJson), ("call_conv", .string callConv), ("entity", .string entity),
        ("name", name.toJson), ("ty", ty.toJson)]
  | .funBind clauses => kindJson "funBind" [("matches", .array (Match.jsons clauses))]
  | .patBind loc pat rhs wheres =>
    kindJson "patBind"
      [("loc", loc.toJson), ("pat", pat.toJson), ("rhs", rhs.toJson),
        ("wheres", .array (Decl.jsons wheres))]

def Match.toJson : Match → Json
  | .mk loc name pats rhs wheres =>
    .object
      [("loc", loc.toJson), ("name", name.toJson), ("pats", listJson Pat.toJson pats),
        ("rhs", rhs.toJson), ("wheres", .array (Decl.jsons wheres))]

def Rhs.toJson : Rhs → Json
  | .unguarded e => kindJson "unGuarded" [("expr", e.toJson)]
  | .guarded rhss => kindJson "guarded" [("rhss", .array (GuardedRhs.jsons rhss))]

def GuardedRhs.toJson : GuardedRhs → Json
  | .mk loc guard e => .object [("loc", loc.toJson), ("guard", guard.toJson), ("expr", e.toJson)]

def Expr.jsons : List Expr → List Json
  | [] => []
  | e :: es => e.toJson :: Expr.jsons es

def Stmt.jsons : List Stmt → List Json
  | [] => []
  | s :: ss => s.toJson :: Stmt.jsons ss

def FieldUpdate.jsons : List FieldUpdate → List Json
  | [] => []
  | f :: fs => f.toJson :: FieldUpdate.jsons fs

def Alt.jsons : List Alt → List Json
  | [] => []
  | a :: as => a.toJson :: Alt.jsons as

def GuardedAlt.jsons : List GuardedAlt → List Json
  | [] => []
  | a :: as => a.toJson :: GuardedAlt.jsons as

def Decl.jsons : List Decl → List Json
  | [] => []
  | d :: ds => d.toJson :: Decl.jsons ds

def Match.jsons : List Match → List Json
  | [] => []
  | m :: ms => m.toJson :: Match.jsons ms

def GuardedRhs.jsons : List GuardedRhs → List Json
  | [] => []
  | r :: rs => r.toJson :: GuardedRhs.jsons rs

end

def ExportSpec.toJson : ExportSpec → Json
  | .var name => kindJson "var" [("name", name.toJson)]
  | .abs name => kindJson "abs" [("name", name.toJson)]
  | .thingAll name => kindJson "thingAll" [("name", name.toJson)]
  | .thingWith name items =>
    kindJson "thingWith" [("name", name.toJson), ("items", listJson CName.toJson items)]
  | .moduleContents module => kindJson "moduleContents" [("module", module.toJson)]

def ImportSpec.toJson : ImportSpec → Json
  | .var name => kindJson "var" [("name", name.toJson)]
  | .abs name => kindJson "abs" [("name", name.toJson)]
  | .thingAll name => kindJson "thingAll" [("name", name.toJson)]
  | .thingWith name items =>
    kindJson "thingWith" [("name", name.toJson), ("items", listJson CName.toJson items)]

def ImportSpecs.toJson (s : ImportSpecs) : Json :=
  .object [("hiding", .bool s.hides), ("items", listJson ImportSpec.toJson s.items)]

def ImportDecl.toJson (i : ImportDecl) : Json :=
  .object
    [("loc", i.loc.toJson), ("module", i.module.toJson), ("qualified", .bool i.qualified),
      ("alias", optionJson ModuleName.toJson i.asName),
      ("specs", optionJson ImportSpecs.toJson i.specs)]

def Module.toJson (m : Module) : Json :=
  .object
    [("loc", m.loc.toJson), ("name", m.name.toJson),
      ("exports", optionJson (listJson ExportSpec.toJson) m.exports),
      ("imports", listJson ImportDecl.toJson m.imports), ("decls", listJson Decl.toJson m.decls)]

end Offside.Syntax
