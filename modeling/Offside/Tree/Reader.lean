import Offside.Syntax.Module
import Offside.Tree.Library

/-!
# Reading syntax trees from JSON

Each node is read by a library, part by part. Fractions are brought to lowest terms. Trees are read
to a bounded depth, and the depth of the JSON value is always enough.
-/
namespace Offside.Syntax

open Offside.Number

open Read

def Location.read (L : Library) : Read Location :=
  L.record ["filename", "line", "column"] fun o => do
  return {
    file := ← partD o "filename" "" L.string
    line := .ofNat (← partD o "line" 0 (L.nat 0x100000000))
    column := .ofNat (← partD o "column" 0 (L.nat 0x100000000)) }

def ModuleName.read (L : Library) : Read ModuleName := fun p j => ModuleName.mk <$> L.string p j

def SpecialCon.read (L : Library) : Read SpecialCon := fun p j => do
  let (key, v) ← L.variant j
  match key with
  | "unit" => L.plain .unit p v
  | "list" => L.plain .list p v
  | "fun" => L.plain .fn p v
  | "tuple" => return .tuple (.ofNat (← L.nat 0x10000000000000000 p v))
  | "cons" => L.plain .cons p v
  | _ => malformed

def Name.read (L : Library) : Read Name := fun p j => do
  let (key, v) ← L.variant j
  match key with
  | "ident" => .ident <$> L.string p v
  | "symbol" => .symbol <$> L.string p v
  | "special" => .special <$> SpecialCon.read L p v
  | _ => malformed

/-- The kinds in the order of their numbers, each with its parts. -/
def QName.kinds : Kinds :=
  [("qual", ["module", "name"]), ("unQual", ["name"])]

def QName.read (L : Library) : Read QName := L.tagged QName.kinds fun kind o => do
  match kind with
  | "qual" =>
    return .qualified (← part o "module" (ModuleName.read L)) (← part o "name" (Name.read L))
  | "unQual" => return .unqualified (← part o "name" (Name.read L))
  | _ => malformed

def Op.read (L : Library) : Read Op := fun p j => do
  let (key, v) ← L.variant j
  match key with
  | "varOp" => .var <$> Name.read L p v
  | "conOp" => .con <$> Name.read L p v
  | _ => malformed

def QOp.read (L : Library) : Read QOp := fun p j => do
  let (key, v) ← L.variant j
  match key with
  | "qVarOp" => .var <$> QName.read L p v
  | "qConOp" => .con <$> QName.read L p v
  | _ => malformed

def CName.read (L : Library) : Read CName := fun p j => do
  let (key, v) ← L.variant j
  match key with
  | "varName" => .var <$> Name.read L p v
  | "conName" => .con <$> Name.read L p v
  | _ => malformed

/-- A whole number of 128 bits, or the text of one with blanks around it. -/
def int128 (L : Library) : Read Int128 := fun p j => do
  match ← L.numberOrText p j with
  | .inl n => (Int128.ofInt? n).elim malformed .ok
  | .inr s =>
    ((Decimal.parseInt? (Text.trim s.toList)).bind Int128.ofInt?).elim (.error (.badInteger s)) .ok

/-- The two numbers of a fraction. -/
def readRatioParts (L : Library) : Read (Int128 × Int128) :=
  L.record ["numerator", "denominator"] fun o => do
  return (← part o "numerator" (int128 L), ← part o "denominator" (int128 L))

def readRatio (L : Library) : Read Ratio := fun p j => do
  let (num, den) ← readRatioParts L p j
  (Ratio.ofFraction? num.val den.val).elim (.error (.badRatio num.val den.val)) .ok

def Literal.read (L : Library) : Read Literal := fun p j => do
  let (key, v) ← L.variant j
  match key with
  | "char" => .char <$> L.char p v
  | "string" => .string <$> L.string p v
  | "int" => .int <$> int128 L p v
  | "frac" => .frac <$> readRatio L p v
  | "charPrim" => .charPrim <$> L.char p v
  | "stringPrim" => .stringPrim <$> L.string p v
  | "intPrim" => .intPrim <$> int128 L p v
  | "floatPrim" => .floatPrim <$> readRatio L p v
  | "doublePrim" => .doublePrim <$> readRatio L p v
  | _ => malformed

namespace Ty

/-- The kinds in the order of their numbers, each with its parts. -/
def kinds : Kinds :=
  [("fun", ["from", "to"]), ("tuple", ["elems"]), ("app", ["fun", "arg"]), ("var", ["name"]),
    ("con", ["name"])]

/-- Reads a type, given a reader for the types inside it. -/
def readWith (L : Library) (ty : Read Ty) : Read Ty := L.tagged kinds fun kind o => do
  match kind with
  | "fun" => return .fn (← part o "from" ty) (← part o "to" ty)
  | "tuple" => return .tuple (← part o "elems" (L.list ty))
  | "app" => return .app (← part o "fun" ty) (← part o "arg" ty)
  | "var" => return .var (← part o "name" (Name.read L))
  | "con" => return .con (← part o "name" (QName.read L))
  | _ => malformed

/-- Reads a type whose JSON form is no deeper than the first argument. -/
def readTo (L : Library) : Nat → Read Ty
  | 0 => fun _ _ => malformed
  | n + 1 => readWith L (readTo L n)

def read (L : Library) : Read Ty := fun p j => readTo L j.depth p j

end Ty

def Assertion.read (L : Library) : Read Assertion := L.record ["class", "types"] fun o => do
  return ⟨← part o "class" (QName.read L), ← partD o "types" [] (L.list (Ty.read L))⟩

def Context.read (L : Library) : Read Context := L.list (Assertion.read L)

def QualType.read (L : Library) : Read QualType := L.record ["context", "ty"] fun o => do
  return ⟨← partD o "context" [] (Context.read L), ← part o "ty" (Ty.read L)⟩

def PatField.readWith (L : Library) (pat : Read Pat) : Read PatField :=
  L.record ["field", "pat"] fun o => do
  return .mk (← part o "field" (QName.read L)) (← part o "pat" pat)

namespace Pat

/-- The kinds in the order of their numbers, each with its parts. -/
def kinds : Kinds :=
  [("var", ["name"]), ("lit", ["lit"]), ("neg", ["pat"]), ("infixApp", ["left", "op", "right"]),
    ("app", ["con", "args"]), ("tuple", ["elems"]), ("list", ["elems"]), ("paren", ["pat"]),
    ("rec", ["con", "fields"]), ("asPat", ["name", "pat"]), ("wildCard", []), ("irrPat", ["pat"])]

def readWith (L : Library) (pat : Read Pat) : Read Pat := L.tagged kinds fun kind o => do
  match kind with
  | "var" => return .var (← part o "name" (Name.read L))
  | "lit" => return .lit (← part o "lit" (Literal.read L))
  | "neg" => return .neg (← part o "pat" pat)
  | "infixApp" =>
    return .infixApp (← part o "left" pat) (← part o "op" (QName.read L)) (← part o "right" pat)
  | "app" => return .app (← part o "con" (QName.read L)) (← part o "args" (L.list pat))
  | "tuple" => return .tuple (← part o "elems" (L.list pat))
  | "list" => return .list (← part o "elems" (L.list pat))
  | "paren" => return .paren (← part o "pat" pat)
  | "rec" =>
    return .record (← part o "con" (QName.read L))
      (← part o "fields" (L.list (PatField.readWith L pat)))
  | "asPat" => return .asPat (← part o "name" (Name.read L)) (← part o "pat" pat)
  | "wildCard" => return .wildcard
  | "irrPat" => return .irrefutable (← part o "pat" pat)
  | _ => malformed

def readTo (L : Library) : Nat → Read Pat
  | 0 => fun _ _ => malformed
  | n + 1 => readWith L (readTo L n)

def read (L : Library) : Read Pat := fun p j => readTo L j.depth p j

end Pat

def PatField.read (L : Library) : Read PatField := PatField.readWith L (Pat.read L)

def BangType.read (L : Library) : Read BangType := fun p j => do
  let (key, v) ← L.variant j
  match key with
  | "banged" => .banged <$> Ty.read L p v
  | "unBanged" => .unbanged <$> Ty.read L p v
  | _ => malformed

def FieldDecl.read (L : Library) : Read FieldDecl := L.record ["names", "ty"] fun o => do
  return ⟨← part o "names" (L.list (Name.read L)), ← part o "ty" (BangType.read L)⟩

/-- The place of a node, which may be missing. -/
def partLoc (L : Library) (o : Parts) : Except ReadError Location :=
  partD o "loc" .unknown (Location.read L)

/-- The kinds in the order of their numbers, each with its parts. -/
def ConDecl.kinds : Kinds :=
  [("conDecl", ["loc", "name", "args"]), ("recDecl", ["loc", "name", "fields"])]

def ConDecl.read (L : Library) : Read ConDecl := L.tagged ConDecl.kinds fun kind o => do
  match kind with
  | "conDecl" =>
    return .positional (← partLoc L o) (← part o "name" (Name.read L))
      (← partD o "args" [] (L.list (BangType.read L)))
  | "recDecl" =>
    return .record (← partLoc L o) (← part o "name" (Name.read L))
      (← part o "fields" (L.list (FieldDecl.read L)))
  | _ => malformed

def Assoc.read (L : Library) : Read Assoc := fun p j => do
  let (key, v) ← L.variant j
  match key with
  | "none" => L.plain .neither p v
  | "left" => L.plain .left p v
  | "right" => L.plain .right p v
  | _ => malformed

def Safety.read (L : Library) : Read Safety := fun p j => do
  let (key, v) ← L.variant j
  match key with
  | "safe" => L.plain .safe p v
  | "unsafe" => L.plain .unsafeCall p v
  | _ => malformed

/-- The kinds in the order of their numbers, each with its parts. -/
def Stmt.kinds : Kinds :=
  [("generator", ["loc", "pat", "expr"]), ("qualifier", ["expr"]), ("letStmt", ["decls"])]

def Stmt.readWith (L : Library) (expr : Read Expr) (decl : Read Decl) : Read Stmt :=
  L.tagged Stmt.kinds fun kind o => do
  match kind with
  | "generator" =>
    return .generator (← partLoc L o) (← part o "pat" (Pat.read L)) (← part o "expr" expr)
  | "qualifier" => return .qualifier (← part o "expr" expr)
  | "letStmt" => return .letStmt (← part o "decls" (L.list decl))
  | _ => malformed

def FieldUpdate.readWith (L : Library) (expr : Read Expr) : Read FieldUpdate :=
  L.record ["field", "expr"] fun o => do
  return .mk (← part o "field" (QName.read L)) (← part o "expr" expr)

def GuardedAlt.readWith (L : Library) (expr : Read Expr) : Read GuardedAlt :=
  L.record ["loc", "guard", "expr"] fun o => do
  return .mk (← partLoc L o) (← part o "guard" expr) (← part o "expr" expr)

/-- The kinds in the order of their numbers, each with its parts. -/
def GuardedAlts.kinds : Kinds :=
  [("unGuarded", ["expr"]), ("guarded", ["alts"])]

def GuardedAlts.readWith (L : Library) (expr : Read Expr) : Read GuardedAlts :=
  L.tagged GuardedAlts.kinds fun kind o => do
  match kind with
  | "unGuarded" => return .unguarded (← part o "expr" expr)
  | "guarded" => return .guarded (← part o "alts" (L.list (GuardedAlt.readWith L expr)))
  | _ => malformed

def Alt.readWith (L : Library) (expr : Read Expr) (decl : Read Decl) : Read Alt :=
  L.record ["loc", "pat", "alts", "wheres"] fun o => do
  return .mk (← partLoc L o) (← part o "pat" (Pat.read L))
    (← part o "alts" (GuardedAlts.readWith L expr))
    (← partD o "wheres" [] (L.list decl))

def GuardedRhs.readWith (L : Library) (expr : Read Expr) : Read GuardedRhs :=
  L.record ["loc", "guard", "expr"] fun o => do
  return .mk (← partLoc L o) (← part o "guard" expr) (← part o "expr" expr)

/-- The kinds in the order of their numbers, each with its parts. -/
def Rhs.kinds : Kinds :=
  [("unGuarded", ["expr"]), ("guarded", ["rhss"])]

def Rhs.readWith (L : Library) (expr : Read Expr) : Read Rhs := L.tagged Rhs.kinds fun kind o => do
  match kind with
  | "unGuarded" => return .unguarded (← part o "expr" expr)
  | "guarded" => return .guarded (← part o "rhss" (L.list (GuardedRhs.readWith L expr)))
  | _ => malformed

def Match.readWith (L : Library) (expr : Read Expr) (decl : Read Decl) : Read Match :=
  L.record ["loc", "name", "pats", "rhs", "wheres"] fun o => do
  return .mk (← partLoc L o) (← part o "name" (Name.read L))
    (← partD o "pats" [] (L.list (Pat.read L)))
    (← part o "rhs" (Rhs.readWith L expr)) (← partD o "wheres" [] (L.list decl))

/-- The kinds in the order of their numbers, each with its parts. -/
def Expr.kinds : Kinds :=
  [("var", ["name"]), ("con", ["name"]), ("lit", ["lit"]), ("infixApp", ["left", "op", "right"]),
    ("app", ["fun", "arg"]), ("negApp", ["expr"]), ("lambda", ["loc", "pats", "body"]),
    ("let", ["decls", "body"]), ("if", ["cond", "then_expr", "else_expr"]),
    ("case", ["scrutinee", "alts"]), ("do", ["stmts"]), ("tuple", ["elems"]), ("list", ["elems"]),
    ("paren", ["expr"]), ("leftSection", ["expr", "op"]), ("rightSection", ["op", "expr"]),
    ("recConstr", ["con", "fields"]), ("recUpdate", ["expr", "fields"]), ("enumFrom", ["from"]),
    ("enumFromTo", ["from", "to"]), ("enumFromThen", ["from", "then"]),
    ("enumFromThenTo", ["from", "then", "to"]), ("listComp", ["expr", "quals"]),
    ("expTypeSig", ["loc", "expr", "ty"]), ("asPat", ["name", "expr"]), ("wildCard", []),
    ("irrPat", ["expr"])]

def Expr.readWith (L : Library) (expr : Read Expr) (decl : Read Decl) : Read Expr :=
  L.tagged Expr.kinds fun kind o => do
  match kind with
  | "var" => return .var (← part o "name" (QName.read L))
  | "con" => return .con (← part o "name" (QName.read L))
  | "lit" => return .lit (← part o "lit" (Literal.read L))
  | "infixApp" =>
    return .infixApp (← part o "left" expr) (← part o "op" (QOp.read L)) (← part o "right" expr)
  | "app" => return .app (← part o "fun" expr) (← part o "arg" expr)
  | "negApp" => return .neg (← part o "expr" expr)
  | "lambda" =>
    return .lambda (← partLoc L o) (← part o "pats" (L.list (Pat.read L))) (← part o "body" expr)
  | "let" => return .letIn (← part o "decls" (L.list decl)) (← part o "body" expr)
  | "if" =>
    return .ifThenElse (← part o "cond" expr) (← part o "then_expr" expr)
      (← part o "else_expr" expr)
  | "case" =>
    return .caseOf (← part o "scrutinee" expr) (← part o "alts" (L.list (Alt.readWith L expr decl)))
  | "do" => return .doBlock (← part o "stmts" (L.list (Stmt.readWith L expr decl)))
  | "tuple" => return .tuple (← part o "elems" (L.list expr))
  | "list" => return .list (← part o "elems" (L.list expr))
  | "paren" => return .paren (← part o "expr" expr)
  | "leftSection" => return .leftSection (← part o "expr" expr) (← part o "op" (QOp.read L))
  | "rightSection" => return .rightSection (← part o "op" (QOp.read L)) (← part o "expr" expr)
  | "recConstr" =>
    return .recConstr (← part o "con" (QName.read L))
      (← part o "fields" (L.list (FieldUpdate.readWith L expr)))
  | "recUpdate" =>
    return .recUpdate (← part o "expr" expr)
      (← part o "fields" (L.list (FieldUpdate.readWith L expr)))
  | "enumFrom" => return .enumFrom (← part o "from" expr)
  | "enumFromTo" => return .enumFromTo (← part o "from" expr) (← part o "to" expr)
  | "enumFromThen" => return .enumFromThen (← part o "from" expr) (← part o "then" expr)
  | "enumFromThenTo" =>
    return .enumFromThenTo (← part o "from" expr) (← part o "then" expr) (← part o "to" expr)
  | "listComp" =>
    return .listComp (← part o "expr" expr) (← part o "quals" (L.list (Stmt.readWith L expr decl)))
  | "expTypeSig" =>
    return .typed (← partLoc L o) (← part o "expr" expr) (← part o "ty" (QualType.read L))
  | "asPat" => return .asPat (← part o "name" (Name.read L)) (← part o "expr" expr)
  | "wildCard" => return .wildcard
  | "irrPat" => return .irrefutable (← part o "expr" expr)
  | _ => malformed

/-- The kinds in the order of their numbers, each with its parts. -/
def Decl.kinds : Kinds :=
  [("typeDecl", ["loc", "name", "vars", "ty"]),
    ("dataDecl", ["loc", "context", "name", "vars", "cons", "deriving"]),
    ("newTypeDecl", ["loc", "context", "name", "vars", "con", "deriving"]),
    ("infixDecl", ["loc", "assoc", "prec", "ops"]),
    ("classDecl", ["loc", "context", "name", "vars", "decls"]),
    ("instDecl", ["loc", "context", "class", "types", "decls"]),
    ("defaultDecl", ["loc", "types"]), ("typeSig", ["loc", "names", "ty"]),
    ("foreignImport", ["loc", "call_conv", "safety", "entity", "name", "ty"]),
    ("foreignExport", ["loc", "call_conv", "entity", "name", "ty"]), ("funBind", ["matches"]),
    ("patBind", ["loc", "pat", "rhs", "wheres"])]

def Decl.readWith (L : Library) (expr : Read Expr) (decl : Read Decl) : Read Decl :=
  L.tagged Decl.kinds fun kind o => do
  let name : Except ReadError Name := part o "name" (Name.read L)
  let vars : Except ReadError (List Name) := partD o "vars" [] (L.list (Name.read L))
  let context : Except ReadError Context := partD o "context" [] (Context.read L)
  let derivings : Except ReadError (List QName) := partD o "deriving" [] (L.list (QName.read L))
  let members : Except ReadError (List Decl) := partD o "decls" [] (L.list decl)
  let callConv : Except ReadError String := part o "call_conv" L.string
  let entity : Except ReadError String := partD o "entity" "" L.string
  match kind with
  | "typeDecl" => return .typeDecl (← partLoc L o) (← name) (← vars) (← part o "ty" (Ty.read L))
  | "dataDecl" =>
    return .dataDecl (← partLoc L o) (← context) (← name) (← vars)
      (← part o "cons" (L.list (ConDecl.read L))) (← derivings)
  | "newTypeDecl" =>
    return .newtypeDecl (← partLoc L o) (← context) (← name) (← vars)
      (← part o "con" (ConDecl.read L)) (← derivings)
  | "infixDecl" =>
    return .infixDecl (← partLoc L o) (← part o "assoc" (Assoc.read L))
      (.ofNat (← part o "prec" (L.nat 0x100)))
      (← part o "ops" (L.list (Op.read L)))
  | "classDecl" => return .classDecl (← partLoc L o) (← context) (← name) (← vars) (← members)
  | "instDecl" =>
    return .instDecl (← partLoc L o) (← context) (← part o "class" (QName.read L))
      (← part o "types" (L.list (Ty.read L)))
      (← members)
  | "defaultDecl" => return .defaultDecl (← partLoc L o) (← part o "types" (L.list (Ty.read L)))
  | "typeSig" =>
    return .typeSig (← partLoc L o) (← part o "names" (L.list (Name.read L)))
      (← part o "ty" (QualType.read L))
  | "foreignImport" =>
    return .foreignImport (← partLoc L o) (← callConv) (← part o "safety" (Safety.read L))
      (← entity) (← name)
      (← part o "ty" (Ty.read L))
  | "foreignExport" =>
    return .foreignExport (← partLoc L o) (← callConv) (← entity) (← name)
      (← part o "ty" (Ty.read L))
  | "funBind" => return .funBind (← part o "matches" (L.list (Match.readWith L expr decl)))
  | "patBind" =>
    return .patBind (← partLoc L o) (← part o "pat" (Pat.read L))
      (← part o "rhs" (Rhs.readWith L expr))
      (← partD o "wheres" [] (L.list decl))
  | _ => malformed

mutual

/-- Reads an expression whose JSON form is no deeper than the first argument. -/
def Expr.readTo (L : Library) : Nat → Read Expr
  | 0 => fun _ _ => malformed
  | n + 1 => Expr.readWith L (Expr.readTo L n) (Decl.readTo L n)

/-- Reads a declaration whose JSON form is no deeper than the first argument. -/
def Decl.readTo (L : Library) : Nat → Read Decl
  | 0 => fun _ _ => malformed
  | n + 1 => Decl.readWith L (Expr.readTo L n) (Decl.readTo L n)

end

def Expr.read (L : Library) : Read Expr := fun p j => Expr.readTo L j.depth p j

def Decl.read (L : Library) : Read Decl := fun p j => Decl.readTo L j.depth p j

def Stmt.read (L : Library) : Read Stmt := Stmt.readWith L (Expr.read L) (Decl.read L)

def FieldUpdate.read (L : Library) : Read FieldUpdate := FieldUpdate.readWith L (Expr.read L)

def Alt.read (L : Library) : Read Alt := Alt.readWith L (Expr.read L) (Decl.read L)

def GuardedAlts.read (L : Library) : Read GuardedAlts := GuardedAlts.readWith L (Expr.read L)

def GuardedAlt.read (L : Library) : Read GuardedAlt := GuardedAlt.readWith L (Expr.read L)

def Match.read (L : Library) : Read Match := Match.readWith L (Expr.read L) (Decl.read L)

def Rhs.read (L : Library) : Read Rhs := Rhs.readWith L (Expr.read L)

def GuardedRhs.read (L : Library) : Read GuardedRhs := GuardedRhs.readWith L (Expr.read L)

/-- The kinds in the order of their numbers, each with its parts. -/
def ExportSpec.kinds : Kinds :=
  [("var", ["name"]), ("abs", ["name"]), ("thingAll", ["name"]), ("thingWith", ["name", "items"]),
    ("moduleContents", ["module"])]

def ExportSpec.read (L : Library) : Read ExportSpec := L.tagged ExportSpec.kinds fun kind o => do
  match kind with
  | "var" => return .var (← part o "name" (QName.read L))
  | "abs" => return .abs (← part o "name" (QName.read L))
  | "thingAll" => return .thingAll (← part o "name" (QName.read L))
  | "thingWith" =>
    return .thingWith (← part o "name" (QName.read L)) (← part o "items" (L.list (CName.read L)))
  | "moduleContents" => return .moduleContents (← part o "module" (ModuleName.read L))
  | _ => malformed

/-- The kinds in the order of their numbers, each with its parts. -/
def ImportSpec.kinds : Kinds :=
  [("var", ["name"]), ("abs", ["name"]), ("thingAll", ["name"]), ("thingWith", ["name", "items"])]

def ImportSpec.read (L : Library) : Read ImportSpec := L.tagged ImportSpec.kinds fun kind o => do
  match kind with
  | "var" => return .var (← part o "name" (Name.read L))
  | "abs" => return .abs (← part o "name" (Name.read L))
  | "thingAll" => return .thingAll (← part o "name" (Name.read L))
  | "thingWith" =>
    return .thingWith (← part o "name" (Name.read L)) (← part o "items" (L.list (CName.read L)))
  | _ => malformed

def ImportSpecs.read (L : Library) : Read ImportSpecs := L.record ["hiding", "items"] fun o => do
  return ⟨← partD o "hiding" false L.bool, ← part o "items" (L.list (ImportSpec.read L))⟩

def ImportDecl.read (L : Library) : Read ImportDecl :=
  L.record ["loc", "module", "qualified", "alias", "specs"] fun o => do
  return ⟨← partLoc L o, ← part o "module" (ModuleName.read L), ← partD o "qualified" false L.bool,
    ← partD o "alias" none (L.option (ModuleName.read L)),
    ← partD o "specs" none (L.option (ImportSpecs.read L))⟩

def Module.read (L : Library) : Read Module :=
  L.record ["loc", "name", "exports", "imports", "decls"] fun o => do
  return ⟨← partLoc L o, ← part o "name" (ModuleName.read L),
    ← partD o "exports" none (L.option (L.list (ExportSpec.read L))),
    ← partD o "imports" [] (L.list (ImportDecl.read L)),
    ← partD o "decls" [] (L.list (Decl.read L))⟩

end Offside.Syntax
