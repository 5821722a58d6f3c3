import Offside.Pretty.Pattern
import Offside.Pretty.Type
import Offside.Syntax.Expr

/-!
# Expressions and declarations as documents

An expression is printed at a level: 0 anywhere, 1 after an operator, 2 before an operator or a type
annotation, 3 as a function or under a negation, 4 as an argument. A form that goes on as far to the
right as it can needs parentheses only where something follows it.
-/
namespace Offside.Syntax

open Offside.Doc

/-- The classes of which instances are derived. -/
def derivingDoc (m : Mode) : List QName → Doc
  | [] => .empty
  | [q] => (text "deriving").appendSpace q.doc
  | qs => (text "deriving").appendSpace (m.parenList (qs.map QName.doc))

/-- The name of a foreign entity, if it has one. -/
def entityDoc (entity : String) : Doc :=
  if entity.isEmpty then .empty else text (Text.stringLiteral entity)

def Assoc.doc : Assoc → Doc
  | .neither => text "infix"
  | .left => text "infixl"
  | .right => text "infixr"

def Safety.doc : Safety → Doc
  | .safe => text "safe"
  | .unsafeCall => text "unsafe"

def FieldDecl.pretty (m : Mode) (f : FieldDecl) : Checked Doc := do
  let ty ← f.ty.pretty m 0
  return m.fill (punctuate comma (f.names.map Name.doc) ++ [text "::", ty])

def ConDecl.pretty (m : Mode) : ConDecl → Checked Doc
  | .positional _ name args =>
    let applied := do return m.sepFirst (name.doc :: (← args.mapM (BangType.pretty m 2)))
    match args with
    | [left, right] =>
      if name.isSymbolic then do
        let left ← left.pretty m 1
        let right ← right.pretty m 1
        return m.fillOnside [left, name.infixDoc, right]
      else applied
    | _ => applied
  | .record _ name fields => do return name.doc ++ m.braceList (← fields.mapM (FieldDecl.pretty m))

/-- The constructors of a data type, the first after an equals sign and the others after a bar. -/
def alternatives : List Doc → List Doc
  | [] => []
  | d :: ds => equals.appendSpace d :: ds.map (char '|').appendSpace

/-- The header of a class or an instance and its members. -/
def classDoc (m : Mode) (head : List Doc) (members : List Doc) : Doc :=
  m.aboveOrBeside (m.sepFirst (head ++ [text "where"])) (m.block m.classIndent members)

/-- The left side of a clause. An operator stands between its first two patterns. -/
def clauseHead (m : Mode) (name : Name) (pats : List Doc) : List Doc :=
  match pats with
  | left :: right :: rest =>
    if name.isSymbolic then
      let head := [left, name.infixDoc, right]
      if rest.isEmpty then head else (m.fillOnside head).parens :: rest
    else name.doc :: pats
  | _ => name.doc :: pats

mutual

def Expr.pretty (m : Mode) (level : Nat) : Expr → Checked Doc
  | .var name => return name.doc
  | .con name => return name.doc
  | .lit lit => return parensIf (3 ≤ level && lit.isNegative) lit.doc
  | .infixApp left op right => do
    let left ← left.pretty m 2
    let right ← right.pretty m 1
    return parensIf (3 ≤ level) (m.fillOnside [left, op.doc, right])
  | .app f arg => do
    let f ← f.pretty m 3
    let arg ← arg.pretty m 4
    return parensIf (4 ≤ level) (m.fillOnside [f, arg])
  | .neg e => do return parensIf (3 ≤ level) (char '-' ++ (← e.pretty m 3))
  | .lambda _ pats body =>
    if pats.isEmpty then .broken .lambdaWithoutPatterns
    else do
      let pats ← Pat.pretties m 2 pats
      let body ← body.pretty m 0
      return parensIf (2 ≤ level) (m.fillOnside (char '\\' :: pats ++ [text "->", body]))
  | .letIn decls body => do
    let decls ← Decl.pretties m decls
    let body ← body.pretty m 0
    return parensIf (2 ≤ level)
      (m.fillOnside [(text "let").appendSpace (m.block m.letIndent decls), text "in", body])
  | .ifThenElse cond yes no => do
    let cond ← cond.pretty m 0
    let yes ← yes.pretty m 0
    let no ← no.pretty m 0
    return parensIf (2 ≤ level) (m.fillOnside [text "if", cond, text "then", yes, text "else", no])
  | .caseOf scrutinee alts =>
    if alts.isEmpty then .broken .emptyCase
    else do
      let scrutinee ← scrutinee.pretty m 0
      let alts ← Alt.pretties m alts
      return parensIf (2 ≤ level)
        (m.aboveOrBeside (m.fillOnside [text "case", scrutinee, text "of"])
          (m.block m.caseIndent alts))
  | .doBlock stmts =>
    if stmts.isEmpty then .broken .emptyDo
    else do
      let stmts ← Stmt.pretties m stmts
      return parensIf (2 ≤ level) (m.aboveOrBeside (text "do") (m.block m.doIndent stmts))
  | .tuple elems =>
    if elems.length < 2 then .broken (.shortTuple .expression elems.length)
    else do return m.parenList (← Expr.pretties m elems)
  | .list elems => do return m.bracketList (punctuate comma (← Expr.pretties m elems))
  | .paren e => do return (← e.pretty m 0).parens
  | .leftSection e op => do return ((← e.pretty m 2).appendSpace op.doc).parens
  | .rightSection op e => do return (op.doc.appendSpace (← e.pretty m 1)).parens
  | .recConstr con fields => do return con.doc ++ m.braceList (← FieldUpdate.pretties m fields)
  | .recUpdate e fields => do
    let e ← e.pretty m 4
    return e ++ m.braceList (← FieldUpdate.pretties m fields)
  | .enumFrom start => do return m.bracketList [← start.pretty m 0, text ".."]
  | .enumFromTo start stop => do
    let start ← start.pretty m 0
    let stop ← stop.pretty m 0
    return m.bracketList [start, text "..", stop]
  | .enumFromThen start next => do
    let start ← start.pretty m 0
    let next ← next.pretty m 0
    return m.bracketList [start ++ comma, next, text ".."]
  | .enumFromThenTo start next stop => do
    let start ← start.pretty m 0
    let next ← next.pretty m 0
    let stop ← stop.pretty m 0
    return m.bracketList [start ++ comma, next, text "..", stop]
  | .listComp e quals =>
    if quals.isEmpty then .broken .emptyComprehension
    else do
      let e ← e.pretty m 0
      let quals ← Stmt.pretties m quals
      return m.bracketList (e :: char '|' :: punctuate comma quals)
  | .typed _ e ty => do
    let e ← e.pretty m 2
    let ty ← ty.pretty m
    return parensIf (1 ≤ level) (m.fillOnside [e, text "::", ty])
  -- without a space the two signs would be one operator
  | .asPat name (.irrefutable e) => do
    return m.fillOnside [name.doc ++ char '@', char '~' ++ (← e.pretty m 4)]
  | .asPat name e => do return name.doc ++ char '@' ++ (← e.pretty m 4)
  | .wildcard => return char '_'
  | .irrefutable e => do return char '~' ++ (← e.pretty m 4)

def Stmt.pretty (m : Mode) : Stmt → Checked Doc
  | .generator _ pat e => do
    let pat ← pat.pretty m 0
    let e ← e.pretty m 0
    return (pat.appendSpace (text "<-")).appendSpace e
  | .qualifier e => e.pretty m 0
  | .letStmt decls => do
    return m.aboveOrBeside (text "let") (m.block m.letIndent (← Decl.pretties m decls))

def FieldUpdate.pretty (m : Mode) : FieldUpdate → Checked Doc
  | .mk field e => do return m.fillOnside [field.doc, equals, ← e.pretty m 0]

def Alt.pretty (m : Mode) : Alt → Checked Doc
  | .mk _ pat alts wheres => do
    let pat ← pat.pretty m 0
    let alts ← alts.pretty m
    let wheres ← Decl.pretties m wheres
    return m.aboveOrBeside (m.fillOnside [pat, alts]) (m.whereClause wheres)

def GuardedAlts.pretty (m : Mode) : GuardedAlts → Checked Doc
  | .unguarded e => do return (text "->").appendSpace (← e.pretty m 0)
  | .guarded alts =>
    if alts.isEmpty then .broken .emptyGuardedAlts else
      do return m.lines (← GuardedAlt.pretties m alts)

def GuardedAlt.pretty (m : Mode) : GuardedAlt → Checked Doc
  | .mk _ guard e => do
    let guard ← guard.pretty m 0
    let e ← e.pretty m 0
    return m.fillOnside [char '|', guard, text "->", e]

def Decl.pretty (m : Mode) : Decl → Checked Doc
  | .typeDecl loc name vars ty => do
    let ty ← ty.pretty m 0
    return m.blankLine (m.markLine loc
      (m.sepFirst (text "type" :: name.doc :: vars.map Name.doc ++ [equals, ty])))
  | .dataDecl loc context name vars cons derivings => do
    let context ← Context.pretty m context
    let head := m.sepFirst (text "data" :: context :: name.doc :: vars.map Name.doc)
    let cons ← cons.mapM (ConDecl.pretty m)
    let body := m.aboveOrBeside (m.lines (alternatives cons)) (derivingDoc m derivings)
    return m.blankLine (m.markLine loc (head.appendSpace body))
  | .newtypeDecl loc context name vars con derivings => do
    let context ← Context.pretty m context
    let head := m.sepFirst (text "newtype" :: context :: name.doc :: vars.map Name.doc)
    let body := m.aboveOrBeside (← con.pretty m) (derivingDoc m derivings)
    return m.blankLine (m.markLine loc ((head.appendSpace equals).appendSpace body))
  | .infixDecl loc assoc prec ops =>
    if ops.isEmpty then .broken .emptyFixityDecl
    else return m.blankLine (m.markLine loc
      (m.sepFirst (assoc.doc :: Doc.int prec.toNat :: punctuate comma (ops.map Op.doc))))
  | .classDecl loc context name vars decls => do
    let context ← Context.pretty m context
    let decls ← Decl.pretties m decls
    return m.blankLine (m.markLine loc
      (classDoc m (text "class" :: context :: name.doc :: vars.map Name.doc) decls))
  | .instDecl loc context className types decls => do
    let types ← Ty.pretties m 2 types
    let context ← Context.pretty m context
    let decls ← Decl.pretties m decls
    return m.blankLine (m.markLine loc
      (classDoc m (text "instance" :: context :: className.doc :: types) decls))
  | .defaultDecl loc types => do
    let types ← Ty.pretties m 0 types
    return m.blankLine (m.markLine loc ((text "default").appendSpace (m.parenList types)))
  | .typeSig loc names ty =>
    if names.isEmpty then .broken .emptyTypeSignature
    else do
      let ty ← ty.pretty m
      return m.blankLine (m.markLine loc
        (m.sepFirst (punctuate comma (names.map Name.doc) ++ [text "::", ty])))
  | .foreignImport loc callConv safety entity name ty => do
    let ty ← ty.pretty m 0
    return m.blankLine (m.markLine loc (m.sepFirst
      [text "foreign", text "import", text callConv, safety.doc, entityDoc entity, name.doc,
        text "::", ty]))
  | .foreignExport loc callConv entity name ty => do
    let ty ← ty.pretty m 0
    return m.blankLine (m.markLine loc (m.sepFirst
      [text "foreign", text "export", text callConv, entityDoc entity, name.doc, text "::", ty]))
  | .funBind clauses =>
    if clauses.isEmpty then .broken .emptyFunBind else
      do return m.clauses (← Match.pretties m clauses)
  | .patBind loc pat rhs wheres => do
    let pat ← pat.pretty m 0
    let rhs ← rhs.pretty m
    let wheres ← Decl.pretties m wheres
    return m.markLine loc (m.aboveOrBeside (m.fillOnside [pat, rhs]) (m.whereClause wheres))

def Match.pretty (m : Mode) : Match → Checked Doc
  | .mk loc name pats rhs wheres => do
    let pats ← Pat.pretties m 2 pats
    let rhs ← rhs.pretty m
    let wheres ← Decl.pretties m wheres
    return m.markLine loc
      (m.aboveOrBeside (m.fillOnside (clauseHead m name pats ++ [rhs])) (m.whereClause wheres))

def Rhs.pretty (m : Mode) : Rhs → Checked Doc
  | .unguarded e => do return equals.appendSpace (← e.pretty m 0)
  | .guarded rhss =>
    if rhss.isEmpty then .broken .emptyGuardedRhss else
      do return m.lines (← GuardedRhs.pretties m rhss)

def GuardedRhs.pretty (m : Mode) : GuardedRhs → Checked Doc
  | .mk _ guard e => do
    let guard ← guard.pretty m 0
    let e ← e.pretty m 0
    return m.fillOnside [char '|', guard, equals, e]

def Expr.pretties (m : Mode) : List Expr → Checked (List Doc)
  | [] => return []
  | e :: es => do
    let d ← e.pretty m 0
    return d :: (← Expr.pretties m es)

def Stmt.pretties (m : Mode) : List Stmt → Checked (List Doc)
  | [] => return []
  | s :: ss => do
    let d ← s.pretty m
    return d :: (← Stmt.pretties m ss)

def FieldUpdate.pretties (m : Mode) : List FieldUpdate → Checked (List Doc)
  | [] => return []
  | f :: fs => do
    let d ← f.pretty m
    return d :: (← FieldUpdate.pretties m fs)

def Alt.pretties (m : Mode) : List Alt → Checked (List Doc)
  | [] => return []
  | a :: as => do
    let d ← a.pretty m
    return d :: (← Alt.pretties m as)

def GuardedAlt.pretties (m : Mode) : List GuardedAlt → Checked (List Doc)
  | [] => return []
  | a :: as => do
    let d ← a.pretty m
    return d :: (← GuardedAlt.pretties m as)

def Decl.pretties (m : Mode) : List Decl → Checked (List Doc)
  | [] => return []
  | d :: ds => do
    let d ← d.pretty m
    return d :: (← Decl.pretties m ds)

def Match.pretties (m : Mode) : List Match → Checked (List Doc)
  | [] => return []
  | c :: cs => do
    let d ← c.pretty m
    return d :: (← Match.pretties m cs)

def GuardedRhs.pretties (m : Mode) : List GuardedRhs → Checked (List Doc)
  | [] => return []
  | r :: rs => do
    let d ← r.pretty m
    return d :: (← GuardedRhs.pretties m rs)

end

end Offside.Syntax
