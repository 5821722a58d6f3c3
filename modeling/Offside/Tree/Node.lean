import Offside.Json.Equality
import Offside.Tree.Reader
import Offside.Tree.Writer

/-!
# Trees of any category
-/
namespace Offside.Syntax

/-- What a tree can be. -/
inductive Category where
  | module
  | exportSpec
  | importDecl
  | importSpecs
  | importSpec
  | decl
  | conDecl
  | fieldDecl
  | bangType
  | clause
  | rhs
  | guardedRhs
  | assoc
  | safety
  | ty
  | qualType
  | assertion
  | name
  | qname
  | moduleName
  | op
  | qop
  | cname
  | literal
  | pat
  | patField
  | expr
  | stmt
  | fieldUpdate
  | alt
  | guardedAlts
  | guardedAlt
deriving DecidableEq, Repr

/-- The category with this name. -/
def Category.ofName? : String → Option Category
  | "module" => some .module
  | "exportSpec" => some .exportSpec
  | "importDecl" => some .importDecl
  | "importSpecs" => some .importSpecs
  | "importSpec" => some .importSpec
  | "decl" => some .decl
  | "conDecl" => some .conDecl
  | "fieldDecl" => some .fieldDecl
  | "bangType" => some .bangType
  | "match" => some .clause
  | "rhs" => some .rhs
  | "guardedRhs" => some .guardedRhs
  | "assoc" => some .assoc
  | "safety" => some .safety
  | "type" => some .ty
  | "qualType" => some .qualType
  | "asst" => some .assertion
  | "name" => some .name
  | "qname" => some .qname
  | "moduleName" => some .moduleName
  | "op" => some .op
  | "qop" => some .qop
  | "cname" => some .cname
  | "literal" => some .literal
  | "pat" => some .pat
  | "patField" => some .patField
  | "expr" => some .expr
  | "stmt" => some .stmt
  | "fieldUpdate" => some .fieldUpdate
  | "alt" => some .alt
  | "guardedAlts" => some .guardedAlts
  | "guardedAlt" => some .guardedAlt
  | _ => none

/-- A syntax tree of any category. -/
inductive Node where
  | module (node : Module)
  | exportSpec (node : ExportSpec)
  | importDecl (node : ImportDecl)
  | importSpecs (node : ImportSpecs)
  | importSpec (node : ImportSpec)
  | decl (node : Decl)
  | conDecl (node : ConDecl)
  | fieldDecl (node : FieldDecl)
  | bangType (node : BangType)
  | clause (node : Match)
  | rhs (node : Rhs)
  | guardedRhs (node : GuardedRhs)
  | assoc (node : Assoc)
  | safety (node : Safety)
  | ty (node : Ty)
  | qualType (node : QualType)
  | assertion (node : Assertion)
  | name (node : Name)
  | qname (node : QName)
  | moduleName (node : ModuleName)
  | op (node : Op)
  | qop (node : QOp)
  | cname (node : CName)
  | literal (node : Literal)
  | pat (node : Pat)
  | patField (node : PatField)
  | expr (node : Expr)
  | stmt (node : Stmt)
  | fieldUpdate (node : FieldUpdate)
  | alt (node : Alt)
  | guardedAlts (node : GuardedAlts)
  | guardedAlt (node : GuardedAlt)

namespace Node

def category : Node → Category
  | .module _ => .module
  | .exportSpec _ => .exportSpec
  | .importDecl _ => .importDecl
  | .importSpecs _ => .importSpecs
  | .importSpec _ => .importSpec
  | .decl _ => .decl
  | .conDecl _ => .conDecl
  | .fieldDecl _ => .fieldDecl
  | .bangType _ => .bangType
  | .clause _ => .clause
  | .rhs _ => .rhs
  | .guardedRhs _ => .guardedRhs
  | .assoc _ => .assoc
  | .safety _ => .safety
  | .ty _ => .ty
  | .qualType _ => .qualType
  | .assertion _ => .assertion
  | .name _ => .name
  | .qname _ => .qname
  | .moduleName _ => .moduleName
  | .op _ => .op
  | .qop _ => .qop
  | .cname _ => .cname
  | .literal _ => .literal
  | .pat _ => .pat
  | .patField _ => .patField
  | .expr _ => .expr
  | .stmt _ => .stmt
  | .fieldUpdate _ => .fieldUpdate
  | .alt _ => .alt
  | .guardedAlts _ => .guardedAlts
  | .guardedAlt _ => .guardedAlt

def toJson : Node → Json
  | .module node => node.toJson
  | .exportSpec node => node.toJson
  | .importDecl node => node.toJson
  | .importSpecs node => node.toJson
  | .importSpec node => node.toJson
  | .decl node => node.toJson
  | .conDecl node => node.toJson
  | .fieldDecl node => node.toJson
  | .bangType node => node.toJson
  | .clause node => node.toJson
  | .rhs node => node.toJson
  | .guardedRhs node => node.toJson
  | .assoc node => node.toJson
  | .safety node => node.toJson
  | .ty node => node.toJson
  | .qualType node => node.toJson
  | .assertion node => node.toJson
  | .name node => node.toJson
  | .qname node => node.toJson
  | .moduleName node => node.toJson
  | .op node => node.toJson
  | .qop node => node.toJson
  | .cname node => node.toJson
  | .literal node => node.toJson
  | .pat node => node.toJson
  | .patField node => node.toJson
  | .expr node => node.toJson
  | .stmt node => node.toJson
  | .fieldUpdate node => node.toJson
  | .alt node => node.toJson
  | .guardedAlts node => node.toJson
  | .guardedAlt node => node.toJson

/-- Whether two trees are the same. The JSON form of a tree leaves nothing of it out. -/
def same (a b : Node) : Bool := a.category = b.category && a.toJson = b.toJson

/-- Reads a tree of a given category. -/
def read (L : Library) : Category → Read Node
  | .module => fun p j => .module <$> Module.read L p j
  | .exportSpec => fun p j => .exportSpec <$> ExportSpec.read L p j
  | .importDecl => fun p j => .importDecl <$> ImportDecl.read L p j
  | .importSpecs => fun p j => .importSpecs <$> ImportSpecs.read L p j
  | .importSpec => fun p j => .importSpec <$> ImportSpec.read L p j
  | .decl => fun p j => .decl <$> Decl.read L p j
  | .conDecl => fun p j => .conDecl <$> ConDecl.read L p j
  | .fieldDecl => fun p j => .fieldDecl <$> FieldDecl.read L p j
  | .bangType => fun p j => .bangType <$> BangType.read L p j
  | .clause => fun p j => .clause <$> Match.read L p j
  | .rhs => fun p j => .rhs <$> Rhs.read L p j
  | .guardedRhs => fun p j => .guardedRhs <$> GuardedRhs.read L p j
  | .assoc => fun p j => .assoc <$> Assoc.read L p j
  | .safety => fun p j => .safety <$> Safety.read L p j
  | .ty => fun p j => .ty <$> Ty.read L p j
  | .qualType => fun p j => .qualType <$> QualType.read L p j
  | .assertion => fun p j => .assertion <$> Assertion.read L p j
  | .name => fun p j => .name <$> Name.read L p j
  | .qname => fun p j => .qname <$> QName.read L p j
  | .moduleName => fun p j => .moduleName <$> ModuleName.read L p j
  | .op => fun p j => .op <$> Op.read L p j
  | .qop => fun p j => .qop <$> QOp.read L p j
  | .cname => fun p j => .cname <$> CName.read L p j
  | .literal => fun p j => .literal <$> Literal.read L p j
  | .pat => fun p j => .pat <$> Pat.read L p j
  | .patField => fun p j => .patField <$> PatField.read L p j
  | .expr => fun p j => .expr <$> Expr.read L p j
  | .stmt => fun p j => .stmt <$> Stmt.read L p j
  | .fieldUpdate => fun p j => .fieldUpdate <$> FieldUpdate.read L p j
  | .alt => fun p j => .alt <$> Alt.read L p j
  | .guardedAlts => fun p j => .guardedAlts <$> GuardedAlts.read L p j
  | .guardedAlt => fun p j => .guardedAlt <$> GuardedAlt.read L p j

end Node

end Offside.Syntax
