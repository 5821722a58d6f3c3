import Offside.Proofs.WellFormed

/-!
# The plan of a tree

What is printed for a tree is a plan that no mode changes: words, the trees below it at their
levels, and the arrangements that a mode then gives their form. A plan stops at the trees below, so
a statement about all documents of a mode is proved once for each arrangement and carried from the
trees below a tree to the tree.
-/
namespace Offside.Syntax

open Doc

/-- The arrangements of a list of parts. -/
inductive Row where
  | sepFirst
  | lines
  | fill
  | fillOnside

@[simp] def Row.doc (m : Mode) : Row → List Doc → Doc
  | .sepFirst => m.sepFirst
  | .lines => m.lines
  | .fill => m.fill
  | .fillOnside => m.fillOnside

/-- What is printed for a tree, down to the trees below it. -/
inductive Sketch where
  | nothing
  | word (s : String)
  | tree (t : Node) (level : Nat)
  | beside (left : Sketch) (spaced : Bool) (right : Sketch)
  /-- One above the other, or side by side where the mode does not stack. -/
  | upon (upper lower : Sketch)
  | row (arrangement : Row) (parts : List Sketch)
  | clauses (items : List Node)
  | block (indent : Mode → Nat) (items : List Node)
  | wheres (items : List Node)
  /-- A header that starts with a keyword, and the members below it. -/
  | topLevel (keyword : String) (header : List Sketch) (items : List Node)

namespace Sketch

/-- Induction on plans, with the parts of a row taken together. -/
@[elab_as_elim]
theorem inductOn {motive : Sketch → Prop} (nothing : motive .nothing) (word : ∀ s, motive (.word s))
    (tree : ∀ t level, motive (.tree t level))
    (beside : ∀ l spaced r, motive l → motive r → motive (.beside l spaced r))
    (upon : ∀ u l, motive u → motive l → motive (.upon u l))
    (row : ∀ arrangement parts, (∀ s ∈ parts, motive s) → motive (.row arrangement parts))
    (clauses : ∀ items, motive (.clauses items))
    (block : ∀ indent items, motive (.block indent items))
    (wheres : ∀ items, motive (.wheres items))
    (topLevel : ∀ keyword header items, (∀ s ∈ header, motive s) →
      motive (.topLevel keyword header items)) (s : Sketch) : motive s :=
  @Sketch.rec motive (fun parts => ∀ s ∈ parts, motive s)
    nothing word tree beside upon row clauses block wheres
    (fun keyword header items => topLevel keyword header items) (by simp)
    (fun _ _ hs hparts => List.forall_mem_cons.mpr ⟨hs, hparts⟩) s

mutual

/-- The document of a plan in a mode. -/
def doc (m : Mode) : Sketch → Doc
  | .nothing => .empty
  | .word s => .text s
  | .tree t level => (t.pretty m level).value
  | .beside l spaced r => (l.doc m).beside spaced (r.doc m)
  | .upon u l => m.aboveOrBeside (u.doc m) (l.doc m)
  | .row arrangement parts => arrangement.doc m (docs m parts)
  | .clauses items => m.clauses (items.map (Node.doc m))
  | .block indent items => m.block (indent m) (items.map (Node.doc m))
  | .wheres items => m.whereClause (items.map (Node.doc m))
  | .topLevel keyword header items =>
    m.topLevel (m.sepFirst (.text keyword :: docs m header)) (items.map (Node.doc m))

def docs (m : Mode) : List Sketch → List Doc
  | [] => []
  | s :: ss => s.doc m :: docs m ss

end

theorem docs_eq_map (m : Mode) (ss : List Sketch) : docs m ss = ss.map (doc m) := by
  induction ss with
  | nil => rfl
  | cons s ss ih => rw [docs, ih, List.map_cons]

abbrev sepFirst (parts : List Sketch) : Sketch := .row .sepFirst parts

abbrev lines (parts : List Sketch) : Sketch := .row .lines parts

abbrev fill (parts : List Sketch) : Sketch := .row .fill parts

abbrev fillOnside (parts : List Sketch) : Sketch := .row .fillOnside parts

def append (l r : Sketch) : Sketch := .beside l false r

instance : Append Sketch := ⟨append⟩

def appendSpace (l r : Sketch) : Sketch := .beside l true r

def parens (s : Sketch) : Sketch := word "(" ++ s ++ word ")"

def brackets (s : Sketch) : Sketch := word "[" ++ s ++ word "]"

def braces (s : Sketch) : Sketch := word "\x7b" ++ s ++ word "\x7d"

def parensIf (b : Bool) (s : Sketch) : Sketch := if b then s.parens else s

def backquoted (s : Sketch) : Sketch := word "\x60" ++ s ++ word "\x60"

/-- A comma after every part but the last. -/
def punctuate : List Sketch → List Sketch
  | [] => []
  | [s] => [s]
  | s :: ss => (s ++ word ",") :: punctuate ss

def parenList (ss : List Sketch) : Sketch := (fill (punctuate ss)).parens

def braceList (ss : List Sketch) : Sketch := (fill (punctuate ss)).braces

def bracketList (ss : List Sketch) : Sketch := (fill ss).brackets

section

variable (m : Mode)

@[simp] theorem doc_nothing : nothing.doc m = .empty := rfl

@[simp] theorem doc_word (s : String) : (word s).doc m = .text s := rfl

@[simp] theorem doc_tree (t : Node) (level : Nat) :
    (tree t level).doc m = (t.pretty m level).value := rfl

@[simp] theorem doc_upon (u l : Sketch) :
    (upon u l).doc m = m.aboveOrBeside (u.doc m) (l.doc m) := rfl

@[simp] theorem doc_clauses (items : List Node) :
    (clauses items).doc m = m.clauses (items.map (Node.doc m)) := rfl

@[simp] theorem doc_block (indent : Mode → Nat) (items : List Node) :
    (block indent items).doc m = m.block (indent m) (items.map (Node.doc m)) := rfl

@[simp] theorem doc_wheres (items : List Node) :
    (wheres items).doc m = m.whereClause (items.map (Node.doc m)) := rfl

@[simp] theorem doc_topLevel (keyword : String) (header : List Sketch) (items : List Node) :
    (topLevel keyword header items).doc m =
      m.topLevel (m.sepFirst (.text keyword :: header.map (doc m))) (items.map (Node.doc m)) := by
  rw [doc, docs_eq_map]

@[simp] theorem doc_row (arrangement : Row) (parts : List Sketch) :
    (row arrangement parts).doc m = arrangement.doc m (parts.map (doc m)) := by
  rw [doc, docs_eq_map]

@[simp] theorem doc_append (l r : Sketch) : (l ++ r).doc m = l.doc m ++ r.doc m := rfl

@[simp] theorem doc_appendSpace (l r : Sketch) :
    (l.appendSpace r).doc m = (l.doc m).appendSpace (r.doc m) := rfl

@[simp] theorem doc_parens (s : Sketch) : s.parens.doc m = (s.doc m).parens := rfl

@[simp] theorem doc_brackets (s : Sketch) : s.brackets.doc m = (s.doc m).brackets := rfl

@[simp] theorem doc_braces (s : Sketch) : s.braces.doc m = (s.doc m).braces := rfl

@[simp] theorem doc_backquoted (s : Sketch) :
    s.backquoted.doc m = Syntax.backquoted (s.doc m) := rfl

@[simp] theorem doc_parensIf (b : Bool) (s : Sketch) :
    (parensIf b s).doc m = Doc.parensIf b (s.doc m) := by
  cases b <;> rfl

@[simp] theorem map_doc_punctuate (ss : List Sketch) :
    (punctuate ss).map (doc m) = Doc.punctuate comma (ss.map (doc m)) := by
  fun_induction punctuate ss with
  | case1 => rfl
  | case2 s => rfl
  | case3 s ss hne ih =>
    cases ss with
    | nil => exact absurd rfl hne
    | cons t ss =>
      rw [List.map_cons, ih]
      rfl

@[simp] theorem doc_parenList (ss : List Sketch) :
    (parenList ss).doc m = m.parenList (ss.map (doc m)) := by
  simp [parenList, Mode.parenList]

@[simp] theorem doc_braceList (ss : List Sketch) :
    (braceList ss).doc m = m.braceList (ss.map (doc m)) := by
  simp [braceList, Mode.braceList]

@[simp] theorem doc_bracketList (ss : List Sketch) :
    (bracketList ss).doc m = m.bracketList (ss.map (doc m)) := by
  simp [bracketList, Mode.bracketList]

end

end Sketch

open Sketch

/-! ### The plans of the categories -/

def Name.bareSketch : Name → Sketch
  | .ident s | .symbol s => .word s
  | .special con => .word con.text

def Name.sketch (n : Name) : Sketch := parensIf n.isSymbolic n.bareSketch

def Name.infixSketch (n : Name) : Sketch :=
  if n.isSymbolic then n.bareSketch else n.bareSketch.backquoted

def QName.bareSketch (q : QName) : Sketch :=
  match q.qualifier, q.name with
  | some module, .special con =>
    if module = .prelude then .word con.text else word (module.text ++ ".") ++ word con.text
  | some module, n => word (module.text ++ ".") ++ n.bareSketch
  | none, n => n.bareSketch

def QName.sketch (q : QName) : Sketch := parensIf q.isSymbolic q.bareSketch

def QName.infixSketch (q : QName) : Sketch :=
  if q.isSymbolic then q.bareSketch else q.bareSketch.backquoted

def Literal.sketch : Literal → Sketch
  | .char c => .word (Text.charLiteral c)
  | .string s => .word (Text.stringLiteral s)
  | .int n => .word (Number.decimalText n.val)
  | .frac r => .word (Number.realText r.toDouble)
  | .charPrim c => word (Text.charLiteral c) ++ word "#"
  | .stringPrim s => word (Text.stringLiteral s) ++ word "#"
  | .intPrim n => word (Number.decimalText n.val) ++ word "#"
  | .floatPrim r => word (Number.realText (r.toDouble.convert : Number.Single)) ++ word "#"
  | .doublePrim r => word (Number.realText r.toDouble) ++ word "##"

def Ty.sketch (level : Nat) : Ty → Sketch
  | .tuple elems => parenList (elems.map fun t => .tree (.ty t) 0)
  | .fn source target =>
    parensIf (0 < level) (fillOnside [.tree (.ty source) 1, .word "->", .tree (.ty target) 0])
  | .app f arg =>
    if f.isListCon then (Sketch.tree (.ty arg) 0).brackets
    else parensIf (1 < level) (fillOnside [.tree (.ty f) 1, .tree (.ty arg) 2])
  | .var name => name.sketch
  | .con name => name.sketch

def Context.sketch (c : Context) : Sketch :=
  if c.isEmpty then .nothing else
    sepFirst [parenList (c.map fun a => .tree (.assertion a) 0), .word "=>"]

def BangType.sketch (level : Nat) : BangType → Sketch
  | .banged ty => word "!" ++ .tree (.ty ty) 2
  | .unbanged ty => .tree (.ty ty) level

def ConDecl.sketch : ConDecl → Sketch
  | .positional _ name args =>
    let applied := sepFirst (name.sketch :: args.map fun t => .tree (.bangType t) 2)
    match args with
    | [left, right] =>
      if name.isSymbolic then fillOnside [.tree (.bangType left) 1, name.infixSketch,
        .tree (.bangType right) 1]
      else applied
    | _ => applied
  | .record _ name fields => name.sketch ++ braceList (fields.map fun f => .tree (.fieldDecl f) 0)

def Pat.sketch (level : Nat) : Pat → Sketch
  | .var name => name.sketch
  | .lit l => parensIf (0 < level && l.isNegative) l.sketch
  | .neg pat => parensIf (0 < level) (word "-" ++ .tree (.pat pat) 2)
  | .infixApp left op right =>
    parensIf (0 < level) (fillOnside [.tree (.pat left) 1, op.infixSketch, .tree (.pat right) 1])
  | .app con args =>
    parensIf (1 < level && !args.isEmpty) (fillOnside (con.sketch :: args.map fun p =>
      .tree (.pat p) 2))
  | .tuple elems => parenList (elems.map fun p => .tree (.pat p) 0)
  | .list elems => bracketList (punctuate (elems.map fun p => .tree (.pat p) 0))
  | .paren pat => (Sketch.tree (.pat pat) 0).parens
  | .record con fields => con.sketch ++ braceList (fields.map fun f => .tree (.patField f) 0)
  | .asPat name (.irrefutable pat) =>
    fillOnside [name.sketch ++ word "@", .tree (.pat (.irrefutable pat)) 2]
  | .asPat name pat => name.sketch ++ word "@" ++ .tree (.pat pat) 2
  | .wildcard => .word "_"
  | .irrefutable pat => word "~" ++ .tree (.pat pat) 2

def PatField.sketch : PatField → Sketch
  | .mk field pat => fillOnside [field.sketch, .word "=", .tree (.pat pat) 0]

def Expr.sketch (level : Nat) : Expr → Sketch
  | .var name => name.sketch
  | .con name => name.sketch
  | .lit l => parensIf (3 ≤ level && l.isNegative) l.sketch
  | .infixApp left op right =>
    parensIf (3 ≤ level) (fillOnside [.tree (.expr left) 2, op.name.infixSketch,
      .tree (.expr right) 1])
  | .app f arg => parensIf (4 ≤ level) (fillOnside [.tree (.expr f) 3, .tree (.expr arg) 4])
  | .neg e => parensIf (3 ≤ level) (word "-" ++ .tree (.expr e) 3)
  | .lambda _ pats body =>
    parensIf (2 ≤ level)
      (fillOnside (.word "\\" :: (pats.map fun p => .tree (.pat p) 2) ++
        [.word "->", .tree (.expr body) 0]))
  | .letIn decls body =>
    parensIf (2 ≤ level)
      (fillOnside [(word "let").appendSpace (.block Mode.letIndent (decls.map .decl)), .word "in",
        .tree (.expr body) 0])
  | .ifThenElse cond yes no =>
    parensIf (2 ≤ level) (fillOnside [.word "if", .tree (.expr cond) 0, .word "then",
      .tree (.expr yes) 0, .word "else", .tree (.expr no) 0])
  | .caseOf scrutinee alts =>
    parensIf (2 ≤ level) (.upon (fillOnside [.word "case", .tree (.expr scrutinee) 0, .word "of"])
      (.block Mode.caseIndent (alts.map .alt)))
  | .doBlock stmts =>
    parensIf (2 ≤ level) (.upon (.word "do") (.block Mode.doIndent (stmts.map .stmt)))
  | .tuple elems => parenList (elems.map fun e => .tree (.expr e) 0)
  | .list elems => bracketList (punctuate (elems.map fun e => .tree (.expr e) 0))
  | .paren e => (Sketch.tree (.expr e) 0).parens
  | .leftSection e op => ((Sketch.tree (.expr e) 2).appendSpace op.name.infixSketch).parens
  | .rightSection op e => (op.name.infixSketch.appendSpace (.tree (.expr e) 1)).parens
  | .recConstr name fields =>
    name.sketch ++ braceList (fields.map fun f => .tree (.fieldUpdate f) 0)
  | .recUpdate e fields =>
    .tree (.expr e) 4 ++ braceList (fields.map fun f => .tree (.fieldUpdate f) 0)
  | .enumFrom start => bracketList [.tree (.expr start) 0, .word ".."]
  | .enumFromTo start stop => bracketList [.tree (.expr start) 0, .word "..", .tree (.expr stop) 0]
  | .enumFromThen start next =>
    bracketList [.tree (.expr start) 0 ++ word ",", .tree (.expr next) 0, .word ".."]
  | .enumFromThenTo start next stop =>
    bracketList [.tree (.expr start) 0 ++ word ",", .tree (.expr next) 0, .word "..",
      .tree (.expr stop) 0]
  | .listComp e quals =>
    bracketList (.tree (.expr e) 0 :: .word "|" :: punctuate (quals.map fun s => .tree (.stmt s) 0))
  | .typed _ e ty =>
    parensIf (1 ≤ level) (fillOnside [.tree (.expr e) 2, .word "::", .tree (.qualType ty) 0])
  | .asPat name (.irrefutable e) =>
    fillOnside [name.sketch ++ word "@", .tree (.expr (.irrefutable e)) 4]
  | .asPat name e => name.sketch ++ word "@" ++ .tree (.expr e) 4
  | .wildcard => .word "_"
  | .irrefutable e => word "~" ++ .tree (.expr e) 4

def Stmt.sketch : Stmt → Sketch
  | .generator _ pat e =>
    ((Sketch.tree (.pat pat) 0).appendSpace (.word "<-")).appendSpace (.tree (.expr e) 0)
  | .qualifier e => .tree (.expr e) 0
  | .letStmt decls => .upon (.word "let") (.block Mode.letIndent (decls.map .decl))

def FieldUpdate.sketch : FieldUpdate → Sketch
  | .mk field e => fillOnside [field.sketch, .word "=", .tree (.expr e) 0]

def Alt.sketch : Alt → Sketch
  | .mk _ pat alts decls =>
    .upon (fillOnside [.tree (.pat pat) 0, .tree (.guardedAlts alts) 0]) (.wheres (decls.map .decl))

def GuardedAlts.sketch : GuardedAlts → Sketch
  | .unguarded e => (word "->").appendSpace (.tree (.expr e) 0)
  | .guarded alts => lines (alts.map fun a => .tree (.guardedAlt a) 0)

def GuardedAlt.sketch : GuardedAlt → Sketch
  | .mk _ guard e => fillOnside [.word "|", .tree (.expr guard) 0, .word "->", .tree (.expr e) 0]

/-- The classes of which instances are derived. -/
def derivingSketch : List QName → Sketch
  | [] => .nothing
  | [q] => (word "deriving").appendSpace q.sketch
  | qs => (word "deriving").appendSpace (parenList (qs.map QName.sketch))

def entitySketch (entity : String) : Sketch :=
  if entity.isEmpty then .nothing else .word (Text.stringLiteral entity)

def Assoc.sketch : Assoc → Sketch
  | .neither => .word "infix"
  | .left => .word "infixl"
  | .right => .word "infixr"

def Safety.sketch : Safety → Sketch
  | .safe => .word "safe"
  | .unsafeCall => .word "unsafe"

def alternativeSketches : List Sketch → List Sketch
  | [] => []
  | s :: ss => (word "=").appendSpace s :: ss.map (word "|").appendSpace

def clauseHeadSketches (name : Name) (pats : List Sketch) : List Sketch :=
  match pats with
  | left :: right :: rest =>
    if name.isSymbolic then
      let head := [left, name.infixSketch, right]
      if rest.isEmpty then head else (fillOnside head).parens :: rest
    else name.sketch :: pats
  | _ => name.sketch :: pats

def classSketch (head : List Sketch) (decls : List Decl) : Sketch :=
  .upon (sepFirst (head ++ [.word "where"])) (.block Mode.classIndent (decls.map .decl))

def Decl.sketch : Decl → Sketch
  | .typeDecl _ name vars ty =>
    sepFirst (.word "type" :: name.sketch :: vars.map Name.sketch ++ [.word "=", .tree (.ty ty) 0])
  | .dataDecl _ context name vars cons derivings =>
    (sepFirst (.word "data" :: context.sketch :: name.sketch :: vars.map Name.sketch)).appendSpace
      (.upon (lines (alternativeSketches (cons.map fun c => .tree (.conDecl c) 0)))
        (derivingSketch derivings))
  | .newtypeDecl _ context name vars con derivings =>
    ((sepFirst (.word "newtype" :: context.sketch :: name.sketch ::
      vars.map Name.sketch)).appendSpace
      (.word "=")).appendSpace (.upon (.tree (.conDecl con) 0) (derivingSketch derivings))
  | .infixDecl _ assoc prec ops =>
    sepFirst (assoc.sketch :: .word (Number.decimalText prec.toNat) ::
      punctuate (ops.map fun o => o.name.infixSketch))
  | .classDecl _ context name vars decls =>
    classSketch (.word "class" :: context.sketch :: name.sketch :: vars.map Name.sketch) decls
  | .instDecl _ context className types decls =>
    classSketch (.word "instance" :: context.sketch :: className.sketch :: types.map fun t =>
      .tree (.ty t) 2) decls
  | .defaultDecl _ types =>
    (word "default").appendSpace (parenList (types.map fun t => .tree (.ty t) 0))
  | .typeSig _ names ty =>
    sepFirst (punctuate (names.map Name.sketch) ++ [.word "::", .tree (.qualType ty) 0])
  | .foreignImport _ callConv safety entity name ty =>
    sepFirst [.word "foreign", .word "import", .word callConv, safety.sketch,
      entitySketch entity, name.sketch, .word "::", .tree (.ty ty) 0]
  | .foreignExport _ callConv entity name ty =>
    sepFirst [.word "foreign", .word "export", .word callConv, entitySketch entity,
      name.sketch, .word "::", .tree (.ty ty) 0]
  | .funBind cs => .clauses (cs.map .clause)
  | .patBind _ pat rhs decls =>
    .upon (fillOnside [.tree (.pat pat) 0, .tree (.rhs rhs) 0]) (.wheres (decls.map .decl))

def Match.sketch : Match → Sketch
  | .mk _ name pats rhs decls =>
    .upon (fillOnside (clauseHeadSketches name (pats.map fun p => .tree (.pat p) 2) ++
      [.tree (.rhs rhs) 0]))
      (.wheres (decls.map .decl))

def Rhs.sketch : Rhs → Sketch
  | .unguarded e => (word "=").appendSpace (.tree (.expr e) 0)
  | .guarded rhss => lines (rhss.map fun r => .tree (.guardedRhs r) 0)

def GuardedRhs.sketch : GuardedRhs → Sketch
  | .mk _ guard e => fillOnside [.word "|", .tree (.expr guard) 0, .word "=", .tree (.expr e) 0]

def ExportSpec.sketch : ExportSpec → Sketch
  | .var name => name.sketch
  | .abs name => name.sketch
  | .thingAll name => name.sketch ++ word "(..)"
  | .thingWith name items => name.sketch ++ parenList (items.map fun i => i.name.sketch)
  | .moduleContents module => (word "module").appendSpace (.word module.text)

def ImportSpec.sketch : ImportSpec → Sketch
  | .var name => name.sketch
  | .abs name => name.sketch
  | .thingAll name => name.sketch ++ word "(..)"
  | .thingWith name items => name.sketch ++ parenList (items.map fun i => i.name.sketch)

def ImportSpecs.sketch (s : ImportSpecs) : Sketch :=
  let items := parenList (s.items.map fun i => .tree (.importSpec i) 0)
  if s.hides then (word "hiding").appendSpace items else items

def ImportDecl.sketch (i : ImportDecl) : Sketch :=
  sepFirst [.word "import", if i.qualified then .word "qualified" else .nothing,
    .word i.module.text, i.asName.elim .nothing fun a => (word "as").appendSpace (.word a.text),
    i.specs.elim .nothing fun s => .tree (.importSpecs s) 0]

/-- The first line of a module after its keyword. -/
def Module.headerSketches (mod : Module) : List Sketch :=
  [.word mod.name.text, mod.exports.elim .nothing fun specs =>
    parenList (specs.map fun s => .tree (.exportSpec s) 0),
    .word "where"]

namespace Node

/-- The plan of a tree at a level, without what its place and an empty line put before it. -/
def sketch (level : Nat) : Node → Sketch
  | .module mod =>
    .topLevel "module" mod.headerSketches (mod.imports.map .importDecl ++ mod.decls.map .decl)
  | .exportSpec node => node.sketch
  | .importDecl node => node.sketch
  | .importSpecs node => node.sketch
  | .importSpec node => node.sketch
  | .decl node => node.sketch
  | .conDecl node => node.sketch
  | .fieldDecl node =>
    fill (punctuate (node.names.map Name.sketch) ++ [.word "::", .tree (.bangType node.ty) 0])
  | .bangType node => node.sketch level
  | .clause node => node.sketch
  | .rhs node => node.sketch
  | .guardedRhs node => node.sketch
  | .assoc node => node.sketch
  | .safety node => node.sketch
  | .ty node => node.sketch level
  | .qualType node => fillOnside [node.context.sketch, .tree (.ty node.ty) 0]
  | .assertion node => fillOnside (node.className.sketch :: node.types.map fun t => .tree (.ty t) 2)
  | .name node => node.sketch
  | .qname node => node.sketch
  | .moduleName node => .word node.text
  | .op node => node.name.infixSketch
  | .qop node => node.name.infixSketch
  | .cname node => node.name.sketch
  | .literal node => node.sketch
  | .pat node => node.sketch level
  | .patField node => node.sketch
  | .expr node => node.sketch level
  | .stmt node => node.sketch
  | .fieldUpdate node => node.sketch
  | .alt node => node.sketch
  | .guardedAlts node => node.sketch
  | .guardedAlt node => node.sketch

/-- The place that a tree is marked with where the mode asks for it. -/
def mark? : Node → Option Location
  | .module mod => some mod.loc
  | .importDecl node => some node.loc
  | .decl (.funBind _) => none
  | .decl node => node.loc?
  | .clause node => some node.loc
  | _ => none

/-- Whether an empty line goes before a tree where the mode asks for it: before every declaration
that binds nothing. -/
def isSpaced : Node → Bool
  | .decl (.funBind _) => false
  | .decl (.patBind ..) => false
  | .decl _ => true
  | _ => false

end Node

/-- A document with what goes before it: an empty line and a place. -/
def Node.introduce (m : Mode) (t : Node) (d : Doc) : Doc :=
  let marked := t.mark?.elim d fun loc => m.markLine loc d
  if t.isSpaced then m.blankLine marked else marked

/-! ### The plan is what is printed -/

section

variable (m : Mode)

@[simp] theorem Name.doc_bareSketch (n : Name) : n.bareSketch.doc m = n.bare := by
  cases n <;> rfl

@[simp] theorem Name.doc_sketch (n : Name) : n.sketch.doc m = n.doc := by
  simp [sketch, doc]

@[simp] theorem Name.doc_infixSketch (n : Name) : n.infixSketch.doc m = n.infixDoc := by
  unfold infixSketch infixDoc
  by_cases hn : n.isSymbolic <;> simp [hn]

@[simp] theorem QName.doc_bareSketch (q : QName) : q.bareSketch.doc m = q.bare := by
  obtain ⟨qualifier, name⟩ := q
  cases qualifier with
  | none => cases name <;> rfl
  | some module =>
    cases name with
    | special con => by_cases hm : module = .prelude <;> simp [bareSketch, bare, hm, Name.bare]
    | _ => rfl

@[simp] theorem QName.doc_sketch (q : QName) : q.sketch.doc m = q.doc := by
  simp [sketch, doc]

@[simp] theorem QName.doc_infixSketch (q : QName) : q.infixSketch.doc m = q.infixDoc := by
  unfold infixSketch infixDoc
  by_cases hq : q.isSymbolic <;> simp [hq]

@[simp] theorem Literal.doc_sketch (l : Literal) : l.sketch.doc m = l.doc := by
  cases l <;> rfl

@[simp] theorem Context.doc_sketch (c : Context) : c.sketch.doc m = (Context.pretty m c).value := by
  cases c with
  | nil => rfl
  | cons a c => simp [sketch, Context.pretty, Checked.value_mapM, Node.pretty, Function.comp_def]

@[simp] theorem doc_derivingSketch (qs : List QName) :
    (derivingSketch qs).doc m = derivingDoc m qs := by
  match qs with
  | [] => rfl
  | [q] => simp [derivingSketch, derivingDoc]
  | _ :: _ :: _ => simp [derivingSketch, derivingDoc, Function.comp_def]

@[simp] theorem doc_entitySketch (entity : String) :
    (entitySketch entity).doc m = entityDoc entity := by
  unfold entitySketch entityDoc
  by_cases h : entity.isEmpty <;> simp [h]

@[simp] theorem Assoc.doc_sketch (a : Assoc) : a.sketch.doc m = a.doc := by
  cases a <;> rfl

@[simp] theorem Safety.doc_sketch (s : Safety) : s.sketch.doc m = s.doc := by
  cases s <;> rfl

@[simp] theorem map_doc_alternativeSketches (ss : List Sketch) :
    (alternativeSketches ss).map (Sketch.doc m) = alternatives (ss.map (Sketch.doc m)) := by
  cases ss with
  | nil => rfl
  | cons s ss => simp [alternativeSketches, alternatives, equals, char]

@[simp] theorem map_doc_clauseHeadSketches (name : Name) (ss : List Sketch) :
    (clauseHeadSketches name ss).map (Sketch.doc m) =
      clauseHead m name (ss.map (Sketch.doc m)) := by
  match ss with
  | [] => simp [clauseHeadSketches, clauseHead]
  | [_] => simp [clauseHeadSketches, clauseHead]
  | [_, _] => by_cases hn : name.isSymbolic <;> simp [clauseHeadSketches, clauseHead, hn]
  | _ :: _ :: _ :: _ => by_cases hn : name.isSymbolic <;> simp [clauseHeadSketches, clauseHead, hn]

theorem Checked.value_guard {p : Prop} [Decidable p] {fault : Fault} {x : Checked Doc}
    (h : (if p then some fault else none) = none) :
    (if p then Checked.broken fault else x).value = x.value := by
  by_cases hp : p
  · simp [hp] at h
  · rw [if_neg hp]

theorem Ty.value_pretty {t : Ty} (ht : (Node.ty t).lack? = none) (level : Nat) :
    (t.pretty m level).value = (t.sketch level).doc m := by
  cases t with
  | tuple elems =>
    rw [Ty.pretty, Checked.value_guard ht, pretties_eq]
    simp [sketch, Checked.value_mapM, Node.pretty, Function.comp_def]
  | app f arg => by_cases hf : f.isListCon <;> simp [Ty.pretty, sketch, Node.pretty, hf]
  | fn | var | con => simp [Ty.pretty, sketch, Node.pretty]

theorem ConDecl.value_pretty (c : ConDecl) : (c.pretty m).value = c.sketch.doc m := by
  cases c with
  | positional loc name args =>
    match args with
    | [] | [_] | _ :: _ :: _ :: _ =>
      simp [ConDecl.pretty, sketch, Node.pretty, Checked.value_mapM, Function.comp_def]
    | [_, _] => by_cases hn : name.isSymbolic <;> simp [ConDecl.pretty, sketch, Node.pretty, hn]
  | record loc name fields =>
    simp [ConDecl.pretty, sketch, Node.pretty, Checked.value_mapM, Function.comp_def]

theorem Pat.value_pretty {p : Pat} (hp : (Node.pat p).lack? = none) (level : Nat) :
    (p.pretty m level).value = (p.sketch level).doc m := by
  cases p with
  | tuple elems =>
    rw [Pat.pretty, Checked.value_guard hp, pretties_eq]
    simp [sketch, Checked.value_mapM, Node.pretty, Function.comp_def]
  | asPat name p => cases p <;> simp [Pat.pretty, sketch, Node.pretty, char]
  | _ =>
    simp [Pat.pretty, sketch, Node.pretty, Pat.pretties_eq, PatField.pretties_eq,
      Checked.value_mapM, char, Function.comp_def]

theorem Expr.value_pretty {e : Expr} (he : (Node.expr e).lack? = none) (level : Nat) :
    (e.pretty m level).value = (e.sketch level).doc m := by
  cases e with
  | tuple elems =>
    rw [Expr.pretty, Checked.value_guard he, pretties_eq]
    simp [sketch, Checked.value_mapM, Node.pretty, Function.comp_def]
  | lambda loc pats body =>
    rw [Expr.pretty, Checked.value_guard he, Pat.pretties_eq]
    simp [sketch, Checked.value_mapM, Node.pretty, char, Function.comp_def]
  | caseOf scrutinee alts =>
    rw [Expr.pretty, Checked.value_guard he, Alt.pretties_eq]
    simp [sketch, Checked.value_mapM, Node.doc, Node.pretty, Function.comp_def]
  | doBlock stmts =>
    rw [Expr.pretty, Checked.value_guard he, Stmt.pretties_eq]
    simp [sketch, Checked.value_mapM, Node.doc, Node.pretty, Function.comp_def]
  | listComp e quals =>
    rw [Expr.pretty, Checked.value_guard he, Stmt.pretties_eq]
    simp [sketch, Checked.value_mapM, Node.pretty, char, Function.comp_def]
  | asPat name e => cases e <;> simp [Expr.pretty, sketch, Node.pretty, char]
  | _ =>
    simp [Expr.pretty, sketch, Node.pretty, Node.doc, QOp.doc, Expr.pretties_eq,
      FieldUpdate.pretties_eq, Decl.pretties_eq, Checked.value_mapM, char, comma, Function.comp_def]

theorem Decl.value_pretty {d : Decl} (hd : (Node.decl d).lack? = none) :
    (d.pretty m).value = (Node.decl d).introduce m (d.sketch.doc m) := by
  cases d with
  | infixDecl loc assoc prec ops =>
    have hop : Op.doc = fun o => o.name.infixDoc := rfl
    rw [Decl.pretty, Checked.value_guard hd]
    simp [sketch, Node.introduce, Node.mark?, Node.isSpaced, loc?, hop, Doc.int, Function.comp_def]
  | typeSig loc names ty =>
    rw [Decl.pretty, Checked.value_guard hd]
    simp [sketch, Node.introduce, Node.mark?, Node.isSpaced, loc?, Node.pretty, Function.comp_def]
  | funBind clauses =>
    rw [Decl.pretty, Checked.value_guard hd, Match.pretties_eq]
    simp [sketch, Node.introduce, Node.mark?, Node.isSpaced, Node.doc, Node.pretty,
      Checked.value_mapM, Function.comp_def]
  | _ =>
    simp [Decl.pretty, sketch, classSketch, classDoc, Node.introduce, Node.mark?, Node.isSpaced,
      loc?, Node.doc, Node.pretty, equals, Ty.pretties_eq, Decl.pretties_eq, Checked.value_mapM,
      Function.comp_def]

/-- Unless a tree lacks something itself, its document is its plan's, with what goes before it. -/
theorem Node.value_pretty {t : Node} (ht : t.lack? = none) (level : Nat) :
    (t.pretty m level).value = t.introduce m ((t.sketch level).doc m) := by
  cases t with
  | ty node => exact node.value_pretty m ht level
  | conDecl node => exact node.value_pretty m
  | pat node => exact node.value_pretty m ht level
  | expr node => exact node.value_pretty m ht level
  | decl node => exact node.value_pretty m ht
  | guardedAlts node =>
    cases node with
    | unguarded e =>
      simp [Node.pretty, GuardedAlts.pretty, introduce, mark?, isSpaced, Node.sketch,
        GuardedAlts.sketch]
    | guarded alts =>
      rw [Node.pretty, GuardedAlts.pretty, Checked.value_guard ht, GuardedAlt.pretties_eq]
      simp [introduce, mark?, isSpaced, Node.sketch, GuardedAlts.sketch,
        Checked.value_mapM, Node.pretty, Function.comp_def]
  | rhs node =>
    cases node with
    | unguarded e =>
      simp [Node.pretty, Rhs.pretty, introduce, mark?, isSpaced, Node.sketch, Rhs.sketch, equals]
    | guarded rhss =>
      rw [Node.pretty, Rhs.pretty, Checked.value_guard ht, GuardedRhs.pretties_eq]
      simp [introduce, mark?, isSpaced, Node.sketch, Rhs.sketch, Checked.value_mapM, Node.pretty,
        Function.comp_def]
  | bangType node =>
    cases node <;> simp [Node.pretty, BangType.pretty, introduce, mark?, isSpaced, Node.sketch,
      BangType.sketch, char]
  | exportSpec node =>
    have hitem : CName.doc = fun c => c.name.doc := rfl
    cases node <;>
      simp [Node.pretty, ExportSpec.doc, introduce, mark?, isSpaced, Node.sketch, ExportSpec.sketch,
        ModuleName.doc, hitem, Function.comp_def]
  | importSpec node =>
    have hitem : CName.doc = fun c => c.name.doc := rfl
    cases node <;>
      simp [Node.pretty, ImportSpec.doc, introduce, mark?, isSpaced, Node.sketch,
        ImportSpec.sketch, hitem, Function.comp_def]
  | importSpecs node =>
    obtain ⟨hides, items⟩ := node
    cases hides <;>
      simp [Node.pretty, ImportSpecs.doc, introduce, mark?, isSpaced, Node.sketch,
        ImportSpecs.sketch, Function.comp_def]
  | importDecl node =>
    obtain ⟨loc, module, qualified, asName, specs⟩ := node
    cases qualified <;> cases asName <;> cases specs <;>
      simp [Node.pretty, ImportDecl.doc, introduce, mark?, isSpaced, Node.sketch, ImportDecl.sketch,
        ModuleName.doc]
  | module node =>
    obtain ⟨loc, name, exports, imports, decls⟩ := node
    cases exports <;>
      simp [Node.pretty, Module.pretty, Module.header, introduce, mark?, isSpaced, Node.sketch,
        Module.headerSketches, ModuleName.doc, Node.doc, Decl.pretties_eq, Checked.value_mapM,
        Function.comp_def]
  | stmt node =>
    cases node <;>
      simp [Node.pretty, Stmt.pretty, introduce, mark?, isSpaced, Node.sketch,
        Stmt.sketch, Node.doc, Decl.pretties_eq, Checked.value_mapM, Function.comp_def]
  | clause node | alt node | guardedAlt node | guardedRhs node | patField node | fieldUpdate node
  | fieldDecl node | assertion node | qualType node =>
    cases node
    simp [Node.pretty, Match.pretty, Alt.pretty, GuardedAlt.pretty, GuardedRhs.pretty,
      PatField.pretty, FieldUpdate.pretty, FieldDecl.pretty, Assertion.pretty, QualType.pretty,
      introduce, mark?, isSpaced, Node.sketch, Match.sketch, Alt.sketch, GuardedAlt.sketch,
      GuardedRhs.sketch, PatField.sketch, FieldUpdate.sketch, Match.loc, Node.doc, char, equals,
      Pat.pretties_eq, Decl.pretties_eq, Ty.pretties_eq, Checked.value_mapM, Function.comp_def]
  | assoc | safety | name | qname | moduleName | op | qop | cname | literal =>
    simp [Node.pretty, introduce, mark?, isSpaced, Node.sketch, ModuleName.doc, Op.doc,
      QOp.doc, CName.doc]

end

end Offside.Syntax
