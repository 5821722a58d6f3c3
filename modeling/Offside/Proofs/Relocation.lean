import Offside.Proofs.Subtrees

/-!
# Trees that differ in their places

A relocation gives new places to the nodes of a tree and changes nothing else. Modules, imports,
declarations and clauses have places that a pragma can name; those of lambdas, statements,
alternatives, guards, constructors and annotated expressions are never printed. So two trees that a
relocation makes equal are printed alike, if no pragma shows what the relocation changes.
-/
namespace Offside.Syntax

/-- New places for the nodes that a pragma can mark and for those that it cannot. -/
structure Relocation where
  marked : Location → Location
  unmarked : Location → Location

namespace Relocation

/-- No place is known. -/
def forget : Relocation := ⟨fun _ => .unknown, fun _ => .unknown⟩

/-- The file and the line of every place that a pragma can name. -/
def keepLines : Relocation := ⟨fun loc => { loc with column := 0 }, fun _ => .unknown⟩

end Relocation

def ConDecl.relocate (r : Relocation) : ConDecl → ConDecl
  | .positional loc name args => .positional (r.unmarked loc) name args
  | .record loc name fields => .record (r.unmarked loc) name fields

mutual

def Expr.relocate (r : Relocation) : Expr → Expr
  | .var name => .var name
  | .con name => .con name
  | .lit lit => .lit lit
  | .infixApp left op right => .infixApp (left.relocate r) op (right.relocate r)
  | .app f arg => .app (f.relocate r) (arg.relocate r)
  | .neg e => .neg (e.relocate r)
  | .lambda loc pats body => .lambda (r.unmarked loc) pats (body.relocate r)
  | .letIn decls body => .letIn (Decl.relocates r decls) (body.relocate r)
  | .ifThenElse cond yes no => .ifThenElse (cond.relocate r) (yes.relocate r) (no.relocate r)
  | .caseOf scrutinee alts => .caseOf (scrutinee.relocate r) (Alt.relocates r alts)
  | .doBlock stmts => .doBlock (Stmt.relocates r stmts)
  | .tuple elems => .tuple (Expr.relocates r elems)
  | .list elems => .list (Expr.relocates r elems)
  | .paren e => .paren (e.relocate r)
  | .leftSection e op => .leftSection (e.relocate r) op
  | .rightSection op e => .rightSection op (e.relocate r)
  | .recConstr con fields => .recConstr con (FieldUpdate.relocates r fields)
  | .recUpdate e fields => .recUpdate (e.relocate r) (FieldUpdate.relocates r fields)
  | .enumFrom start => .enumFrom (start.relocate r)
  | .enumFromTo start stop => .enumFromTo (start.relocate r) (stop.relocate r)
  | .enumFromThen start next => .enumFromThen (start.relocate r) (next.relocate r)
  | .enumFromThenTo start next stop =>
    .enumFromThenTo (start.relocate r) (next.relocate r) (stop.relocate r)
  | .listComp e quals => .listComp (e.relocate r) (Stmt.relocates r quals)
  | .typed loc e ty => .typed (r.unmarked loc) (e.relocate r) ty
  | .asPat name e => .asPat name (e.relocate r)
  | .wildcard => .wildcard
  | .irrefutable e => .irrefutable (e.relocate r)

def Stmt.relocate (r : Relocation) : Stmt → Stmt
  | .generator loc pat e => .generator (r.unmarked loc) pat (e.relocate r)
  | .qualifier e => .qualifier (e.relocate r)
  | .letStmt decls => .letStmt (Decl.relocates r decls)

def FieldUpdate.relocate (r : Relocation) : FieldUpdate → FieldUpdate
  | .mk field e => .mk field (e.relocate r)

def Alt.relocate (r : Relocation) : Alt → Alt
  | .mk loc pat alts wheres => .mk (r.unmarked loc) pat (alts.relocate r) (Decl.relocates r wheres)

def GuardedAlts.relocate (r : Relocation) : GuardedAlts → GuardedAlts
  | .unguarded e => .unguarded (e.relocate r)
  | .guarded alts => .guarded (GuardedAlt.relocates r alts)

def GuardedAlt.relocate (r : Relocation) : GuardedAlt → GuardedAlt
  | .mk loc guard e => .mk (r.unmarked loc) (guard.relocate r) (e.relocate r)

def Decl.relocate (r : Relocation) : Decl → Decl
  | .typeDecl loc name vars ty => .typeDecl (r.marked loc) name vars ty
  | .dataDecl loc context name vars cons derivings =>
    .dataDecl (r.marked loc) context name vars (cons.map (ConDecl.relocate r)) derivings
  | .newtypeDecl loc context name vars con derivings =>
    .newtypeDecl (r.marked loc) context name vars (con.relocate r) derivings
  | .infixDecl loc assoc prec ops => .infixDecl (r.marked loc) assoc prec ops
  | .classDecl loc context name vars decls =>
    .classDecl (r.marked loc) context name vars (Decl.relocates r decls)
  | .instDecl loc context className types decls =>
    .instDecl (r.marked loc) context className types (Decl.relocates r decls)
  | .defaultDecl loc types => .defaultDecl (r.marked loc) types
  | .typeSig loc names ty => .typeSig (r.marked loc) names ty
  | .foreignImport loc callConv safety entity name ty =>
    .foreignImport (r.marked loc) callConv safety entity name ty
  | .foreignExport loc callConv entity name ty =>
    .foreignExport (r.marked loc) callConv entity name ty
  | .funBind clauses => .funBind (Match.relocates r clauses)
  | .patBind loc pat rhs wheres =>
    .patBind (r.marked loc) pat (rhs.relocate r) (Decl.relocates r wheres)

def Match.relocate (r : Relocation) : Match → Match
  | .mk loc name pats rhs wheres =>
    .mk (r.marked loc) name pats (rhs.relocate r) (Decl.relocates r wheres)

def Rhs.relocate (r : Relocation) : Rhs → Rhs
  | .unguarded e => .unguarded (e.relocate r)
  | .guarded rhss => .guarded (GuardedRhs.relocates r rhss)

def GuardedRhs.relocate (r : Relocation) : GuardedRhs → GuardedRhs
  | .mk loc guard e => .mk (r.unmarked loc) (guard.relocate r) (e.relocate r)

def Expr.relocates (r : Relocation) : List Expr → List Expr
  | [] => []
  | e :: es => e.relocate r :: Expr.relocates r es

def Stmt.relocates (r : Relocation) : List Stmt → List Stmt
  | [] => []
  | s :: ss => s.relocate r :: Stmt.relocates r ss

def FieldUpdate.relocates (r : Relocation) : List FieldUpdate → List FieldUpdate
  | [] => []
  | f :: fs => f.relocate r :: FieldUpdate.relocates r fs

def Alt.relocates (r : Relocation) : List Alt → List Alt
  | [] => []
  | a :: as => a.relocate r :: Alt.relocates r as

def GuardedAlt.relocates (r : Relocation) : List GuardedAlt → List GuardedAlt
  | [] => []
  | a :: as => a.relocate r :: GuardedAlt.relocates r as

def Decl.relocates (r : Relocation) : List Decl → List Decl
  | [] => []
  | d :: ds => d.relocate r :: Decl.relocates r ds

def Match.relocates (r : Relocation) : List Match → List Match
  | [] => []
  | c :: cs => c.relocate r :: Match.relocates r cs

def GuardedRhs.relocates (r : Relocation) : List GuardedRhs → List GuardedRhs
  | [] => []
  | g :: gs => g.relocate r :: GuardedRhs.relocates r gs

end

def ImportDecl.relocate (r : Relocation) (i : ImportDecl) : ImportDecl :=
  { i with loc := r.marked i.loc }

def Module.relocate (r : Relocation) (mod : Module) : Module :=
  { mod with
    loc := r.marked mod.loc
    imports := mod.imports.map (ImportDecl.relocate r)
    decls := Decl.relocates r mod.decls }

/-- The tree with new places; names, types and patterns have none. -/
def Node.relocate (r : Relocation) : Node → Node
  | .module node => .module (node.relocate r)
  | .importDecl node => .importDecl (node.relocate r)
  | .decl node => .decl (node.relocate r)
  | .conDecl node => .conDecl (node.relocate r)
  | .clause node => .clause (node.relocate r)
  | .rhs node => .rhs (node.relocate r)
  | .guardedRhs node => .guardedRhs (node.relocate r)
  | .expr node => .expr (node.relocate r)
  | .stmt node => .stmt (node.relocate r)
  | .fieldUpdate node => .fieldUpdate (node.relocate r)
  | .alt node => .alt (node.relocate r)
  | .guardedAlts node => .guardedAlts (node.relocate r)
  | .guardedAlt node => .guardedAlt (node.relocate r)
  | t => t

def Expr.isIrrefutable : Expr → Bool
  | .irrefutable _ => true
  | _ => false

/-! ### Places and pragmas -/

/-- The relocation changes nothing that a pragma shows. -/
def Relocation.Silent (r : Relocation) (m : Mode) : Prop :=
  ∀ loc d, m.markLine (r.marked loc) d = m.markLine loc d

theorem Relocation.forget_silent {m : Mode} (hm : m.linePragmas = false) : forget.Silent m := by
  intro loc d
  simp [Mode.markLine, hm]

theorem Relocation.keepLines_silent (m : Mode) : keepLines.Silent m := fun _ _ => rfl

section

variable (m : Mode) (r : Relocation)

theorem ConDecl.pretty_relocate (c : ConDecl) : (c.relocate r).pretty m = c.pretty m := by
  cases c <;> rfl

theorem ConDecl.mapM_pretty_relocate (cs : List ConDecl) :
    (cs.map (ConDecl.relocate r)).mapM (ConDecl.pretty m) = cs.mapM (ConDecl.pretty m) := by
  rw [List.mapM_map]
  congr 1
  funext c
  exact c.pretty_relocate m r

/-- What gives new places to the members of a list one by one. -/
theorem eq_map_of_cons {α : Type} {f : α → α} {g : List α → List α} (hnil : g [] = [])
    (hcons : ∀ x xs, g (x :: xs) = f x :: g xs) (xs : List α) : g xs = xs.map f := by
  induction xs with
  | nil => exact hnil
  | cons x xs ih => rw [hcons, ih, List.map_cons]

/-- The sign of an irrefutable expression stands apart from that of a name for it. -/
theorem Expr.pretty_asPat_ite (level : Nat) (name : Name) (e : Expr) :
    (Expr.asPat name e).pretty m level = do
      let d ← e.pretty m 4
      return if e.isIrrefutable then m.fillOnside [name.doc ++ Doc.char '@', d] else
        name.doc ++ Doc.char '@' ++ d := by
  cases e <;> simp [Expr.pretty, Expr.isIrrefutable]

theorem Expr.isIrrefutable_relocate (e : Expr) :
    (e.relocate r).isIrrefutable = e.isIrrefutable := by
  cases e <;> rfl

end

section

variable {m : Mode} {r : Relocation}

mutual

theorem Expr.pretty_relocate (h : r.Silent m) :
    ∀ (e : Expr) (level : Nat), (e.relocate r).pretty m level = e.pretty m level
  | .var _, _ => rfl
  | .con _, _ => rfl
  | .lit _, _ => rfl
  | .infixApp left op right, level => by
    rw [Expr.relocate, Expr.pretty, Expr.pretty, Expr.pretty_relocate h left,
      Expr.pretty_relocate h right]
  | .app f arg, level => by
    rw [Expr.relocate, Expr.pretty, Expr.pretty, Expr.pretty_relocate h f,
      Expr.pretty_relocate h arg]
  | .neg e, level => by rw [Expr.relocate, Expr.pretty, Expr.pretty, Expr.pretty_relocate h e]
  | .lambda loc pats body, level => by
    rw [Expr.relocate, Expr.pretty, Expr.pretty, Expr.pretty_relocate h body]
  | .letIn decls body, level => by
    rw [Expr.relocate, Expr.pretty, Expr.pretty, Decl.pretties_relocates h decls,
      Expr.pretty_relocate h body]
  | .ifThenElse cond yes no, level => by
    rw [Expr.relocate, Expr.pretty, Expr.pretty, Expr.pretty_relocate h cond,
      Expr.pretty_relocate h yes, Expr.pretty_relocate h no]
  | .caseOf scrutinee alts, level => by
    rw [Expr.relocate, Expr.pretty, Expr.pretty, Expr.pretty_relocate h scrutinee,
      Alt.pretties_relocates h alts, eq_map_of_cons (g := Alt.relocates r) rfl fun _ _ => rfl,
      List.isEmpty_map]
  | .doBlock stmts, level => by
    rw [Expr.relocate, Expr.pretty, Expr.pretty, Stmt.pretties_relocates h stmts,
      eq_map_of_cons (g := Stmt.relocates r) rfl fun _ _ => rfl, List.isEmpty_map]
  | .tuple elems, level => by
    rw [Expr.relocate, Expr.pretty, Expr.pretty, Expr.pretties_relocates h elems,
      eq_map_of_cons (g := Expr.relocates r) rfl fun _ _ => rfl, List.length_map]
  | .list elems, level => by
    rw [Expr.relocate, Expr.pretty, Expr.pretty, Expr.pretties_relocates h elems]
  | .paren e, level => by rw [Expr.relocate, Expr.pretty, Expr.pretty, Expr.pretty_relocate h e]
  | .leftSection e op, level => by
    rw [Expr.relocate, Expr.pretty, Expr.pretty, Expr.pretty_relocate h e]
  | .rightSection op e, level => by
    rw [Expr.relocate, Expr.pretty, Expr.pretty, Expr.pretty_relocate h e]
  | .recConstr con fields, level => by
    rw [Expr.relocate, Expr.pretty, Expr.pretty, FieldUpdate.pretties_relocates h fields]
  | .recUpdate e fields, level => by
    rw [Expr.relocate, Expr.pretty, Expr.pretty, Expr.pretty_relocate h e,
      FieldUpdate.pretties_relocates h fields]
  | .enumFrom start, level => by
    rw [Expr.relocate, Expr.pretty, Expr.pretty, Expr.pretty_relocate h start]
  | .enumFromTo start stop, level => by
    rw [Expr.relocate, Expr.pretty, Expr.pretty, Expr.pretty_relocate h start,
      Expr.pretty_relocate h stop]
  | .enumFromThen start next, level => by
    rw [Expr.relocate, Expr.pretty, Expr.pretty, Expr.pretty_relocate h start,
      Expr.pretty_relocate h next]
  | .enumFromThenTo start next stop, level => by
    rw [Expr.relocate, Expr.pretty, Expr.pretty, Expr.pretty_relocate h start,
      Expr.pretty_relocate h next, Expr.pretty_relocate h stop]
  | .listComp e quals, level => by
    rw [Expr.relocate, Expr.pretty, Expr.pretty, Expr.pretty_relocate h e,
      Stmt.pretties_relocates h quals, eq_map_of_cons (g := Stmt.relocates r) rfl fun _ _ => rfl,
      List.isEmpty_map]
  | .typed loc e ty, level => by
    rw [Expr.relocate, Expr.pretty, Expr.pretty, Expr.pretty_relocate h e]
  | .asPat name e, level => by
    rw [Expr.relocate, Expr.pretty_asPat_ite, Expr.pretty_asPat_ite, Expr.isIrrefutable_relocate,
      Expr.pretty_relocate h e]
  | .wildcard, _ => rfl
  | .irrefutable e, level => by
    rw [Expr.relocate, Expr.pretty, Expr.pretty, Expr.pretty_relocate h e]

theorem Stmt.pretty_relocate (h : r.Silent m) : ∀ s : Stmt, (s.relocate r).pretty m = s.pretty m
  | .generator loc pat e => by
    rw [Stmt.relocate, Stmt.pretty, Stmt.pretty, Expr.pretty_relocate h e]
  | .qualifier e => by rw [Stmt.relocate, Stmt.pretty, Stmt.pretty, Expr.pretty_relocate h e]
  | .letStmt decls => by
    rw [Stmt.relocate, Stmt.pretty, Stmt.pretty, Decl.pretties_relocates h decls]

theorem FieldUpdate.pretty_relocate (h : r.Silent m) :
    ∀ f : FieldUpdate, (f.relocate r).pretty m = f.pretty m
  | .mk field e => by
    rw [FieldUpdate.relocate, FieldUpdate.pretty, FieldUpdate.pretty, Expr.pretty_relocate h e]

theorem Alt.pretty_relocate (h : r.Silent m) : ∀ a : Alt, (a.relocate r).pretty m = a.pretty m
  | .mk loc pat alts wheres => by
    rw [Alt.relocate, Alt.pretty, Alt.pretty, GuardedAlts.pretty_relocate h alts,
      Decl.pretties_relocates h wheres]

theorem GuardedAlts.pretty_relocate (h : r.Silent m) :
    ∀ a : GuardedAlts, (a.relocate r).pretty m = a.pretty m
  | .unguarded e => by
    rw [GuardedAlts.relocate, GuardedAlts.pretty, GuardedAlts.pretty, Expr.pretty_relocate h e]
  | .guarded alts => by
    rw [GuardedAlts.relocate, GuardedAlts.pretty, GuardedAlts.pretty,
      GuardedAlt.pretties_relocates h alts,
      eq_map_of_cons (g := GuardedAlt.relocates r) rfl fun _ _ => rfl, List.isEmpty_map]

theorem GuardedAlt.pretty_relocate (h : r.Silent m) :
    ∀ a : GuardedAlt, (a.relocate r).pretty m = a.pretty m
  | .mk loc guard e => by
    rw [GuardedAlt.relocate, GuardedAlt.pretty, GuardedAlt.pretty, Expr.pretty_relocate h guard,
      Expr.pretty_relocate h e]

theorem Decl.pretty_relocate (h : r.Silent m) : ∀ d : Decl, (d.relocate r).pretty m = d.pretty m
  | .typeDecl loc name vars ty => by simp only [Decl.relocate, Decl.pretty, h loc]
  | .dataDecl loc context name vars cons derivings => by
    simp only [Decl.relocate, Decl.pretty, h loc, ConDecl.mapM_pretty_relocate]
  | .newtypeDecl loc context name vars con derivings => by
    simp only [Decl.relocate, Decl.pretty, h loc, ConDecl.pretty_relocate]
  | .infixDecl loc assoc prec ops => by simp only [Decl.relocate, Decl.pretty, h loc]
  | .classDecl loc context name vars decls => by
    simp only [Decl.relocate, Decl.pretty, h loc, Decl.pretties_relocates h decls]
  | .instDecl loc context className types decls => by
    simp only [Decl.relocate, Decl.pretty, h loc, Decl.pretties_relocates h decls]
  | .defaultDecl loc types => by simp only [Decl.relocate, Decl.pretty, h loc]
  | .typeSig loc names ty => by simp only [Decl.relocate, Decl.pretty, h loc]
  | .foreignImport loc callConv safety entity name ty => by
    simp only [Decl.relocate, Decl.pretty, h loc]
  | .foreignExport loc callConv entity name ty => by simp only [Decl.relocate, Decl.pretty, h loc]
  | .funBind clauses => by
    rw [Decl.relocate, Decl.pretty, Decl.pretty, Match.pretties_relocates h clauses,
      eq_map_of_cons (g := Match.relocates r) rfl fun _ _ => rfl, List.isEmpty_map]
  | .patBind loc pat rhs wheres => by
    simp only [Decl.relocate, Decl.pretty, h loc, Rhs.pretty_relocate h rhs,
      Decl.pretties_relocates h wheres]

theorem Match.pretty_relocate (h : r.Silent m) : ∀ c : Match, (c.relocate r).pretty m = c.pretty m
  | .mk loc name pats rhs wheres => by
    simp only [Match.relocate, Match.pretty, h loc, Rhs.pretty_relocate h rhs,
      Decl.pretties_relocates h wheres]

theorem Rhs.pretty_relocate (h : r.Silent m) : ∀ x : Rhs, (x.relocate r).pretty m = x.pretty m
  | .unguarded e => by rw [Rhs.relocate, Rhs.pretty, Rhs.pretty, Expr.pretty_relocate h e]
  | .guarded rhss => by
    rw [Rhs.relocate, Rhs.pretty, Rhs.pretty, GuardedRhs.pretties_relocates h rhss,
      eq_map_of_cons (g := GuardedRhs.relocates r) rfl fun _ _ => rfl, List.isEmpty_map]

theorem GuardedRhs.pretty_relocate (h : r.Silent m) :
    ∀ g : GuardedRhs, (g.relocate r).pretty m = g.pretty m
  | .mk loc guard e => by
    rw [GuardedRhs.relocate, GuardedRhs.pretty, GuardedRhs.pretty, Expr.pretty_relocate h guard,
      Expr.pretty_relocate h e]

theorem Expr.pretties_relocates (h : r.Silent m) :
    ∀ es : List Expr, Expr.pretties m (Expr.relocates r es) = Expr.pretties m es
  | [] => rfl
  | e :: es => by
    rw [Expr.relocates, Expr.pretties, Expr.pretties, Expr.pretty_relocate h e,
      Expr.pretties_relocates h es]

theorem Stmt.pretties_relocates (h : r.Silent m) :
    ∀ ss : List Stmt, Stmt.pretties m (Stmt.relocates r ss) = Stmt.pretties m ss
  | [] => rfl
  | s :: ss => by
    rw [Stmt.relocates, Stmt.pretties, Stmt.pretties, Stmt.pretty_relocate h s,
      Stmt.pretties_relocates h ss]

theorem FieldUpdate.pretties_relocates (h : r.Silent m) :
    ∀ fs : List FieldUpdate, FieldUpdate.pretties m (FieldUpdate.relocates r fs) =
      FieldUpdate.pretties m fs
  | [] => rfl
  | f :: fs => by
    rw [FieldUpdate.relocates, FieldUpdate.pretties, FieldUpdate.pretties,
      FieldUpdate.pretty_relocate h f, FieldUpdate.pretties_relocates h fs]

theorem Alt.pretties_relocates (h : r.Silent m) :
    ∀ as : List Alt, Alt.pretties m (Alt.relocates r as) = Alt.pretties m as
  | [] => rfl
  | a :: as => by
    rw [Alt.relocates, Alt.pretties, Alt.pretties, Alt.pretty_relocate h a,
      Alt.pretties_relocates h as]

theorem GuardedAlt.pretties_relocates (h : r.Silent m) :
    ∀ as : List GuardedAlt, GuardedAlt.pretties m (GuardedAlt.relocates r as) =
      GuardedAlt.pretties m as
  | [] => rfl
  | a :: as => by
    rw [GuardedAlt.relocates, GuardedAlt.pretties, GuardedAlt.pretties,
      GuardedAlt.pretty_relocate h a, GuardedAlt.pretties_relocates h as]

theorem Decl.pretties_relocates (h : r.Silent m) :
    ∀ ds : List Decl, Decl.pretties m (Decl.relocates r ds) = Decl.pretties m ds
  | [] => rfl
  | d :: ds => by
    rw [Decl.relocates, Decl.pretties, Decl.pretties, Decl.pretty_relocate h d,
      Decl.pretties_relocates h ds]

theorem Match.pretties_relocates (h : r.Silent m) :
    ∀ cs : List Match, Match.pretties m (Match.relocates r cs) = Match.pretties m cs
  | [] => rfl
  | c :: cs => by
    rw [Match.relocates, Match.pretties, Match.pretties, Match.pretty_relocate h c,
      Match.pretties_relocates h cs]

theorem GuardedRhs.pretties_relocates (h : r.Silent m) :
    ∀ gs : List GuardedRhs, GuardedRhs.pretties m (GuardedRhs.relocates r gs) =
      GuardedRhs.pretties m gs
  | [] => rfl
  | g :: gs => by
    rw [GuardedRhs.relocates, GuardedRhs.pretties, GuardedRhs.pretties,
      GuardedRhs.pretty_relocate h g, GuardedRhs.pretties_relocates h gs]

end

end

theorem ImportDecl.doc_relocate {m : Mode} {r : Relocation} (h : r.Silent m) (i : ImportDecl) :
    (i.relocate r).doc m = i.doc m := h i.loc _

theorem Module.pretty_relocate {m : Mode} {r : Relocation} (h : r.Silent m) (mod : Module) :
    (mod.relocate r).pretty m = mod.pretty m := by
  have himports : (mod.relocate r).imports.map (ImportDecl.doc m) =
      mod.imports.map (ImportDecl.doc m) := by
    rw [Module.relocate, List.map_map]
    congr 1
    funext i
    exact i.doc_relocate h
  have hheader : (mod.relocate r).header m = mod.header m := rfl
  rw [Module.pretty, Module.pretty, himports, hheader]
  simp only [Module.relocate, h mod.loc, Decl.pretties_relocates h]

/-- A relocation that no pragma shows does not show at all. -/
theorem Node.pretty_relocate {m : Mode} {r : Relocation} (h : r.Silent m) (level : Nat) (t : Node) :
    (t.relocate r).pretty m level = t.pretty m level := by
  cases t with
  | module mod => exact mod.pretty_relocate h
  | importDecl i => exact congrArg pure (i.doc_relocate h)
  | decl d => exact Decl.pretty_relocate h d
  | conDecl c => exact c.pretty_relocate m r
  | clause c => exact Match.pretty_relocate h c
  | rhs x => exact Rhs.pretty_relocate h x
  | guardedRhs g => exact GuardedRhs.pretty_relocate h g
  | expr e => exact Expr.pretty_relocate h e level
  | stmt s => exact Stmt.pretty_relocate h s
  | fieldUpdate f => exact FieldUpdate.pretty_relocate h f
  | alt a => exact Alt.pretty_relocate h a
  | guardedAlts a => exact GuardedAlts.pretty_relocate h a
  | guardedAlt a => exact GuardedAlt.pretty_relocate h a
  | _ => rfl

/-- Trees that are equal once no place is known are printed alike, with the same faults, in a mode
without pragmas. In every mode trees are printed alike that have the same file and line at the nodes
that a pragma can mark. -/
theorem places_show_in_pragmas_only (m : Mode) (level : Nat) (s t : Node) :
    (m.linePragmas = false → s.relocate .forget = t.relocate .forget →
      s.pretty m level = t.pretty m level) ∧
      (s.relocate .keepLines = t.relocate .keepLines → s.pretty m level = t.pretty m level) := by
  constructor
  · intro hm h
    have hforget := Relocation.forget_silent hm
    rw [← s.pretty_relocate hforget, h, t.pretty_relocate hforget]
  · intro h
    have hkeep := Relocation.keepLines_silent m
    rw [← s.pretty_relocate hkeep, h, t.pretty_relocate hkeep]

theorem moved_function_is_printed_alike :
    let f (clause lambda : Location) : Node :=
      .decl (.funBind [.mk clause (.ident "f") []
        (.unguarded (.lambda lambda [.wildcard] (.ofVar "x"))) []])
    let s := f ⟨"A.hs", 3, 1⟩ ⟨"A.hs", 3, 5⟩
    let t := f ⟨"B.hs", 8, 1⟩ .unknown
    let u := f ⟨"A.hs", 3, 9⟩ ⟨"B.hs", 8, 2⟩
    s.relocate .forget = t.relocate .forget ∧ s.pretty {} 0 = t.pretty {} 0 ∧
      s.relocate .keepLines = u.relocate .keepLines ∧
      s.pretty { linePragmas := true } 0 = u.pretty { linePragmas := true } 0 := by
  intro f s t u
  exact ⟨rfl, (places_show_in_pragmas_only {} 0 s t).1 rfl rfl, rfl,
    (places_show_in_pragmas_only { linePragmas := true } 0 s u).2 rfl⟩

end Offside.Syntax
