import Mathlib
import Offside.Pretty.Node

/-!
# Trees inside a tree

The trees directly below a tree of any category, and from them what it means that something holds of
all the trees inside one. Names, module names and calling conventions are the texts that a tree is
free to choose; the items of a tree are the members of the block that it is printed with. Blocks
stand in modules, declarations and expressions, so only the trees that these are made of count as
code.
-/
namespace Offside.Syntax

def QName.children (q : QName) : List Node := q.qualifier.toList.map .moduleName ++ [.name q.name]

def Ty.children : Ty → List Node
  | .fn source target => [.ty source, .ty target]
  | .tuple elems => elems.map .ty
  | .app f arg => [.ty f, .ty arg]
  | .var name => [.name name]
  | .con name => [.qname name]

def BangType.children : BangType → List Node
  | .banged ty | .unbanged ty => [.ty ty]

def ConDecl.children : ConDecl → List Node
  | .positional _ name args => .name name :: args.map .bangType
  | .record _ name fields => .name name :: fields.map .fieldDecl

def Pat.children : Pat → List Node
  | .var name => [.name name]
  | .lit l => [.literal l]
  | .neg pat | .paren pat | .irrefutable pat => [.pat pat]
  | .infixApp left op right => [.pat left, .qname op, .pat right]
  | .app con args => .qname con :: args.map .pat
  | .tuple elems | .list elems => elems.map .pat
  | .record con fields => .qname con :: fields.map .patField
  | .asPat name pat => [.name name, .pat pat]
  | .wildcard => []

def PatField.children : PatField → List Node
  | .mk field pat => [.qname field, .pat pat]

def Expr.children : Expr → List Node
  | .var name | .con name => [.qname name]
  | .lit l => [.literal l]
  | .infixApp left op right => [.expr left, .qop op, .expr right]
  | .app f arg => [.expr f, .expr arg]
  | .neg e | .paren e | .enumFrom e | .irrefutable e => [.expr e]
  | .lambda _ pats body => pats.map .pat ++ [.expr body]
  | .letIn decls body => decls.map .decl ++ [.expr body]
  | .ifThenElse cond yes no => [.expr cond, .expr yes, .expr no]
  | .caseOf scrutinee alts => .expr scrutinee :: alts.map .alt
  | .doBlock stmts => stmts.map .stmt
  | .tuple elems | .list elems => elems.map .expr
  | .leftSection e op | .rightSection op e => [.expr e, .qop op]
  | .recConstr name fields => .qname name :: fields.map .fieldUpdate
  | .recUpdate e fields => .expr e :: fields.map .fieldUpdate
  | .enumFromTo start stop => [.expr start, .expr stop]
  | .enumFromThen start next => [.expr start, .expr next]
  | .enumFromThenTo start next stop => [.expr start, .expr next, .expr stop]
  | .listComp e quals => .expr e :: quals.map .stmt
  | .typed _ e ty => [.expr e, .qualType ty]
  | .asPat name e => [.name name, .expr e]
  | .wildcard => []

def Stmt.children : Stmt → List Node
  | .generator _ pat e => [.pat pat, .expr e]
  | .qualifier e => [.expr e]
  | .letStmt decls => decls.map .decl

def FieldUpdate.children : FieldUpdate → List Node
  | .mk field e => [.qname field, .expr e]

def Alt.children : Alt → List Node
  | .mk _ pat alts wheres => .pat pat :: .guardedAlts alts :: wheres.map .decl

def GuardedAlts.children : GuardedAlts → List Node
  | .unguarded e => [.expr e]
  | .guarded alts => alts.map .guardedAlt

def GuardedAlt.children : GuardedAlt → List Node
  | .mk _ guard e => [.expr guard, .expr e]

def Decl.children : Decl → List Node
  | .typeDecl _ name vars ty => .name name :: vars.map .name ++ [.ty ty]
  | .dataDecl _ context name vars cons derivings =>
    context.map .assertion ++ .name name :: vars.map .name ++ cons.map .conDecl ++
      derivings.map .qname
  | .newtypeDecl _ context name vars con derivings =>
    context.map .assertion ++ .name name :: vars.map .name ++ .conDecl con :: derivings.map .qname
  | .infixDecl _ assoc _ ops => .assoc assoc :: ops.map .op
  | .classDecl _ context name vars decls =>
    context.map .assertion ++ .name name :: vars.map .name ++ decls.map .decl
  | .instDecl _ context className types decls =>
    context.map .assertion ++ .qname className :: types.map .ty ++ decls.map .decl
  | .defaultDecl _ types => types.map .ty
  | .typeSig _ names ty => names.map .name ++ [.qualType ty]
  | .foreignImport _ _ safety _ name ty => [.safety safety, .name name, .ty ty]
  | .foreignExport _ _ _ name ty => [.name name, .ty ty]
  | .funBind clauses => clauses.map .clause
  | .patBind _ pat rhs wheres => .pat pat :: .rhs rhs :: wheres.map .decl

def Match.children : Match → List Node
  | .mk _ name pats rhs wheres => .name name :: pats.map .pat ++ .rhs rhs :: wheres.map .decl

def Rhs.children : Rhs → List Node
  | .unguarded e => [.expr e]
  | .guarded rhss => rhss.map .guardedRhs

def GuardedRhs.children : GuardedRhs → List Node
  | .mk _ guard e => [.expr guard, .expr e]

def ExportSpec.children : ExportSpec → List Node
  | .var name | .abs name | .thingAll name => [.qname name]
  | .thingWith name items => .qname name :: items.map .cname
  | .moduleContents module => [.moduleName module]

def ImportSpec.children : ImportSpec → List Node
  | .var name | .abs name | .thingAll name => [.name name]
  | .thingWith name items => .name name :: items.map .cname

namespace Node

/-- The trees directly below a tree. -/
def children : Node → List Node
  | .module mod =>
    .moduleName mod.name :: (mod.exports.getD []).map .exportSpec ++ mod.imports.map .importDecl ++
      mod.decls.map .decl
  | .exportSpec node => node.children
  | .importDecl node =>
    .moduleName node.module :: node.asName.toList.map .moduleName ++
      node.specs.toList.map .importSpecs
  | .importSpecs node => node.items.map .importSpec
  | .importSpec node => node.children
  | .decl node => node.children
  | .conDecl node => node.children
  | .fieldDecl node => node.names.map .name ++ [.bangType node.ty]
  | .bangType node => node.children
  | .clause node => node.children
  | .rhs node => node.children
  | .guardedRhs node => node.children
  | .assoc _ => []
  | .safety _ => []
  | .ty node => node.children
  | .qualType node => node.context.map .assertion ++ [.ty node.ty]
  | .assertion node => .qname node.className :: node.types.map .ty
  | .name _ => []
  | .qname node => node.children
  | .moduleName _ => []
  | .op node => [.name node.name]
  | .qop node => [.qname node.name]
  | .cname node => [.name node.name]
  | .literal _ => []
  | .pat node => node.children
  | .patField node => node.children
  | .expr node => node.children
  | .stmt node => node.children
  | .fieldUpdate node => node.children
  | .alt node => node.children
  | .guardedAlts node => node.children
  | .guardedAlt node => node.children

/-- The tree `s` is the whole of another one or inside of it. -/
inductive Inside (s : Node) : Node → Prop where
  | here : Inside s s
  | child {t c : Node} (mem : c ∈ t.children) (inside : Inside s c) : Inside s t

theorem sizeOf_lt_of_mem_children {c t : Node} (h : c ∈ t.children) : sizeOf c < sizeOf t := by
  have hlist : ∀ {α : Type} [SizeOf α] {x : α} {xs : List α}, x ∈ xs → sizeOf x < sizeOf xs :=
    List.sizeOf_lt_of_mem
  cases t with
  | module node =>
    obtain ⟨loc, name, exports, imports, decls⟩ := node
    cases exports <;> simp [children] at h ⊢ <;> grind
  | importDecl node =>
    obtain ⟨loc, name, qualified, asName, specs⟩ := node
    cases asName <;> cases specs <;> simp [children] at h ⊢ <;> grind
  | qname node =>
    obtain ⟨qualifier, name⟩ := node
    cases qualifier <;> simp [children, QName.children] at h ⊢ <;> grind
  | exportSpec node => cases node <;> simp [children, ExportSpec.children] at h ⊢ <;> grind
  | importSpec node => cases node <;> simp [children, ImportSpec.children] at h ⊢ <;> grind
  | decl node => cases node <;> simp [children, Decl.children] at h ⊢ <;> grind
  | conDecl node => cases node <;> simp [children, ConDecl.children] at h ⊢ <;> grind
  | bangType node => cases node <;> simp [children, BangType.children] at h ⊢ <;> grind
  | rhs node => cases node <;> simp [children, Rhs.children] at h ⊢ <;> grind
  | ty node => cases node <;> simp [children, Ty.children] at h ⊢ <;> grind
  | pat node => cases node <;> simp [children, Pat.children] at h ⊢ <;> grind
  | expr node => cases node <;> simp [children, Expr.children] at h ⊢ <;> grind
  | stmt node => cases node <;> simp [children, Stmt.children] at h ⊢ <;> grind
  | guardedAlts node => cases node <;> simp [children, GuardedAlts.children] at h ⊢ <;> grind
  | op node | qop node | cname node =>
    cases node <;> simp [children, Op.name, QOp.name, CName.name] at h ⊢ <;> grind
  | importSpecs node | fieldDecl node | clause node | guardedRhs node | qualType node
  | assertion node | patField node | fieldUpdate node | alt node | guardedAlt node =>
    cases node
    simp [children, Match.children, GuardedRhs.children, PatField.children, FieldUpdate.children,
      Alt.children, GuardedAlt.children] at h ⊢
    grind
  | assoc | safety | name | moduleName | literal => simp [children] at h

/-- Induction on trees of any category, from the trees directly below a tree to the tree. -/
@[elab_as_elim]
theorem inductOn {motive : Node → Prop} (step : ∀ t : Node, (∀ c ∈ t.children, motive c) → motive t)
    (t : Node) : motive t :=
  step t fun c hc =>
    have := sizeOf_lt_of_mem_children hc
    inductOn step c
termination_by sizeOf t

/-- Something holds of a tree and of all the trees inside it. -/
inductive Everywhere (P : Node → Prop) : Node → Prop where
  | intro {t : Node} (here : P t) (below : ∀ c ∈ t.children, Everywhere P c) : Everywhere P t

theorem Everywhere.inside {P : Node → Prop} {s t : Node} (ht : t.Everywhere P) (hs : s.Inside t) :
    s.Everywhere P := by
  induction hs with
  | here => exact ht
  | child mem _ ih =>
    cases ht with
    | intro _ below => exact ih (below _ mem)

theorem everywhere_iff {P : Node → Prop} {t : Node} : t.Everywhere P ↔ ∀ s, s.Inside t → P s := by
  constructor
  · intro ht s hs
    cases ht.inside hs with
    | intro here _ => exact here
  · intro h
    induction t using Node.inductOn with
    | step t ih =>
      apply Everywhere.intro (h t .here)
      intro c hc
      exact ih c hc fun s hs => h s (.child hc hs)

/-- The texts that a tree holds itself: names, module names and calling conventions. -/
def words : Node → List String
  | .name (.ident s) => [s]
  | .name (.symbol s) => [s]
  | .moduleName m => [m.text]
  | .decl (.foreignImport _ callConv _ _ _ _) => [callConv]
  | .decl (.foreignExport _ callConv _ _ _) => [callConv]
  | _ => []

/-- All names and calling conventions inside the tree are texts of one line and not empty. -/
def PlainlyNamed (t : Node) : Prop := t.Everywhere fun s => ∀ w ∈ s.words, w ≠ "" ∧ '\n' ∉ w.toList

/-- All words of the tree and of the trees inside it satisfy `P`. -/
def Worded (P : String → Prop) (t : Node) : Prop := t.Everywhere fun s => ∀ w ∈ s.words, P w

theorem worded_iff {P : String → Prop} {t : Node} :
    t.Worded P ↔ (∀ w ∈ t.words, P w) ∧ t.children.Forall (Worded P) := by
  rw [List.forall_iff_forall_mem]
  constructor
  · rintro ⟨here, below⟩
    exact ⟨here, below⟩
  · rintro ⟨here, below⟩
    exact .intro here below

theorem Worded.child {P : String → Prop} {t c : Node} (ht : t.Worded P)
    (hc : c ∈ t.children) : c.Worded P :=
  List.forall_iff_forall_mem.mp (worded_iff.mp ht).2 c hc

theorem worded_true (t : Node) : t.Worded fun _ => True := everywhere_iff.mpr fun _ _ _ _ => trivial

/-- The items of the block that a tree is printed with, if it has one. -/
def items : Node → List Node
  | .module mod => mod.imports.map .importDecl ++ mod.decls.map .decl
  | .decl (.classDecl _ _ _ _ decls) => decls.map .decl
  | .decl (.instDecl _ _ _ _ decls) => decls.map .decl
  | .decl (.patBind _ _ _ wheres) => wheres.map .decl
  | .clause (.mk _ _ _ _ wheres) => wheres.map .decl
  | .expr (.letIn decls _) => decls.map .decl
  | .expr (.caseOf _ alts) => alts.map .alt
  | .expr (.doBlock stmts) => stmts.map .stmt
  | .stmt (.letStmt decls) => decls.map .decl
  | .alt (.mk _ _ _ wheres) => wheres.map .decl
  | _ => []

theorem mem_children_of_items {i t : Node} (h : i ∈ t.items) : i ∈ t.children := by
  unfold items at h
  split at h <;> simp_all [children, Decl.children, Match.children, Expr.children, Stmt.children,
    Alt.children]

/-- The document of an item. -/
def doc (m : Mode) (t : Node) : Doc := (t.pretty m 0).value

/-! ### Code -/

/-- Whether the tree is one of those that can have blocks inside. -/
def isCode : Node → Bool
  | .module _ | .decl _ | .clause _ | .rhs _ | .guardedRhs _ | .expr _ | .stmt _
  | .fieldUpdate _ | .alt _ | .guardedAlts _ | .guardedAlt _ => true
  | _ => false

theorem not_isCode_child {t : Node} (ht : t.isCode = false) :
    ∀ c ∈ t.children, c.isCode = false := by
  cases t with
  | exportSpec node => cases node <;> simp [children, ExportSpec.children, isCode]
  | importSpec node => cases node <;> simp [children, ImportSpec.children, isCode]
  | conDecl node => cases node <;> simp [children, ConDecl.children, isCode]
  | bangType node => cases node <;> simp [children, BangType.children, isCode]
  | ty node => cases node <;> simp [children, Ty.children, isCode]
  | pat node => cases node <;> simp [children, Pat.children, isCode]
  | patField node => cases node; simp [children, PatField.children, isCode]
  | _ => grind [children, QName.children, isCode]

theorem isCode_of_items {t : Node} (h : t.items ≠ []) : t.isCode = true := by
  cases t with
  | module => rfl
  | decl => rfl
  | clause => rfl
  | expr => rfl
  | stmt => rfl
  | alt => rfl
  | _ => exact absurd rfl h

theorem isCode_of_inside {s t : Node} (h : s.Inside t) (hs : s.isCode = true) :
    t.isCode = true := by
  induction h with
  | here => exact hs
  | @child t c mem _ ih =>
    by_contra ht
    rw [not_isCode_child (by simpa using ht) c mem] at ih
    exact absurd ih (by decide)

end Node

end Offside.Syntax

namespace Offside.Checked

theorem value_mapM {α β : Type} (f : α → Checked β) (xs : List α) :
    (xs.mapM f).value = xs.map fun x => (f x).value := by
  induction xs with
  | nil => rfl
  | cons x xs ih => simp [ih]

theorem fault_mapM {α β : Type} (f : α → Checked β) (xs : List α) :
    (xs.mapM f).fault = none ↔ ∀ x ∈ xs, (f x).fault = none := by
  induction xs with
  | nil => simp
  | cons x xs ih => simp [ih]

/-- Unless there is a fault, the result has the property. -/
def Meets {α : Type} (x : Checked α) (P : α → Prop) : Prop := x.fault = none → P x.value

namespace Meets

variable {α β : Type} {P : α → Prop} {Q : β → Prop}

theorem pure {a : α} (h : P a) : Meets (Pure.pure a) P := fun _ => h

theorem bind {x : Checked α} {f : α → Checked β} (hx : x.Meets P) (hf : ∀ a, P a → (f a).Meets Q) :
    (x >>= f).Meets Q := by
  intro hfault
  rw [fault_bind, Option.or_eq_none_iff] at hfault
  rw [value_bind]
  exact hf _ (hx hfault.1) hfault.2

theorem of_bind_pure {x : Checked α} {g : α → β} (h : (x >>= fun a => Pure.pure (g a)).Meets Q) :
    x.Meets fun a => Q (g a) := by
  intro hfault
  refine h ?_
  rw [fault_bind, hfault]
  rfl

/-- A test that stands for a fault can be taken as failed. -/
theorem guard {P : Doc → Prop} {p : Prop} [Decidable p] {fault : Fault} {x : Checked Doc}
    (hx : ¬ p → x.Meets P) : Meets (if p then broken fault else x) P := by
  by_cases h : p
  · rw [if_pos h]
    intro hfault
    simp at hfault
  · rw [if_neg h]
    exact hx h

theorem mapM {f : α → Checked β} {xs : List α} (h : ∀ x ∈ xs, (f x).Meets Q) :
    (xs.mapM f).Meets fun ys => ∀ y ∈ ys, Q y := by
  intro hfault
  rw [fault_mapM] at hfault
  rw [value_mapM]
  intro y hy
  obtain ⟨x, hx, rfl⟩ := List.mem_map.mp hy
  exact h x hx (hfault x hx)

theorem mapM_forall₂ {R : α → β → Prop} {f : α → Checked β} {xs : List α}
    (h : ∀ x ∈ xs, (f x).Meets (R x)) : (xs.mapM f).Meets (List.Forall₂ R xs) := by
  intro hfault
  rw [fault_mapM] at hfault
  rw [value_mapM, List.forall₂_map_right_iff, List.forall₂_same]
  exact fun x hx => h x hx (hfault x hx)

theorem mapM_cons {f : α → Checked β} {xs : List α} (hne : xs ≠ []) (h : ∀ x ∈ xs, (f x).Meets Q) :
    (xs.mapM f).Meets fun ys => ys ≠ [] ∧ ∀ y ∈ ys, Q y := by
  intro hfault
  refine ⟨?_, mapM h hfault⟩
  rw [value_mapM, ne_eq, List.map_eq_nil_iff]
  exact hne

theorem mono {x : Checked α} {P' : α → Prop} (hx : x.Meets P) (h : ∀ a, P a → P' a) : x.Meets P' :=
  fun hfault => h _ (hx hfault)

end Meets

/-- A function that prints the members of a list in turn. -/
theorem eq_mapM {α : Type} {f : α → Checked Doc} {g : List α → Checked (List Doc)}
    (hnil : g [] = pure []) (hcons : ∀ x xs, g (x :: xs) = do let d ← f x; return d :: (← g xs))
    (xs : List α) : g xs = xs.mapM f := by
  induction xs with
  | nil => rw [hnil, List.mapM_nil]
  | cons x xs ih =>
    rw [hcons, List.mapM_cons, ih]

end Offside.Checked

namespace Offside.Syntax

theorem Ty.pretties_eq (m : Mode) (level : Nat) (ts : List Ty) :
    Ty.pretties m level ts = ts.mapM (Ty.pretty m level) :=
  Checked.eq_mapM (f := Ty.pretty m level) (g := Ty.pretties m level) rfl (fun _ _ => rfl) ts

theorem Pat.pretties_eq (m : Mode) (level : Nat) (ps : List Pat) :
    Pat.pretties m level ps = ps.mapM (Pat.pretty m level) :=
  Checked.eq_mapM (f := Pat.pretty m level) (g := Pat.pretties m level) rfl (fun _ _ => rfl) ps

theorem PatField.pretties_eq (m : Mode) (fs : List PatField) :
    PatField.pretties m fs = fs.mapM (PatField.pretty m) :=
  Checked.eq_mapM (f := PatField.pretty m) (g := PatField.pretties m) rfl (fun _ _ => rfl) fs

theorem Expr.pretties_eq (m : Mode) (es : List Expr) :
    Expr.pretties m es = es.mapM (Expr.pretty m 0) :=
  Checked.eq_mapM (f := Expr.pretty m 0) (g := Expr.pretties m) rfl (fun _ _ => rfl) es

theorem Stmt.pretties_eq (m : Mode) (ss : List Stmt) :
    Stmt.pretties m ss = ss.mapM (Stmt.pretty m) :=
  Checked.eq_mapM (f := Stmt.pretty m) (g := Stmt.pretties m) rfl (fun _ _ => rfl) ss

theorem FieldUpdate.pretties_eq (m : Mode) (fs : List FieldUpdate) :
    FieldUpdate.pretties m fs = fs.mapM (FieldUpdate.pretty m) :=
  Checked.eq_mapM (f := FieldUpdate.pretty m) (g := FieldUpdate.pretties m) rfl (fun _ _ => rfl) fs

theorem Alt.pretties_eq (m : Mode) (as : List Alt) : Alt.pretties m as = as.mapM (Alt.pretty m) :=
  Checked.eq_mapM (f := Alt.pretty m) (g := Alt.pretties m) rfl (fun _ _ => rfl) as

theorem GuardedAlt.pretties_eq (m : Mode) (as : List GuardedAlt) :
    GuardedAlt.pretties m as = as.mapM (GuardedAlt.pretty m) :=
  Checked.eq_mapM (f := GuardedAlt.pretty m) (g := GuardedAlt.pretties m) rfl (fun _ _ => rfl) as

theorem Decl.pretties_eq (m : Mode) (ds : List Decl) :
    Decl.pretties m ds = ds.mapM (Decl.pretty m) :=
  Checked.eq_mapM (f := Decl.pretty m) (g := Decl.pretties m) rfl (fun _ _ => rfl) ds

theorem Match.pretties_eq (m : Mode) (cs : List Match) :
    Match.pretties m cs = cs.mapM (Match.pretty m) :=
  Checked.eq_mapM (f := Match.pretty m) (g := Match.pretties m) rfl (fun _ _ => rfl) cs

theorem GuardedRhs.pretties_eq (m : Mode) (rs : List GuardedRhs) :
    GuardedRhs.pretties m rs = rs.mapM (GuardedRhs.pretty m) :=
  Checked.eq_mapM (f := GuardedRhs.pretty m) (g := GuardedRhs.pretties m) rfl (fun _ _ => rfl) rs

/-! ### As-patterns -/

theorem Pat.pretty_asPat {m : Mode} (level : Nat) (name : Name) {pat : Pat}
    (h : ∀ p, pat ≠ .irrefutable p) :
    Pat.pretty m level (.asPat name pat) =
      do return name.doc ++ Doc.char '@' ++ (← pat.pretty m 2) := by
  cases pat with
  | irrefutable p => exact absurd rfl (h p)
  | _ => rfl

theorem Expr.pretty_asPat {m : Mode} (level : Nat) (name : Name) {e : Expr}
    (h : ∀ f, e ≠ .irrefutable f) :
    Expr.pretty m level (.asPat name e) =
      do return name.doc ++ Doc.char '@' ++ (← e.pretty m 4) := by
  cases e with
  | irrefutable f => exact absurd rfl (h f)
  | _ => rfl

end Offside.Syntax
