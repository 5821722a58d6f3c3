import Offside.Proofs.WellFormed

/-!
# The fault that is reported

The trees below a tree are printed in a fixed order, and a tree that lacks something is not entered.
So the fault that printing reports is the first one of the tree in this order, a tree before the
trees below it. It depends on the tree alone: the mode, the level and the page have no part in it.
-/
namespace Offside

open Syntax

namespace Syntax.Node

/-- The trees directly below a tree, in the order in which they are printed. The types of an
instance come before its context. -/
@[simp] def visits : Node → List Node
  | .decl (.instDecl _ context className types decls) =>
    types.map .ty ++ context.map .assertion ++ .qname className :: decls.map .decl
  | t => t.children

theorem mem_visits {c t : Node} : c ∈ t.visits ↔ c ∈ t.children := by
  unfold visits
  split
  · simp only [children, Decl.children, List.mem_append, List.mem_cons]
    tauto
  · rfl

/-- The first fault of a tree: what it lacks itself, and else the first fault below it. -/
def firstFault? (t : Node) : Option Fault :=
  t.lack?.or (t.visits.attach.findSome? fun c => c.1.firstFault?)
termination_by sizeOf t
decreasing_by exact sizeOf_lt_of_mem_children (mem_visits.mp c.2)

theorem firstFault?_eq (t : Node) :
    t.firstFault? = t.lack?.or (t.visits.findSome? firstFault?) := by
  have hvisits : (t.visits.attach.map Subtype.val).findSome? firstFault? = _ := List.findSome?_map
  rw [List.attach_map_subtype_val] at hvisits
  rw [firstFault?, hvisits]
  rfl

/-- There is no first fault exactly if no tree inside lacks anything. -/
theorem firstFault?_eq_none_iff {t : Node} : t.firstFault? = none ↔ t.WellFormed := by
  induction t using Node.inductOn with
  | step t ih =>
    rw [firstFault?_eq, Option.or_eq_none_iff, List.findSome?_eq_none_iff, wellFormed_iff,
      List.forall_iff_forall_mem]
    simp only [mem_visits]
    exact and_congr_right fun _ => forall₂_congr ih

@[simp] theorem findSome?_firstFault?_cons (c : Node) (cs : List Node) :
    (c :: cs).findSome? firstFault? = c.firstFault?.or (cs.findSome? firstFault?) := by
  rw [List.findSome?_cons]
  cases c.firstFault? <;> rfl

/-! ### Trees that never lack anything -/

theorem findSome?_eq_none {α : Type} {node : α → Node} (h : ∀ a, (node a).firstFault? = none)
    (xs : List α) : (xs.map node).findSome? firstFault? = none := by
  simp [h]

@[simp] theorem firstFault?_name (n : Name) : (Node.name n).firstFault? = none := firstFault?_eq _

@[simp] theorem firstFault?_moduleName (n : ModuleName) : (Node.moduleName n).firstFault? = none :=
  firstFault?_eq _

@[simp] theorem firstFault?_literal (l : Literal) : (Node.literal l).firstFault? = none :=
  firstFault?_eq _

@[simp] theorem firstFault?_assoc (a : Assoc) : (Node.assoc a).firstFault? = none :=
  firstFault?_eq _

@[simp] theorem firstFault?_safety (s : Safety) : (Node.safety s).firstFault? = none :=
  firstFault?_eq _

@[simp] theorem firstFault?_qname (q : QName) : (Node.qname q).firstFault? = none := by
  rw [firstFault?_eq]
  simp [lack?, visits, children, QName.children]

@[simp] theorem firstFault?_op (o : Op) : (Node.op o).firstFault? = none := by
  rw [firstFault?_eq]
  simp [lack?, visits, children]

@[simp] theorem firstFault?_qop (o : QOp) : (Node.qop o).firstFault? = none := by
  rw [firstFault?_eq]
  simp [lack?, visits, children]

@[simp] theorem firstFault?_cname (c : CName) : (Node.cname c).firstFault? = none := by
  rw [firstFault?_eq]
  simp [lack?, visits, children]

@[simp] theorem firstFault?_exportSpec (e : ExportSpec) :
    (Node.exportSpec e).firstFault? = none := by
  rw [firstFault?_eq]
  cases e <;> simp [lack?, visits, children, ExportSpec.children]

@[simp] theorem firstFault?_importSpec (i : ImportSpec) :
    (Node.importSpec i).firstFault? = none := by
  rw [firstFault?_eq]
  cases i <;> simp [lack?, visits, children, ImportSpec.children]

@[simp] theorem firstFault?_importSpecs (s : ImportSpecs) :
    (Node.importSpecs s).firstFault? = none := by
  rw [firstFault?_eq]
  simp [lack?, visits, children]

@[simp] theorem firstFault?_importDecl (i : ImportDecl) :
    (Node.importDecl i).firstFault? = none := by
  rw [firstFault?_eq]
  simp [lack?, visits, children]

/-- Printing notes the first fault of the tree, at every level. -/
def NotesFirst (m : Mode) (t : Node) : Prop := ∀ level, (t.pretty m level).fault = t.firstFault?

end Syntax.Node

/-- The trees of a list are printed in turn. -/
theorem Checked.fault_mapM_nodes {α β : Type} {f : α → Checked β} {node : α → Node} {xs : List α}
    (h : ∀ x ∈ xs, (f x).fault = (node x).firstFault?) :
    (xs.mapM f).fault = (xs.map node).findSome? Node.firstFault? := by
  induction xs with
  | nil => rfl
  | cons x xs ih =>
    have hx := h x (by simp)
    have hxs := ih fun y hy => h y (by simp [hy])
    rw [List.mapM_cons, fault_bind, fault_bind, fault_pure, hx, hxs, Option.or_none, List.map_cons,
      Node.findSome?_firstFault?_cons]

/-- A test that stands for a fault comes before what is printed otherwise. -/
theorem Checked.fault_guard {p : Prop} [Decidable p] {f : Fault} {x : Checked Doc}
    {below : Option Fault} (h : x.fault = below) :
    (if p then broken f else x).fault = (if p then some f else none).or below := by
  by_cases hp : p
  · simp [hp]
  · simpa [hp] using h

namespace Syntax

open Checked

variable {m : Mode}

/-! ### Types and patterns -/

theorem Ty.fault_pretty {t : Ty} (ih : ∀ c ∈ t.children, c.NotesFirst m) (level : Nat) :
    (t.pretty m level).fault = (Node.ty t).firstFault? := by
  rw [Node.firstFault?_eq]
  cases t with
  | fn source target =>
    have hsource : ∀ l, (source.pretty m l).fault = _ := ih (.ty source) (by simp [children])
    have htarget : ∀ l, (target.pretty m l).fault = _ := ih (.ty target) (by simp [children])
    simp [Ty.pretty, Node.lack?, Node.visits, Node.children, children, hsource, htarget]
  | tuple elems =>
    have helems : (elems.mapM (Ty.pretty m 0)).fault = _ :=
      fault_mapM_nodes fun t ht => ih (.ty t) (by simp [children, ht]) 0
    rw [Ty.pretty, Ty.pretties_eq]
    apply fault_guard
    simp [Node.visits, Node.children, children, helems]
  | app f arg =>
    have hf : ∀ l, (f.pretty m l).fault = _ := ih (.ty f) (by simp [children])
    have harg : ∀ l, (arg.pretty m l).fault = _ := ih (.ty arg) (by simp [children])
    by_cases h : f.isListCon
    · -- the list constructor is left out in print, but it is only a name
      have hcon : (f.pretty m 0).fault = none := by
        cases f with
        | con name => rfl
        | _ => simp [isListCon] at h
      rw [hf] at hcon
      simp [Ty.pretty, Node.lack?, Node.visits, Node.children, children, h, harg, hcon]
    · simp [Ty.pretty, Node.lack?, Node.visits, Node.children, children, h, hf, harg]
  | var name => simp [Ty.pretty, Node.lack?, Node.visits, Node.children, children]
  | con name => simp [Ty.pretty, Node.lack?, Node.visits, Node.children, children]

theorem Assertion.fault_pretty {a : Assertion}
    (ih : ∀ c ∈ (Node.assertion a).children, c.NotesFirst m) :
    (a.pretty m).fault = (Node.assertion a).firstFault? := by
  have htypes : (a.types.mapM (Ty.pretty m 2)).fault = _ :=
    fault_mapM_nodes fun t ht => ih (.ty t) (by simp [Node.children, ht]) 2
  rw [Node.firstFault?_eq, Assertion.pretty, Ty.pretties_eq]
  simp [Node.lack?, Node.visits, Node.children, htypes]

theorem Context.fault_pretty {ctx : Context} (ih : ∀ a ∈ ctx, (Node.assertion a).NotesFirst m) :
    (Context.pretty m ctx).fault = (ctx.map .assertion).findSome? Node.firstFault? := by
  have hctx : (ctx.mapM (Assertion.pretty m)).fault = _ := fault_mapM_nodes fun a ha => ih a ha 0
  unfold Context.pretty
  split
  · simp_all
  · simp [hctx]

theorem QualType.fault_pretty {q : QualType}
    (ih : ∀ c ∈ (Node.qualType q).children, c.NotesFirst m) :
    (q.pretty m).fault = (Node.qualType q).firstFault? := by
  have hcontext :=
    Context.fault_pretty fun a ha => ih (.assertion a) (by simpa [Node.children] using ha)
  have hty : ∀ l, (q.ty.pretty m l).fault = _ := ih (.ty q.ty) (by simp [Node.children])
  rw [Node.firstFault?_eq, QualType.pretty]
  simp [Node.lack?, Node.visits, Node.children, hcontext, hty]

theorem BangType.fault_pretty {b : BangType} (ih : ∀ c ∈ b.children, c.NotesFirst m) (level : Nat) :
    (b.pretty m level).fault = (Node.bangType b).firstFault? := by
  rw [Node.firstFault?_eq]
  cases b with
  | banged ty | unbanged ty =>
    have hty : ∀ l, (ty.pretty m l).fault = _ := ih (.ty ty) (by simp [children])
    simp [BangType.pretty, Node.lack?, Node.visits, Node.children, children, hty]

theorem Pat.fault_pretty {p : Pat} (ih : ∀ c ∈ p.children, c.NotesFirst m) (level : Nat) :
    (p.pretty m level).fault = (Node.pat p).firstFault? := by
  rw [Node.firstFault?_eq]
  cases p with
  | var name | lit l | wildcard =>
    simp [Pat.pretty, Node.lack?, Node.visits, Node.children, children]
  | neg pat | paren pat | irrefutable pat =>
    have hpat : ∀ l, (pat.pretty m l).fault = _ := ih (.pat pat) (by simp [children])
    simp [Pat.pretty, Node.lack?, Node.visits, Node.children, children, hpat]
  | infixApp left op right =>
    have hleft : ∀ l, (left.pretty m l).fault = _ := ih (.pat left) (by simp [children])
    have hright : ∀ l, (right.pretty m l).fault = _ := ih (.pat right) (by simp [children])
    simp [Pat.pretty, Node.lack?, Node.visits, Node.children, children, hleft, hright]
  | app con args =>
    have hargs : (args.mapM (Pat.pretty m 2)).fault = _ :=
      fault_mapM_nodes fun p hp => ih (.pat p) (by simp [children, hp]) 2
    simp [Pat.pretty, Pat.pretties_eq, Node.lack?, Node.visits, Node.children, children, hargs]
  | tuple elems =>
    have helems : (elems.mapM (Pat.pretty m 0)).fault = _ :=
      fault_mapM_nodes fun p hp => ih (.pat p) (by simp [children, hp]) 0
    rw [Pat.pretty, Pat.pretties_eq]
    apply fault_guard
    simp [Node.visits, Node.children, children, helems]
  | list elems =>
    have helems : (elems.mapM (Pat.pretty m 0)).fault = _ :=
      fault_mapM_nodes fun p hp => ih (.pat p) (by simp [children, hp]) 0
    simp [Pat.pretty, Pat.pretties_eq, Node.lack?, Node.visits, Node.children, children, helems]
  | record con fields =>
    have hfields : (fields.mapM (PatField.pretty m)).fault = _ :=
      fault_mapM_nodes fun f hf => ih (.patField f) (by simp [children, hf]) 0
    simp [Pat.pretty, PatField.pretties_eq, Node.lack?, Node.visits, Node.children,
      children, hfields]
  | asPat name pat =>
    have hpat : ∀ l, (pat.pretty m l).fault = _ := ih (.pat pat) (by simp [children])
    have hfault : ((Pat.asPat name pat).pretty m level).fault = (pat.pretty m 2).fault := by
      cases pat <;> simp [Pat.pretty]
    simp [Node.lack?, Node.visits, Node.children, children, hfault, hpat]

theorem PatField.fault_pretty {f : PatField} (ih : ∀ c ∈ f.children, c.NotesFirst m) :
    (f.pretty m).fault = (Node.patField f).firstFault? := by
  rw [Node.firstFault?_eq]
  cases f with
  | mk field pat =>
    have hpat : ∀ l, (pat.pretty m l).fault = _ := ih (.pat pat) (by simp [children])
    simp [PatField.pretty, Node.lack?, Node.visits, Node.children, children, hpat]

/-! ### Expressions -/

theorem Decl.fault_pretties {decls : List Decl} (ih : ∀ d ∈ decls, (Node.decl d).NotesFirst m) :
    (Decl.pretties m decls).fault = (decls.map .decl).findSome? Node.firstFault? := by
  rw [Decl.pretties_eq]
  exact fault_mapM_nodes fun d hd => ih d hd 0

theorem Expr.fault_pretty {e : Expr} (ih : ∀ c ∈ e.children, c.NotesFirst m) (level : Nat) :
    (e.pretty m level).fault = (Node.expr e).firstFault? := by
  rw [Node.firstFault?_eq]
  cases e with
  | var name | con name | lit l | wildcard =>
    simp [Expr.pretty, Node.lack?, Node.visits, Node.children, children]
  | neg e | paren e | enumFrom e | irrefutable e =>
    have he : ∀ l, (e.pretty m l).fault = _ := ih (.expr e) (by simp [children])
    simp [Expr.pretty, Node.lack?, Node.visits, Node.children, children, he]
  | leftSection e op | rightSection op e =>
    have he : ∀ l, (e.pretty m l).fault = _ := ih (.expr e) (by simp [children])
    simp [Expr.pretty, Node.lack?, Node.visits, Node.children, children, he]
  | infixApp left op right =>
    have hleft : ∀ l, (left.pretty m l).fault = _ := ih (.expr left) (by simp [children])
    have hright : ∀ l, (right.pretty m l).fault = _ := ih (.expr right) (by simp [children])
    simp [Expr.pretty, Node.lack?, Node.visits, Node.children, children, hleft, hright]
  | app f arg =>
    have hf : ∀ l, (f.pretty m l).fault = _ := ih (.expr f) (by simp [children])
    have harg : ∀ l, (arg.pretty m l).fault = _ := ih (.expr arg) (by simp [children])
    simp [Expr.pretty, Node.lack?, Node.visits, Node.children, children, hf, harg]
  | lambda loc pats body =>
    have hpats : (pats.mapM (Pat.pretty m 2)).fault = _ :=
      fault_mapM_nodes fun p hp => ih (.pat p) (by simp [children, hp]) 2
    have hbody : ∀ l, (body.pretty m l).fault = _ := ih (.expr body) (by simp [children])
    rw [Expr.pretty, Pat.pretties_eq]
    apply fault_guard
    simp [Node.visits, Node.children, children, hpats, hbody]
  | letIn decls body =>
    have hdecls : (Decl.pretties m decls).fault = _ :=
      Decl.fault_pretties fun d hd => ih (.decl d) (by simp [children, hd])
    have hbody : ∀ l, (body.pretty m l).fault = _ := ih (.expr body) (by simp [children])
    simp [Expr.pretty, Node.lack?, Node.visits, Node.children, children, hdecls, hbody]
  | ifThenElse cond yes no =>
    have hcond : ∀ l, (cond.pretty m l).fault = _ := ih (.expr cond) (by simp [children])
    have hyes : ∀ l, (yes.pretty m l).fault = _ := ih (.expr yes) (by simp [children])
    have hno : ∀ l, (no.pretty m l).fault = _ := ih (.expr no) (by simp [children])
    simp [Expr.pretty, Node.lack?, Node.visits, Node.children, children, hcond, hyes, hno]
  | caseOf scrutinee alts =>
    have hscrutinee : ∀ l, (scrutinee.pretty m l).fault = _ :=
      ih (.expr scrutinee) (by simp [children])
    have halts : (alts.mapM (Alt.pretty m)).fault = _ :=
      fault_mapM_nodes fun a ha => ih (.alt a) (by simp [children, ha]) 0
    rw [Expr.pretty, Alt.pretties_eq]
    apply fault_guard
    simp [Node.visits, Node.children, children, hscrutinee, halts]
  | doBlock stmts =>
    have hstmts : (stmts.mapM (Stmt.pretty m)).fault = _ :=
      fault_mapM_nodes fun s hs => ih (.stmt s) (by simp [children, hs]) 0
    rw [Expr.pretty, Stmt.pretties_eq]
    apply fault_guard
    simp [Node.visits, Node.children, children, hstmts]
  | tuple elems =>
    have helems : (elems.mapM (Expr.pretty m 0)).fault = _ :=
      fault_mapM_nodes fun e he => ih (.expr e) (by simp [children, he]) 0
    rw [Expr.pretty, Expr.pretties_eq]
    apply fault_guard
    simp [Node.visits, Node.children, children, helems]
  | list elems =>
    have helems : (elems.mapM (Expr.pretty m 0)).fault = _ :=
      fault_mapM_nodes fun e he => ih (.expr e) (by simp [children, he]) 0
    simp [Expr.pretty, Expr.pretties_eq, Node.lack?, Node.visits, Node.children, children, helems]
  | recConstr con fields =>
    have hfields : (fields.mapM (FieldUpdate.pretty m)).fault = _ :=
      fault_mapM_nodes fun f hf => ih (.fieldUpdate f) (by simp [children, hf]) 0
    simp [Expr.pretty, FieldUpdate.pretties_eq, Node.lack?, Node.visits, Node.children,
      children, hfields]
  | recUpdate e fields =>
    have he : ∀ l, (e.pretty m l).fault = _ := ih (.expr e) (by simp [children])
    have hfields : (fields.mapM (FieldUpdate.pretty m)).fault = _ :=
      fault_mapM_nodes fun f hf => ih (.fieldUpdate f) (by simp [children, hf]) 0
    simp [Expr.pretty, FieldUpdate.pretties_eq, Node.lack?, Node.visits, Node.children,
      children, he, hfields]
  | enumFromTo start stop =>
    have hstart : ∀ l, (start.pretty m l).fault = _ := ih (.expr start) (by simp [children])
    have hstop : ∀ l, (stop.pretty m l).fault = _ := ih (.expr stop) (by simp [children])
    simp [Expr.pretty, Node.lack?, Node.visits, Node.children, children, hstart, hstop]
  | enumFromThen start next =>
    have hstart : ∀ l, (start.pretty m l).fault = _ := ih (.expr start) (by simp [children])
    have hnext : ∀ l, (next.pretty m l).fault = _ := ih (.expr next) (by simp [children])
    simp [Expr.pretty, Node.lack?, Node.visits, Node.children, children, hstart, hnext]
  | enumFromThenTo start next stop =>
    have hstart : ∀ l, (start.pretty m l).fault = _ := ih (.expr start) (by simp [children])
    have hnext : ∀ l, (next.pretty m l).fault = _ := ih (.expr next) (by simp [children])
    have hstop : ∀ l, (stop.pretty m l).fault = _ := ih (.expr stop) (by simp [children])
    simp [Expr.pretty, Node.lack?, Node.visits, Node.children, children, hstart, hnext, hstop]
  | listComp e quals =>
    have he : ∀ l, (e.pretty m l).fault = _ := ih (.expr e) (by simp [children])
    have hquals : (quals.mapM (Stmt.pretty m)).fault = _ :=
      fault_mapM_nodes fun s hs => ih (.stmt s) (by simp [children, hs]) 0
    rw [Expr.pretty, Stmt.pretties_eq]
    apply fault_guard
    simp [Node.visits, Node.children, children, he, hquals]
  | typed loc e ty =>
    have he : ∀ l, (e.pretty m l).fault = _ := ih (.expr e) (by simp [children])
    have hty : (ty.pretty m).fault = _ := ih (.qualType ty) (by simp [children]) 0
    simp [Expr.pretty, Node.lack?, Node.visits, Node.children, children, he, hty]
  | asPat name e =>
    have he : ∀ l, (e.pretty m l).fault = _ := ih (.expr e) (by simp [children])
    have hfault : ((Expr.asPat name e).pretty m level).fault = (e.pretty m 4).fault := by
      cases e <;> simp [Expr.pretty]
    simp [Node.lack?, Node.visits, Node.children, children, hfault, he]

theorem Stmt.fault_pretty {s : Stmt} (ih : ∀ c ∈ s.children, c.NotesFirst m) :
    (s.pretty m).fault = (Node.stmt s).firstFault? := by
  rw [Node.firstFault?_eq]
  cases s with
  | generator loc pat e =>
    have hpat : ∀ l, (pat.pretty m l).fault = _ := ih (.pat pat) (by simp [children])
    have he : ∀ l, (e.pretty m l).fault = _ := ih (.expr e) (by simp [children])
    simp [Stmt.pretty, Node.lack?, Node.visits, Node.children, children, hpat, he]
  | qualifier e =>
    have he : ∀ l, (e.pretty m l).fault = _ := ih (.expr e) (by simp [children])
    simp [Stmt.pretty, Node.lack?, Node.visits, Node.children, children, he]
  | letStmt decls =>
    have hdecls : (Decl.pretties m decls).fault = _ :=
      Decl.fault_pretties fun d hd => ih (.decl d) (by simp [children, hd])
    simp [Stmt.pretty, Node.lack?, Node.visits, Node.children, children, hdecls]

theorem FieldUpdate.fault_pretty {f : FieldUpdate} (ih : ∀ c ∈ f.children, c.NotesFirst m) :
    (f.pretty m).fault = (Node.fieldUpdate f).firstFault? := by
  rw [Node.firstFault?_eq]
  cases f with
  | mk field e =>
    have he : ∀ l, (e.pretty m l).fault = _ := ih (.expr e) (by simp [children])
    simp [FieldUpdate.pretty, Node.lack?, Node.visits, Node.children, children, he]

theorem Alt.fault_pretty {a : Alt} (ih : ∀ c ∈ a.children, c.NotesFirst m) :
    (a.pretty m).fault = (Node.alt a).firstFault? := by
  rw [Node.firstFault?_eq]
  cases a with
  | mk loc pat alts wheres =>
    have hpat : ∀ l, (pat.pretty m l).fault = _ := ih (.pat pat) (by simp [children])
    have halts : (alts.pretty m).fault = _ := ih (.guardedAlts alts) (by simp [children]) 0
    have hwheres : (Decl.pretties m wheres).fault = _ :=
      Decl.fault_pretties fun d hd => ih (.decl d) (by simp [children, hd])
    simp [Alt.pretty, Node.lack?, Node.visits, Node.children, children, hpat, halts, hwheres]

theorem GuardedAlts.fault_pretty {g : GuardedAlts} (ih : ∀ c ∈ g.children, c.NotesFirst m) :
    (g.pretty m).fault = (Node.guardedAlts g).firstFault? := by
  rw [Node.firstFault?_eq]
  cases g with
  | unguarded e =>
    have he : ∀ l, (e.pretty m l).fault = _ := ih (.expr e) (by simp [children])
    simp [GuardedAlts.pretty, Node.lack?, Node.visits, Node.children, children, he]
  | guarded alts =>
    have halts : (alts.mapM (GuardedAlt.pretty m)).fault = _ :=
      fault_mapM_nodes fun a ha => ih (.guardedAlt a) (by simp [children, ha]) 0
    rw [GuardedAlts.pretty, GuardedAlt.pretties_eq]
    apply fault_guard
    simp [Node.visits, Node.children, children, halts]

theorem GuardedAlt.fault_pretty {g : GuardedAlt} (ih : ∀ c ∈ g.children, c.NotesFirst m) :
    (g.pretty m).fault = (Node.guardedAlt g).firstFault? := by
  rw [Node.firstFault?_eq]
  cases g with
  | mk loc guard e =>
    have hguard : ∀ l, (guard.pretty m l).fault = _ := ih (.expr guard) (by simp [children])
    have he : ∀ l, (e.pretty m l).fault = _ := ih (.expr e) (by simp [children])
    simp [GuardedAlt.pretty, Node.lack?, Node.visits, Node.children, children, hguard, he]

/-! ### Declarations -/

theorem FieldDecl.fault_pretty {f : FieldDecl}
    (ih : ∀ c ∈ (Node.fieldDecl f).children, c.NotesFirst m) :
    (f.pretty m).fault = (Node.fieldDecl f).firstFault? := by
  have hty : ∀ l, (f.ty.pretty m l).fault = _ := ih (.bangType f.ty) (by simp [Node.children])
  rw [Node.firstFault?_eq, FieldDecl.pretty]
  simp [Node.lack?, Node.visits, Node.children, Node.findSome?_eq_none Node.firstFault?_name, hty]

theorem ConDecl.fault_pretty {c : ConDecl} (ih : ∀ t ∈ c.children, t.NotesFirst m) :
    (c.pretty m).fault = (Node.conDecl c).firstFault? := by
  rw [Node.firstFault?_eq]
  cases c with
  | positional loc name args =>
    have hargs : ∀ l, (args.mapM (BangType.pretty m l)).fault = _ := fun l =>
      fault_mapM_nodes fun b hb => ih (.bangType b) (by simp [children, hb]) l
    have hfault : ((ConDecl.positional loc name args).pretty m).fault =
        (args.mapM (BangType.pretty m 1)).fault := by
      have happlied :
          (do return m.sepFirst (name.doc :: (← args.mapM (BangType.pretty m 2))) :
            Checked Doc).fault = (args.mapM (BangType.pretty m 1)).fault := by
        simp [hargs]
      -- two arguments are printed in turn also where the name stands between them
      rcases args with _ | ⟨left, _ | ⟨right, _ | ⟨third, rest⟩⟩⟩
      · exact happlied
      · exact happlied
      · by_cases h : name.isSymbolic
        · simp [ConDecl.pretty, h]
        · simpa [ConDecl.pretty, h] using happlied
      · exact happlied
    simp [Node.lack?, Node.visits, Node.children, children, hfault, hargs]
  | record loc name fields =>
    have hfields : (fields.mapM (FieldDecl.pretty m)).fault = _ :=
      fault_mapM_nodes fun f hf => ih (.fieldDecl f) (by simp [children, hf]) 0
    simp [ConDecl.pretty, Node.lack?, Node.visits, Node.children, children, hfields]

theorem Rhs.fault_pretty {r : Rhs} (ih : ∀ c ∈ r.children, c.NotesFirst m) :
    (r.pretty m).fault = (Node.rhs r).firstFault? := by
  rw [Node.firstFault?_eq]
  cases r with
  | unguarded e =>
    have he : ∀ l, (e.pretty m l).fault = _ := ih (.expr e) (by simp [children])
    simp [Rhs.pretty, Node.lack?, Node.visits, Node.children, children, he]
  | guarded rhss =>
    have hrhss : (rhss.mapM (GuardedRhs.pretty m)).fault = _ :=
      fault_mapM_nodes fun r hr => ih (.guardedRhs r) (by simp [children, hr]) 0
    rw [Rhs.pretty, GuardedRhs.pretties_eq]
    apply fault_guard
    simp [Node.visits, Node.children, children, hrhss]

theorem GuardedRhs.fault_pretty {g : GuardedRhs} (ih : ∀ c ∈ g.children, c.NotesFirst m) :
    (g.pretty m).fault = (Node.guardedRhs g).firstFault? := by
  rw [Node.firstFault?_eq]
  cases g with
  | mk loc guard e =>
    have hguard : ∀ l, (guard.pretty m l).fault = _ := ih (.expr guard) (by simp [children])
    have he : ∀ l, (e.pretty m l).fault = _ := ih (.expr e) (by simp [children])
    simp [GuardedRhs.pretty, Node.lack?, Node.visits, Node.children, children, hguard, he]

theorem Match.fault_pretty {c : Match} (ih : ∀ t ∈ c.children, t.NotesFirst m) :
    (c.pretty m).fault = (Node.clause c).firstFault? := by
  rw [Node.firstFault?_eq]
  cases c with
  | mk loc name pats rhs wheres =>
    have hpats : (pats.mapM (Pat.pretty m 2)).fault = _ :=
      fault_mapM_nodes fun p hp => ih (.pat p) (by simp [children, hp]) 2
    have hrhs : (rhs.pretty m).fault = _ := ih (.rhs rhs) (by simp [children]) 0
    have hwheres : (Decl.pretties m wheres).fault = _ :=
      Decl.fault_pretties fun d hd => ih (.decl d) (by simp [children, hd])
    simp [Match.pretty, Pat.pretties_eq, Node.lack?, Node.visits, Node.children, children, hpats,
      hrhs, hwheres]

theorem Decl.fault_pretty {d : Decl} (ih : ∀ c ∈ d.children, c.NotesFirst m) :
    (d.pretty m).fault = (Node.decl d).firstFault? := by
  have hnames := Node.findSome?_eq_none Node.firstFault?_name
  have hderivings := Node.findSome?_eq_none Node.firstFault?_qname
  rw [Node.firstFault?_eq]
  cases d with
  | typeDecl loc name vars ty =>
    have hty : ∀ l, (ty.pretty m l).fault = _ := ih (.ty ty) (by simp [children])
    simp [Decl.pretty, Node.lack?, Node.visits, Node.children, children, hty, hnames]
  | dataDecl loc context name vars cons derivings =>
    have hcontext : (Context.pretty m context).fault = _ :=
      Context.fault_pretty fun a ha => ih (.assertion a) (by simp [children, ha])
    have hcons : (cons.mapM (ConDecl.pretty m)).fault = _ :=
      fault_mapM_nodes fun c hc => ih (.conDecl c) (by simp [children, hc]) 0
    simp [Decl.pretty, Node.lack?, Node.visits, Node.children, children, hcontext, hcons,
      hnames, hderivings]
  | newtypeDecl loc context name vars con derivings =>
    have hcontext : (Context.pretty m context).fault = _ :=
      Context.fault_pretty fun a ha => ih (.assertion a) (by simp [children, ha])
    have hcon : (con.pretty m).fault = _ := ih (.conDecl con) (by simp [children]) 0
    simp [Decl.pretty, Node.lack?, Node.visits, Node.children, children, hcontext, hcon,
      hnames, hderivings]
  | infixDecl loc assoc prec ops =>
    have hops := Node.findSome?_eq_none Node.firstFault?_op ops
    rw [Decl.pretty]
    apply fault_guard
    simp [Node.visits, Node.children, children, hops]
  | classDecl loc context name vars decls =>
    have hcontext : (Context.pretty m context).fault = _ :=
      Context.fault_pretty fun a ha => ih (.assertion a) (by simp [children, ha])
    have hdecls : (Decl.pretties m decls).fault = _ :=
      Decl.fault_pretties fun d hd => ih (.decl d) (by simp [children, hd])
    simp [Decl.pretty, Node.lack?, Node.visits, Node.children, children, hcontext, hdecls, hnames]
  | instDecl loc context className types decls =>
    have htypes : (types.mapM (Ty.pretty m 2)).fault = _ :=
      fault_mapM_nodes fun t ht => ih (.ty t) (by simp [children, ht]) 2
    have hcontext : (Context.pretty m context).fault = _ :=
      Context.fault_pretty fun a ha => ih (.assertion a) (by simp [children, ha])
    have hdecls : (Decl.pretties m decls).fault = _ :=
      Decl.fault_pretties fun d hd => ih (.decl d) (by simp [children, hd])
    simp [Decl.pretty, Ty.pretties_eq, Node.lack?, Node.visits, htypes, hcontext, hdecls]
  | defaultDecl loc types =>
    have htypes : (types.mapM (Ty.pretty m 0)).fault = _ :=
      fault_mapM_nodes fun t ht => ih (.ty t) (by simp [children, ht]) 0
    simp [Decl.pretty, Ty.pretties_eq, Node.lack?, Node.visits, Node.children, children, htypes]
  | typeSig loc names ty =>
    have hty : (ty.pretty m).fault = _ := ih (.qualType ty) (by simp [children]) 0
    rw [Decl.pretty]
    apply fault_guard
    simp [Node.visits, Node.children, children, hty, hnames]
  | foreignImport loc callConv safety entity name ty =>
    have hty : ∀ l, (ty.pretty m l).fault = _ := ih (.ty ty) (by simp [children])
    simp [Decl.pretty, Node.lack?, Node.visits, Node.children, children, hty]
  | foreignExport loc callConv entity name ty =>
    have hty : ∀ l, (ty.pretty m l).fault = _ := ih (.ty ty) (by simp [children])
    simp [Decl.pretty, Node.lack?, Node.visits, Node.children, children, hty]
  | funBind clauses =>
    have hclauses : (clauses.mapM (Match.pretty m)).fault = _ :=
      fault_mapM_nodes fun c hc => ih (.clause c) (by simp [children, hc]) 0
    rw [Decl.pretty, Match.pretties_eq]
    apply fault_guard
    simp [Node.visits, Node.children, children, hclauses]
  | patBind loc pat rhs wheres =>
    have hpat : ∀ l, (pat.pretty m l).fault = _ := ih (.pat pat) (by simp [children])
    have hrhs : (rhs.pretty m).fault = _ := ih (.rhs rhs) (by simp [children]) 0
    have hwheres : (Decl.pretties m wheres).fault = _ :=
      Decl.fault_pretties fun d hd => ih (.decl d) (by simp [children, hd])
    simp [Decl.pretty, Node.lack?, Node.visits, Node.children, children, hpat, hrhs, hwheres]

theorem Module.fault_pretty {mod : Module} (ih : ∀ c ∈ (Node.module mod).children, c.NotesFirst m) :
    (mod.pretty m).fault = (Node.module mod).firstFault? := by
  have hexports := Node.findSome?_eq_none Node.firstFault?_exportSpec
  have himports := Node.findSome?_eq_none Node.firstFault?_importDecl mod.imports
  have hdecls : (Decl.pretties m mod.decls).fault = _ :=
    Decl.fault_pretties fun d hd => ih (.decl d) (by simp [Node.children, hd])
  rw [Node.firstFault?_eq, Module.pretty]
  simp [Node.lack?, Node.visits, Node.children, hexports, himports, hdecls]

/-! ### All categories -/

/-- Whatever the mode, printing notes the first fault of a tree. -/
theorem Node.notesFirst (m : Mode) (t : Node) : t.NotesFirst m := by
  induction t using Node.inductOn with
  | step t ih =>
    intro level
    cases t with
    | module node => exact Module.fault_pretty ih
    | decl node => exact Decl.fault_pretty ih
    | conDecl node => exact ConDecl.fault_pretty ih
    | fieldDecl node => exact FieldDecl.fault_pretty ih
    | bangType node => exact BangType.fault_pretty ih level
    | clause node => exact Match.fault_pretty ih
    | rhs node => exact Rhs.fault_pretty ih
    | guardedRhs node => exact GuardedRhs.fault_pretty ih
    | ty node => exact Ty.fault_pretty ih level
    | qualType node => exact QualType.fault_pretty ih
    | assertion node => exact Assertion.fault_pretty ih
    | pat node => exact Pat.fault_pretty ih level
    | patField node => exact PatField.fault_pretty ih
    | expr node => exact Expr.fault_pretty ih level
    | stmt node => exact Stmt.fault_pretty ih
    | fieldUpdate node => exact FieldUpdate.fault_pretty ih
    | alt node => exact Alt.fault_pretty ih
    | guardedAlts node => exact GuardedAlts.fault_pretty ih
    | guardedAlt node => exact GuardedAlt.fault_pretty ih
    -- the other categories are printed without any test
    | exportSpec | importDecl | importSpecs | importSpec | assoc | safety | name | qname
    | moduleName | op | qop | cname | literal => simp [Node.pretty]

/-- Printing has no fault exactly if the tree is well-formed. -/
theorem Node.fault_eq_none_iff {t : Node} {m : Mode} {level : Nat} :
    (t.pretty m level).fault = none ↔ t.WellFormed := by
  rw [t.notesFirst m level, firstFault?_eq_none_iff]

/-- A well-formed tree has a document. -/
theorem Node.WellFormed.toDoc_eq {t : Node} (ht : t.WellFormed) (m : Mode) (level : Nat) :
    (t.pretty m level).fault = none ∧ t.toDoc m level = .ok (t.pretty m level).value := by
  have hfault : (t.pretty m level).fault = none := fault_eq_none_iff.mpr ht
  exact ⟨hfault, by rw [Node.toDoc, Checked.toExcept, hfault]⟩

theorem Node.isSome_firstFault?_iff {t : Node} :
    t.firstFault?.isSome ↔ ∃ s : Node, s.Inside t ∧ s.lack?.isSome := by
  rw [← not_iff_not, Option.not_isSome_iff_eq_none, firstFault?_eq_none_iff, WellFormed,
    everywhere_iff]
  simp

theorem Node.toDoc_eq_error_iff {t : Node} {m : Mode} {level : Nat} {f : Fault} :
    t.toDoc m level = .error f ↔ t.firstFault? = some f := by
  rw [toDoc, toExcept, t.notesFirst m level]
  cases t.firstFault? <;> simp

theorem Node.print_eq_error_iff {t : Node} {style : Style} {m : Mode} {level : Nat} {f : Fault} :
    t.print style m level = .error f ↔ t.firstFault? = some f := by
  have hdoc : t.print style m level = .error f ↔ t.toDoc m level = .error f := by
    rw [print]
    cases t.toDoc m level <;> simp [bind, Except.bind, pure, Except.pure]
  rw [hdoc, toDoc_eq_error_iff]

/-- Printing fails exactly if some tree inside lacks a part. Then it reports the first fault of the
tree, and does so in a session that has reported all faults before, in every mode, at every level
and on every page. -/
theorem printing_reports_first_fault (t : Node) (m : Mode) (level : Nat) :
    ((∃ f, (Session.print { mode := m } level t).2 = .error f) ↔
      ∃ s : Node, s.Inside t ∧ s.lack?.isSome) ∧
      (∀ f, (Session.print { mode := m } level t).2 = .error f ↔ t.firstFault? = some f) ∧
      ∀ style f, t.print style m level = .error f ↔ t.firstFault? = some f := by
  have hsession : (Session.print { mode := m } level t).2 = t.toDoc m level := rfl
  simp only [hsession, Node.toDoc_eq_error_iff, Node.print_eq_error_iff]
  rw [← Option.isSome_iff_exists, Node.isSome_firstFault?_iff]
  simp

end Syntax

end Offside
