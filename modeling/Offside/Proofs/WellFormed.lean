import Offside.Proofs.Subtrees

/-!
# Well-formed trees

A tree is well-formed if no tree inside it lacks a part that its printed form needs.
-/
namespace Offside.Syntax.Node

/-- What a tree lacks itself, whatever stands inside it. -/
@[simp] def lack? : Node → Option Fault
  | .ty (.tuple elems) => if elems.length < 2 then some (.shortTuple .type elems.length) else none
  | .pat (.tuple elems) =>
    if elems.length < 2 then some (.shortTuple .pattern elems.length) else none
  | .expr (.tuple elems) =>
    if elems.length < 2 then some (.shortTuple .expression elems.length) else none
  | .expr (.lambda _ pats _) => if pats.isEmpty then some .lambdaWithoutPatterns else none
  | .expr (.caseOf _ alts) => if alts.isEmpty then some .emptyCase else none
  | .expr (.doBlock stmts) => if stmts.isEmpty then some .emptyDo else none
  | .expr (.listComp _ quals) => if quals.isEmpty then some .emptyComprehension else none
  | .guardedAlts (.guarded alts) => if alts.isEmpty then some .emptyGuardedAlts else none
  | .rhs (.guarded rhss) => if rhss.isEmpty then some .emptyGuardedRhss else none
  | .decl (.infixDecl _ _ _ ops) => if ops.isEmpty then some .emptyFixityDecl else none
  | .decl (.typeSig _ names _) => if names.isEmpty then some .emptyTypeSignature else none
  | .decl (.funBind clauses) => if clauses.isEmpty then some .emptyFunBind else none
  | _ => none

/-- No tree inside lacks anything. -/
def WellFormed (t : Node) : Prop := t.Everywhere fun s => s.lack? = none

theorem wellFormed_iff {t : Node} :
    t.WellFormed ↔ t.lack? = none ∧ t.children.Forall WellFormed := by
  rw [List.forall_iff_forall_mem]
  constructor
  · rintro ⟨here, below⟩
    exact ⟨here, below⟩
  · rintro ⟨here, below⟩
    exact .intro here below

end Offside.Syntax.Node
