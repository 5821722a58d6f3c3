import Offside.Proofs.OneLine
import Offside.Proofs.SameTokens

/-!
# What stands before an operator

A printed tree ends with one of the trees directly below it, unless a bracket is closed there. From
part to part this leads to all the trees that stand at the end. A function, a binding, a choice or a
type annotation among them takes in what is printed next. Before an operator there is one only at
the end of the right operand of an infix application: then the text is that of another tree, whose
operator is inside.
-/
namespace Offside

open Doc Syntax

/-! ### The part at the end -/

/-- The last of several trees that are printed one after the other. -/
def Syntax.lastOf (members : List Node) : Option (Nat × Node) := members.getLast?.map (0, ·)

/-- The last member of a block, where nothing is written that closes the block. -/
def Mode.lastMember (m : Mode) (members : List Node) : Option (Nat × Node) :=
  if m.layout = .offside then lastOf members else none

namespace Syntax

variable {m : Mode} {level : Nat}

/-- The tree directly below an expression that is printed last, with its level, if no bracket is
closed after it. -/
def Expr.lastPart (m : Mode) (level : Nat) : Expr → Option (Nat × Node)
  | .infixApp _ _ right => if 3 ≤ level then none else some (1, .expr right)
  | .app _ arg => if 4 ≤ level then none else some (4, .expr arg)
  | .neg e => if 3 ≤ level then none else some (3, .expr e)
  | .lambda _ _ body | .letIn _ body => if 2 ≤ level then none else some (0, .expr body)
  | .ifThenElse _ _ no => if 2 ≤ level then none else some (0, .expr no)
  | .caseOf _ alts => if 2 ≤ level then none else m.lastMember (alts.map .alt)
  | .doBlock stmts => if 2 ≤ level then none else m.lastMember (stmts.map .stmt)
  | .typed _ _ ty => if 1 ≤ level then none else some (0, .qualType ty)
  | .asPat _ e | .irrefutable e => some (4, .expr e)
  | _ => none

/-- What is printed last of a right side with the declarations that belong to it. -/
def lastOfBinding (m : Mode) (body : Node) (wheres : List Decl) : Option (Nat × Node) :=
  if wheres.isEmpty then some (0, body) else m.lastMember (wheres.map .decl)

/-- The tree directly below a tree that is printed last, with its level, if no bracket is closed
after it. Types are not followed further: no expression is part of one. -/
def Node.lastPart (m : Mode) (level : Nat) : Node → Option (Nat × Node)
  | .expr e => e.lastPart m level
  | .stmt (.generator _ _ e) | .stmt (.qualifier e) => some (0, .expr e)
  | .stmt (.letStmt decls) => m.lastMember (decls.map .decl)
  | .alt (.mk _ _ alts wheres) => lastOfBinding m (.guardedAlts alts) wheres
  | .guardedAlts (.unguarded e) => some (0, .expr e)
  | .guardedAlts (.guarded alts) => lastOf (alts.map .guardedAlt)
  | .guardedAlt (.mk _ _ e) => some (0, .expr e)
  | .decl (.classDecl _ _ _ _ decls) | .decl (.instDecl _ _ _ _ decls) =>
    m.lastMember (decls.map .decl)
  | .decl (.funBind clauses) => lastOf (clauses.map .clause)
  | .decl (.patBind _ _ right wheres) => lastOfBinding m (.rhs right) wheres
  | .clause (.mk _ _ _ right wheres) => lastOfBinding m (.rhs right) wheres
  | .rhs (.unguarded e) => some (0, .expr e)
  | .rhs (.guarded rhss) => lastOf (rhss.map .guardedRhs)
  | .guardedRhs (.mk _ _ e) => some (0, .expr e)
  | _ => none

/-- At level `j` the first tree stands at the end of the second one at its level. -/
inductive Node.AtEnd (m : Mode) (s : Node) (j : Nat) : Nat → Node → Prop where
  | here : AtEnd m s j j s
  | last {k level : Nat} {c t : Node} (hc : t.lastPart m level = some (k, c))
      (hs : AtEnd m s j k c) :
      AtEnd m s j level t

def Node.tokens (m : Mode) (level : Nat) (t : Node) : List String := (t.pretty m level).value.tokens

end Syntax

/-! ### The tokens at the end -/

theorem suffix_flatMap_tokens {d : Doc} {ds : List Doc} (h : ds.getLast? = some d) :
    d.tokens <:+ ds.flatMap tokens := by
  obtain ⟨es, rfl⟩ := List.getLast?_eq_some_iff.mp h
  rw [List.flatMap_append, List.flatMap_singleton]
  exact List.suffix_append ..

theorem getLast?_punctuate (separator : Doc) (ds : List Doc) :
    (punctuate separator ds).getLast? = ds.getLast? := by
  fun_induction punctuate separator ds with
  | case1 => rfl
  | case2 d => rfl
  | case3 d ds hds ih =>
    obtain ⟨e, es, rfl⟩ := List.exists_cons_of_ne_nil hds
    rw [List.getLast?_cons, ih, List.getLast?_cons_cons, List.getLast?_cons]
    simp

namespace Mode

variable {m : Mode} {ds : List Doc} {d : Doc}

theorem tokens_block_offside (hm : m.layout = .offside) (indent : Nat) :
    (m.block indent ds).tokens = ds.flatMap tokens := by
  simp [tokens_block, memberTokens, hm, Layout.written, Token.isWord]

theorem suffix_block_of_braces (hm : m.layout ≠ .offside) (indent : Nat) :
    ["\x7d"] <:+ (m.block indent ds).tokens := by
  rw [tokens_block, Layout.written_of_ne hm [.mark "\x7d"]]
  exact List.suffix_append ..

theorem suffix_clauses (h : ds.getLast? = some d) : d.tokens <:+ (m.clauses ds).tokens := by
  rw [tokens_clauses, memberTokens]
  split_ifs
  · exact suffix_flatMap_tokens h
  · exact suffix_flatMap_tokens ((getLast?_punctuate _ _).trans h)

theorem getLast?_docs {α : Type} {node : α → Node} {xs : List α} {k : Nat} {c : Node}
    (h : lastOf (xs.map node) = some (k, c)) :
    c ∈ xs.map node ∧ (xs.map fun x => ((node x).pretty m 0).value).getLast? =
      some (c.pretty m k).value := by
  obtain ⟨c, hc, h⟩ := Option.map_eq_some_iff.mp h
  cases h
  refine ⟨List.mem_of_getLast? hc, ?_⟩
  rw [List.getLast?_map] at hc ⊢
  obtain ⟨x, hx, rfl⟩ := Option.map_eq_some_iff.mp hc
  rw [hx, Option.map_some]

/-- The last member of a block that is left open ends the block. -/
theorem suffix_block {α : Type} {node : α → Node} {xs : List α} {k : Nat} {c : Node}
    (h : m.lastMember (xs.map node) = some (k, c)) (indent : Nat) :
    c ∈ xs.map node ∧ c.tokens m k <:+
      (m.block indent (xs.map fun x => ((node x).pretty m 0).value)).tokens := by
  obtain ⟨hm, h⟩ := Option.ite_none_right_eq_some.mp h
  obtain ⟨hc, hlast⟩ := getLast?_docs h
  refine ⟨hc, ?_⟩
  rw [tokens_block_offside hm]
  exact suffix_flatMap_tokens hlast

end Mode

namespace Syntax

variable {m : Mode} {level k : Nat} {c : Node}

theorem suffix_whereClause {d : Doc} {body : Node} {wheres : List Decl}
    (hbody : body.tokens m 0 <:+ d.tokens) (h : lastOfBinding m body wheres = some (k, c)) :
    c ∈ body :: wheres.map .decl ∧
      c.tokens m k <:+
        (m.aboveOrBeside d (m.whereClause (Decl.pretties m wheres).value)).tokens := by
  rw [Decl.pretties_eq, Checked.value_mapM, Mode.tokens_aboveOrBeside, Mode.whereClause]
  cases wheres with
  | nil =>
    cases h
    exact ⟨by simp, by simpa using hbody⟩
  | cons w ws =>
    obtain ⟨hc, hsuffix⟩ := Mode.suffix_block h m.whereIndent
    refine ⟨List.mem_cons_of_mem _ hc, ?_⟩
    rw [if_neg (by simp), tokens_nest, Mode.tokens_aboveOrBeside]
    exact (hsuffix.trans (List.suffix_append ..)).trans (List.suffix_append ..)

/-- The last member of a row ends the row, where it is not in parentheses. -/
theorem suffix_row {bound : Nat} (hlevel : ¬ bound ≤ level) {d : Doc} {ds : List Doc}
    (hd : ds.getLast? = some d) :
    d.tokens <:+ (parensIf (bound ≤ level) (m.fillOnside ds)).tokens := by
  rw [parensIf, if_neg (by simpa using hlevel), Mode.tokens_fillOnside]
  exact suffix_flatMap_tokens hd

theorem suffix_hung {bound : Nat} (hlevel : ¬ bound ≤ level) (d : Doc) {e : Doc} {ss : List String}
    (hss : ss <:+ e.tokens) : ss <:+ (parensIf (bound ≤ level) (m.aboveOrBeside d e)).tokens := by
  rw [parensIf, if_neg (by simpa using hlevel), Mode.tokens_aboveOrBeside]
  exact hss.trans (List.suffix_append ..)

theorem Expr.tokens_asPat (name : Name) (e : Expr) : (Node.expr (.asPat name e)).tokens m level =
    name.doc.tokens ++ (char '@').tokens ++ (Node.expr e).tokens m 4 := by
  cases e with
  | irrefutable e => simp [Node.tokens, Node.pretty, Expr.pretty]
  | _ => exact (tokens_append ..).trans (congrArg (· ++ _) (tokens_append ..))

theorem Expr.lastPart_spec {e : Expr} (here : (Node.expr e).lack? = none)
    (h : e.lastPart m level = some (k, c)) :
    c ∈ e.children ∧ c.tokens m k <:+ (Node.expr e).tokens m level := by
  cases e with
  | infixApp | app | letIn | ifThenElse | typed =>
    obtain ⟨hlevel, h⟩ := Option.ite_none_left_eq_some.mp h
    cases h
    refine ⟨by simp [children], ?_⟩
    rw [Node.tokens.eq_def m level, Node.pretty, Expr.pretty]
    simp only [Checked.value_bind, Checked.value_pure]
    exact suffix_row hlevel rfl
  | neg e =>
    obtain ⟨hlevel, h⟩ := Option.ite_none_left_eq_some.mp h
    cases h
    refine ⟨by simp [children], ?_⟩
    rw [Node.tokens, Node.tokens, Node.pretty, Node.pretty, Expr.pretty]
    simp [parensIf, hlevel, List.suffix_append]
  | lambda loc pats body =>
    obtain ⟨hlevel, h⟩ := Option.ite_none_left_eq_some.mp h
    cases h
    refine ⟨by simp [children], ?_⟩
    rw [Node.tokens, Node.tokens, Node.pretty, Node.pretty, Expr.pretty,
      if_neg (by simpa using here)]
    simp only [Checked.value_bind, Checked.value_pure]
    exact suffix_row hlevel (by simp [List.getLast?_cons])
  | caseOf scrutinee alts =>
    obtain ⟨hlevel, h⟩ := Option.ite_none_left_eq_some.mp h
    obtain ⟨hc, hsuffix⟩ := Mode.suffix_block h m.caseIndent
    refine ⟨List.mem_cons_of_mem _ hc, ?_⟩
    rw [Node.tokens.eq_def m level, Node.pretty, Expr.pretty, if_neg (by simpa using here),
      Alt.pretties_eq]
    simp only [Checked.value_bind, Checked.value_pure, Checked.value_mapM]
    exact suffix_hung hlevel _ hsuffix
  | doBlock stmts =>
    obtain ⟨hlevel, h⟩ := Option.ite_none_left_eq_some.mp h
    obtain ⟨hc, hsuffix⟩ := Mode.suffix_block h m.doIndent
    refine ⟨hc, ?_⟩
    rw [Node.tokens.eq_def m level, Node.pretty, Expr.pretty, if_neg (by simpa using here),
      Stmt.pretties_eq]
    simp only [Checked.value_bind, Checked.value_pure, Checked.value_mapM]
    exact suffix_hung hlevel _ hsuffix
  | asPat name e =>
    cases h
    refine ⟨by simp [children], ?_⟩
    rw [Expr.tokens_asPat]
    exact List.suffix_append ..
  | irrefutable e =>
    cases h
    refine ⟨by simp [children], ?_⟩
    rw [Node.tokens, Node.tokens, Node.pretty, Node.pretty, Expr.pretty]
    simp [List.suffix_append]
  | _ => cases h

theorem Stmt.lastPart_spec {s : Stmt} (h : (Node.stmt s).lastPart m level = some (k, c)) :
    c ∈ s.children ∧ c.tokens m k <:+ (Node.stmt s).tokens m level := by
  cases s with
  | generator loc pat e =>
    cases h
    refine ⟨by simp [children], ?_⟩
    rw [Node.tokens.eq_def m level, Node.pretty, Stmt.pretty]
    simp only [Checked.value_bind, Checked.value_pure, appendSpace, tokens_beside]
    exact List.suffix_append ..
  | qualifier e =>
    cases h
    exact ⟨by simp [children], List.suffix_rfl⟩
  | letStmt decls =>
    obtain ⟨hc, hsuffix⟩ := Mode.suffix_block h m.letIndent
    refine ⟨hc, hsuffix.trans ?_⟩
    rw [Node.tokens, Node.pretty, Stmt.pretty, Decl.pretties_eq]
    simp only [Checked.value_bind, Checked.value_pure, Checked.value_mapM,
      Mode.tokens_aboveOrBeside]
    exact List.suffix_append ..

theorem GuardedAlts.lastPart_spec {a : GuardedAlts} (here : (Node.guardedAlts a).lack? = none)
    (h : (Node.guardedAlts a).lastPart m level = some (k, c)) :
    c ∈ a.children ∧ c.tokens m k <:+ (Node.guardedAlts a).tokens m level := by
  cases a with
  | unguarded e =>
    cases h
    refine ⟨by simp [children], ?_⟩
    rw [Node.tokens, Node.tokens, Node.pretty, Node.pretty, GuardedAlts.pretty]
    simp [appendSpace, List.suffix_append]
  | guarded alts =>
    obtain ⟨hc, hlast⟩ := Mode.getLast?_docs h
    refine ⟨hc, ?_⟩
    rw [Node.tokens.eq_def m level, Node.pretty, GuardedAlts.pretty, if_neg (by simpa using here),
      GuardedAlt.pretties_eq]
    simp only [Checked.value_bind, Checked.value_pure, Checked.value_mapM, Mode.tokens_lines]
    exact suffix_flatMap_tokens hlast

theorem Rhs.lastPart_spec {r : Rhs} (here : (Node.rhs r).lack? = none)
    (h : (Node.rhs r).lastPart m level = some (k, c)) :
    c ∈ r.children ∧ c.tokens m k <:+ (Node.rhs r).tokens m level := by
  cases r with
  | unguarded e =>
    cases h
    refine ⟨by simp [children], ?_⟩
    rw [Node.tokens, Node.tokens, Node.pretty, Node.pretty, Rhs.pretty]
    simp [appendSpace, List.suffix_append]
  | guarded rhss =>
    obtain ⟨hc, hlast⟩ := Mode.getLast?_docs h
    refine ⟨hc, ?_⟩
    rw [Node.tokens.eq_def m level, Node.pretty, Rhs.pretty, if_neg (by simpa using here),
      GuardedRhs.pretties_eq]
    simp only [Checked.value_bind, Checked.value_pure, Checked.value_mapM, Mode.tokens_lines]
    exact suffix_flatMap_tokens hlast

theorem Decl.lastPart_spec {d : Decl} (here : (Node.decl d).lack? = none)
    (h : (Node.decl d).lastPart m level = some (k, c)) :
    c ∈ d.children ∧ c.tokens m k <:+ (Node.decl d).tokens m level := by
  cases d with
  | classDecl | instDecl =>
    obtain ⟨hc, hsuffix⟩ := Mode.suffix_block h m.classIndent
    refine ⟨by simp [children, hc], hsuffix.trans ?_⟩
    rw [Node.tokens.eq_def m level, Node.pretty, Decl.pretty, Decl.pretties_eq]
    simp only [Checked.value_bind, Checked.value_pure, Checked.value_mapM, Mode.tokens_blankLine,
      Mode.tokens_markLine, classDoc, Mode.tokens_aboveOrBeside]
    exact List.suffix_append ..
  | funBind clauses =>
    obtain ⟨hc, hlast⟩ := Mode.getLast?_docs h
    refine ⟨hc, ?_⟩
    rw [Node.tokens.eq_def m level, Node.pretty, Decl.pretty, if_neg (by simpa using here),
      Match.pretties_eq]
    simp only [Checked.value_bind, Checked.value_pure, Checked.value_mapM]
    exact Mode.suffix_clauses hlast
  | patBind loc pat rhs wheres =>
    have hrow : (Node.rhs rhs).tokens m 0 <:+
        (m.fillOnside [(pat.pretty m 0).value, (rhs.pretty m).value]).tokens := by
      rw [Mode.tokens_fillOnside]
      exact suffix_flatMap_tokens rfl
    obtain ⟨hc, hsuffix⟩ := suffix_whereClause hrow h
    refine ⟨List.mem_cons_of_mem _ hc, ?_⟩
    rw [Node.tokens.eq_def m level, Node.pretty, Decl.pretty]
    simp only [Checked.value_bind, Checked.value_pure, Mode.tokens_markLine]
    exact hsuffix
  | _ => cases h

/-- The tree that is printed last is directly below, and its tokens are the last ones. -/
theorem Node.lastPart_spec {t : Node} (here : t.lack? = none)
    (h : t.lastPart m level = some (k, c)) :
    c ∈ t.children ∧ c.tokens m k <:+ t.tokens m level := by
  cases t with
  | expr e => exact Expr.lastPart_spec here h
  | stmt s => exact Stmt.lastPart_spec h
  | alt a =>
    obtain ⟨loc, pat, alts, wheres⟩ := a
    have hrow : (Node.guardedAlts alts).tokens m 0 <:+
        (m.fillOnside [(pat.pretty m 0).value, (alts.pretty m).value]).tokens := by
      rw [Mode.tokens_fillOnside]
      exact suffix_flatMap_tokens rfl
    obtain ⟨hc, hsuffix⟩ := suffix_whereClause hrow h
    refine ⟨List.mem_cons_of_mem _ hc, ?_⟩
    rw [Node.tokens.eq_def m level, Node.pretty, Alt.pretty]
    simp only [Checked.value_bind, Checked.value_pure]
    exact hsuffix
  | guardedAlts a => exact GuardedAlts.lastPart_spec here h
  | guardedAlt a =>
    obtain ⟨loc, guard, e⟩ := a
    cases h
    refine ⟨by simp [children, GuardedAlt.children], ?_⟩
    rw [Node.tokens.eq_def m level, Node.pretty, GuardedAlt.pretty]
    simp only [Checked.value_bind, Checked.value_pure, Mode.tokens_fillOnside]
    exact suffix_flatMap_tokens rfl
  | decl d => exact Decl.lastPart_spec here h
  | clause cl =>
    obtain ⟨loc, name, pats, rhs, wheres⟩ := cl
    have hrow : (Node.rhs rhs).tokens m 0 <:+
        (m.fillOnside (clauseHead m name (Pat.pretties m 2 pats).value ++
        [(rhs.pretty m).value])).tokens := by
      rw [Mode.tokens_fillOnside]
      exact suffix_flatMap_tokens List.getLast?_concat
    obtain ⟨hc, hsuffix⟩ := suffix_whereClause hrow h
    refine ⟨List.mem_append_right _ hc, ?_⟩
    rw [Node.tokens.eq_def m level, Node.pretty, Match.pretty]
    simp only [Checked.value_bind, Checked.value_pure, Mode.tokens_markLine]
    exact hsuffix
  | rhs r => exact Rhs.lastPart_spec here h
  | guardedRhs r =>
    obtain ⟨loc, guard, e⟩ := r
    cases h
    refine ⟨by simp [children, GuardedRhs.children], ?_⟩
    rw [Node.tokens.eq_def m level, Node.pretty, GuardedRhs.pretty]
    simp only [Checked.value_bind, Checked.value_pure, Mode.tokens_fillOnside]
    exact suffix_flatMap_tokens rfl
  | _ => cases h

/-- Whatever a well-formed tree ends with is well-formed, and its tokens are the last ones of the
tree. -/
theorem Node.AtEnd.suffix {s t : Node} {j level : Nat} (h : AtEnd m s j level t)
    (ht : t.WellFormed) : s.WellFormed ∧ s.tokens m j <:+ t.tokens m level := by
  induction h with
  | here => exact ⟨ht, List.suffix_rfl⟩
  | last hc hs ih =>
    obtain ⟨here, below⟩ := ht
    obtain ⟨hmem, hsuffix⟩ := Node.lastPart_spec here hc
    obtain ⟨hwell, hlast⟩ := ih (below _ hmem)
    exact ⟨hwell, hlast.trans hsuffix⟩

/-! ### Brackets at the end -/

/-- A name, a literal or a wildcard. -/
def Expr.isAtom : Expr → Bool
  | .var _ | .con _ | .lit _ | .wildcard => true
  | _ => false

/-- The last token closes a bracket. -/
def Closes (ss : List String) : Prop := ∃ s ∈ [")", "]", "\x7d"], [s] <:+ ss

namespace Closes

variable {ss : List String}

theorem append (h : Closes ss) (rs : List String) : Closes (rs ++ ss) := by
  obtain ⟨s, hs, hsuffix⟩ := h
  exact ⟨s, hs, hsuffix.trans (List.suffix_append ..)⟩

theorem parens (d : Doc) : Closes d.parens.tokens := by
  refine ⟨")", by simp, ?_⟩
  rw [Doc.parens, tokens_append]
  exact List.suffix_append ..

theorem brackets (d : Doc) : Closes d.brackets.tokens := by
  refine ⟨"]", by simp, ?_⟩
  rw [Doc.brackets, tokens_append]
  exact List.suffix_append ..

theorem braces (d : Doc) : Closes d.braces.tokens := by
  refine ⟨"\x7d", by simp, ?_⟩
  rw [Doc.braces, tokens_append]
  exact List.suffix_append ..

/-- What would end with a part of it, were it not in parentheses. -/
theorem parensIf {bound level : Nat} {part : Nat × Node}
    (h : (if bound ≤ level then none else some part) = none) (d : Doc) :
    Closes (Doc.parensIf (bound ≤ level) d).tokens := by
  by_cases hlevel : bound ≤ level
  · rw [Doc.parensIf, if_pos (by simpa using hlevel)]
    exact .parens d
  · rw [if_neg hlevel] at h
    cases h

/-- In parentheses or with braces, a form with a block closes a bracket at its end. -/
theorem hung {bound level : Nat} {members : List Node} (hne : members ≠ [])
    (h : (if bound ≤ level then none else m.lastMember members) = none) (d : Doc) (indent : Nat)
    (ds : List Doc) :
    Closes (Doc.parensIf (bound ≤ level) (m.aboveOrBeside d (m.block indent ds))).tokens := by
  by_cases hlevel : bound ≤ level
  · rw [Doc.parensIf, if_pos (by simpa using hlevel)]
    exact .parens _
  · rw [if_neg hlevel] at h
    have hm : m.layout ≠ .offside := by
      intro hm
      rw [Mode.lastMember, if_pos hm, lastOf, Option.map_eq_none_iff,
        List.getLast?_eq_none_iff] at h
      exact hne h
    rw [Doc.parensIf, if_neg (by simpa using hlevel), Mode.tokens_aboveOrBeside]
    exact append ⟨"\x7d", by simp, Mode.suffix_block_of_braces hm indent⟩ _

end Closes

/-- An expression that does not end with a part of it is an atom or closes a bracket at its end. -/
theorem Expr.closes_of_lastPart {e : Expr} (here : (Node.expr e).lack? = none)
    (h : e.lastPart m level = none) : e.isAtom ∨ Closes ((Node.expr e).tokens m level) := by
  cases e with
  | var | con | lit | wildcard => exact .inl rfl
  | infixApp | app | neg | letIn | ifThenElse | typed =>
    exact .inr (.parensIf h _)
  | lambda loc pats body =>
    rw [Node.tokens, Node.pretty, Expr.pretty, if_neg (by simpa using here)]
    exact .inr (.parensIf h _)
  | caseOf scrutinee alts =>
    rw [Node.tokens, Node.pretty, Expr.pretty, if_neg (by simpa using here)]
    exact .inr (.hung (by simpa using here) h _ _ _)
  | doBlock stmts =>
    rw [Node.tokens, Node.pretty, Expr.pretty, if_neg (by simpa using here)]
    exact .inr (.hung (by simpa using here) h _ _ _)
  | tuple elems =>
    rw [Node.tokens, Node.pretty, Expr.pretty, if_neg (by simpa using here)]
    exact .inr (.parens _)
  | paren | leftSection | rightSection => exact .inr (.parens _)
  | list | enumFrom | enumFromTo | enumFromThen | enumFromThenTo => exact .inr (.brackets _)
  | listComp e quals =>
    rw [Node.tokens, Node.pretty, Expr.pretty, if_neg (by simpa using here)]
    exact .inr (.brackets _)
  | recConstr con fields =>
    rw [Node.tokens, Node.pretty, Expr.pretty, Checked.value_bind, Checked.value_pure,
      tokens_append]
    exact .inr (.append (.braces _) _)
  | recUpdate e fields =>
    rw [Node.tokens, Node.pretty, Expr.pretty, Checked.value_bind, Checked.value_bind,
      Checked.value_pure, tokens_append]
    exact .inr (.append (.braces _) _)
  | asPat | irrefutable => cases h

/-! ### Open forms -/

namespace Expr

/-- A function, a binding or a choice, whose last part goes on as far as it can. -/
def isOpen : Expr → Bool
  | .lambda .. | .letIn .. | .ifThenElse .. => true
  | _ => false

def isTyped : Expr → Bool
  | .typed .. => true
  | _ => false

def isInfix : Expr → Bool
  | .infixApp .. => true
  | _ => false

/-- At this level the expression takes in what is printed next. -/
def takesNext (level : Nat) (e : Expr) : Bool := e.isOpen && level < 2 || e.isTyped && level < 1

/-- At this level the expression is printed as a type annotation. -/
def annotates (level : Nat) (e : Expr) : Bool := e.isTyped && level < 1

/-- The operand after the last operator of a chain. -/
def lastOperand : Expr → Expr
  | .infixApp _ _ right => right.lastOperand
  | e => e

end Expr

/-- An expression that stands at the end of a tree has the property at its level. -/
def Node.Reaches (m : Mode) (P : Nat → Expr → Bool) (level : Nat) (t : Node) : Prop :=
  ∃ j e, AtEnd m (.expr e) j level t ∧ P j e

namespace Node.Reaches

variable {P : Nat → Expr → Bool} {level : Nat}

theorem iff_lastPart {t : Node} : t.Reaches m P level ↔
    (∃ e, t = .expr e ∧ P level e) ∨ ∃ k c, t.lastPart m level = some (k, c) ∧ c.Reaches m P k := by
  constructor
  · rintro ⟨j, e, hend, he⟩
    cases hend with
    | here => exact .inl ⟨e, rfl, he⟩
    | last hc hs => exact .inr ⟨_, _, hc, j, e, hs, he⟩
  · rintro (⟨e, rfl, he⟩ | ⟨k, c, hc, j, e, hs, he⟩)
    · exact ⟨level, e, .here, he⟩
    · exact ⟨j, e, .last hc hs, he⟩

theorem expr_iff {e : Expr} : (Node.expr e).Reaches m P level ↔
    P level e ∨ ∃ k c, e.lastPart m level = some (k, c) ∧ c.Reaches m P k :=
  iff_lastPart.trans (or_congr (by simp) Iff.rfl)

end Node.Reaches

/-- The part at the end is the right operand of a chain, the last part of a form that goes on, or
something that is written so tightly that it needs parentheses unless it is tight itself. -/
theorem Expr.lastPart_cases {e : Expr} {k : Nat} {c : Node} (h : e.lastPart m level = some (k, c)) :
    (∃ left op right, e = .infixApp left op right ∧ k = 1 ∧ c = .expr right ∧ level < 3) ∨
      k = 0 ∧ level < 2 ∨ 3 ≤ k ∧ ∃ f, c = .expr f := by
  cases e with
  | infixApp left op right =>
    obtain ⟨hlevel, h⟩ := Option.ite_none_left_eq_some.mp h
    cases h
    exact .inl ⟨left, op, right, rfl, rfl, rfl, by omega⟩
  | app | neg =>
    obtain ⟨-, h⟩ := Option.ite_none_left_eq_some.mp h
    cases h
    exact .inr (.inr ⟨by decide, _, rfl⟩)
  | lambda | letIn | ifThenElse | typed =>
    obtain ⟨hlevel, h⟩ := Option.ite_none_left_eq_some.mp h
    cases h
    exact .inr (.inl ⟨rfl, by omega⟩)
  | caseOf | doBlock =>
    obtain ⟨hlevel, h⟩ := Option.ite_none_left_eq_some.mp h
    obtain ⟨-, h⟩ := Option.ite_none_right_eq_some.mp h
    obtain ⟨c, -, h⟩ := Option.map_eq_some_iff.mp h
    cases h
    exact .inr (.inl ⟨rfl, by omega⟩)
  | asPat | irrefutable =>
    cases h
    exact .inr (.inr ⟨by decide, _, rfl⟩)
  | _ => cases h

/-- At the end of a function or an argument everything is tight. -/
theorem Node.AtEnd.three_le {s t : Node} {j level : Nat} (h : AtEnd m s j level t)
    (hlevel : 3 ≤ level) {e : Expr} (ht : t = .expr e) : 3 ≤ j := by
  induction h generalizing e with
  | here => exact hlevel
  | last hc hs ih =>
    subst ht
    rcases Expr.lastPart_cases hc with ⟨-, -, -, -, -, -, hlow⟩ | ⟨-, hlow⟩ | ⟨hk, f, hf⟩
    · omega
    · omega
    · exact ih hk hf

namespace Node.Reaches

variable {P : Nat → Expr → Bool} (hP : ∀ j e, P j e → j < 2 ∧ e.isInfix = false)
include hP

theorem not_of_three_le {e : Expr} (hlevel : 3 ≤ level) : ¬ (Node.expr e).Reaches m P level := by
  rintro ⟨j, f, hend, hf⟩
  have hj := hend.three_le hlevel rfl
  have hlow := (hP j f hf).1
  omega

theorem infixApp_iff {left right : Expr} {op : QOp} (hlevel : level < 3) :
    (Node.expr (.infixApp left op right)).Reaches m P level ↔ (Node.expr right).Reaches m P 1 := by
  have hpart : (Expr.infixApp left op right).lastPart m level = some (1, .expr right) :=
    if_neg (by omega)
  have hnot : P level (.infixApp left op right) = false :=
    Bool.eq_false_iff.mpr fun h => by simpa [Expr.isInfix] using (hP _ _ h).2
  rw [expr_iff, hpart, hnot]
  simp

/-- Before an operator only a chain is open at its end. -/
theorem two_iff {e : Expr} : (Node.expr e).Reaches m P 2 ↔
    e.isInfix ∧ (Node.expr e).Reaches m P 1 := by
  by_cases he : e.isInfix
  · cases e <;> simp [Expr.isInfix] at he
    simp [infixApp_iff hP, Expr.isInfix]
  · refine iff_of_false ?_ (by simp [he])
    rw [expr_iff]
    rintro (h | ⟨k, c, hc, hreach⟩)
    · have hlow := (hP _ _ h).1
      omega
    · rcases Expr.lastPart_cases hc with ⟨left, op, right, rfl, -⟩ | ⟨-, hlow⟩ | ⟨hk, f, rfl⟩
      · exact he rfl
      · omega
      · exact not_of_three_le hP hk hreach

/-- After an operator a chain is open at its end as its last operand is. -/
theorem one_iff (e : Expr) : (Node.expr e).Reaches m P 1 ↔
    P 1 e.lastOperand ∨ ∃ c, e.lastOperand.lastPart m 1 = some (0, c) ∧ c.Reaches m P 0 := by
  fun_induction Expr.lastOperand e with
  | case1 left op right ih => rw [infixApp_iff hP (by decide), ih]
  | case2 e hchain =>
    rw [expr_iff]
    apply or_congr Iff.rfl
    constructor
    · rintro ⟨k, c, hc, hreach⟩
      rcases Expr.lastPart_cases hc with ⟨left, op, right, rfl, -⟩ | ⟨rfl, -⟩ | ⟨hk, f, rfl⟩
      · exact absurd rfl (hchain left op right)
      · exact ⟨c, hc, hreach⟩
      · exact absurd hreach (not_of_three_le hP hk)
    · rintro ⟨c, hc, hreach⟩
      exact ⟨0, c, hc, hreach⟩

end Node.Reaches

/-- The members of the block that an expression ends with. -/
def Expr.members : Expr → List Node
  | .caseOf _ alts => alts.map .alt
  | .doBlock stmts => stmts.map .stmt
  | _ => []

theorem Expr.lastPart_one_of_not_open {e : Expr} (he : e.isOpen = false) {c : Node} :
    e.lastPart m 1 = some (0, c) ↔ m.lastMember e.members = some (0, c) := by
  cases e with
  | lambda | letIn | ifThenElse => cases he
  | _ => simp [lastPart, members, Mode.lastMember, lastOf]

theorem Expr.isInfix_of_isOpen {e : Expr} (he : e.isOpen) : e.isInfix = false := by
  cases e with
  | infixApp => cases he
  | _ => rfl

theorem Expr.isInfix_of_isTyped {e : Expr} (he : e.isTyped) : e.isInfix = false := by
  cases e with
  | infixApp => cases he
  | _ => rfl

/-- Before an operator something takes in what follows only at the end of a chain: its last operand
is a function, a binding or a choice, or a block that nothing closes and that ends so. -/
theorem Node.reaches_takesNext_iff {e : Expr} : (Node.expr e).Reaches m Expr.takesNext 2 ↔
    e.isInfix ∧ (e.lastOperand.isOpen ∨
      ∃ c, m.lastMember e.lastOperand.members = some (0, c) ∧ c.Reaches m Expr.takesNext 0) := by
  have hP : ∀ j e, Expr.takesNext j e → j < 2 ∧ e.isInfix = false := by
    intro j e h
    simp only [Expr.takesNext, Bool.or_eq_true, Bool.and_eq_true, decide_eq_true_eq] at h
    rcases h with ⟨hopen, hj⟩ | ⟨htyped, hj⟩
    · exact ⟨hj, Expr.isInfix_of_isOpen hopen⟩
    · exact ⟨by omega, Expr.isInfix_of_isTyped htyped⟩
  have hone (f : Expr) : Expr.takesNext 1 f = f.isOpen := by simp [Expr.takesNext]
  rw [Reaches.two_iff hP, Reaches.one_iff hP, hone]
  by_cases hopen : e.lastOperand.isOpen
  · simp [hopen]
  · simp [hopen, Expr.lastPart_one_of_not_open]

theorem Expr.lastPart_zero {e : Expr} (he : e.isTyped = false) :
    e.lastPart m 0 = e.lastPart m 1 := by
  cases e with
  | typed => cases he
  | _ => rfl

/-- A guard ends in a type annotation if it is one, or if its last operand goes on to one. -/
theorem Node.reaches_annotates_iff {e : Expr} : (Node.expr e).Reaches m Expr.annotates 0 ↔
    e.isTyped ∨ ∃ c, e.lastOperand.lastPart m 1 = some (0, c) ∧ c.Reaches m Expr.annotates 0 := by
  have hP : ∀ j e, Expr.annotates j e → j < 2 ∧ e.isInfix = false := by
    intro j e h
    simp only [Expr.annotates, Bool.and_eq_true, decide_eq_true_eq] at h
    exact ⟨by omega, Expr.isInfix_of_isTyped h.1⟩
  have hone (f : Expr) : Expr.annotates 1 f = false := by simp [Expr.annotates]
  -- but for an annotation, which is in parentheses there, an expression ends after an operator as
  -- it does anywhere
  have hzero : (Node.expr e).Reaches m Expr.annotates 0 ↔
      e.isTyped ∨ (Node.expr e).Reaches m Expr.annotates 1 := by
    rw [Reaches.expr_iff, Reaches.expr_iff]
    by_cases he : e.isTyped
    · simp [he, Expr.annotates]
    · simp [he, Expr.annotates, Expr.lastPart_zero (by simpa using he)]
  rw [hzero, Reaches.one_iff hP, hone]
  simp

/-! ### Operators that move inside -/

namespace Expr

/-- The operator and its right operand inside the form that the expression ends with. -/
def extend (op : QOp) (right : Expr) : Expr → Expr
  | .infixApp l o r => .infixApp l o (extend op right r)
  | .lambda loc pats body => .lambda loc pats (extend op right body)
  | .letIn decls body => .letIn decls (extend op right body)
  | .ifThenElse cond yes no => .ifThenElse cond yes (extend op right no)
  | e => .infixApp e op right

/-- What stands at the end of an expression that goes on. -/
def tip : Expr → Expr
  | .infixApp _ _ right => right.tip
  | .lambda _ _ body | .letIn _ body => body.tip
  | .ifThenElse _ _ no => no.tip
  | e => e

/-- Not a form that is written otherwise before an operator than by itself. -/
def isLoose (e : Expr) : Bool := !e.isOpen && !e.isTyped && e.members.isEmpty

theorem tokens_infixApp (left right : Expr) (op : QOp) (hlevel : level < 3) :
    (Node.expr (.infixApp left op right)).tokens m level =
      (Node.expr left).tokens m 2 ++ op.doc.tokens ++ (Node.expr right).tokens m 1 := by
  rw [Node.tokens, Node.pretty, Expr.pretty]
  simp [parensIf, Nat.not_le.mpr hlevel, Node.tokens, Node.pretty]

theorem tokens_lambda {pats : List Pat} (hpats : pats ≠ []) (loc : Location) (body : Expr)
    (hlevel : level < 2) :
    (Node.expr (.lambda loc pats body)).tokens m level =
      (char '\\').tokens ++ (Pat.pretties m 2 pats).value.flatMap tokens ++ (text "->").tokens ++
        (Node.expr body).tokens m 0 := by
  rw [Node.tokens, Node.pretty, Expr.pretty, if_neg (by simpa using hpats)]
  simp [parensIf, Nat.not_le.mpr hlevel, Node.tokens, Node.pretty]

theorem tokens_letIn (decls : List Decl) (body : Expr) (hlevel : level < 2) :
    (Node.expr (.letIn decls body)).tokens m level =
      (text "let").tokens ++ (m.block m.letIndent (Decl.pretties m decls).value).tokens ++
        (text "in").tokens ++
        (Node.expr body).tokens m 0 := by
  rw [Node.tokens, Node.pretty, Expr.pretty]
  simp [parensIf, Nat.not_le.mpr hlevel, Node.tokens, Node.pretty, appendSpace]

theorem tokens_ifThenElse (cond yes no : Expr) (hlevel : level < 2) :
    (Node.expr (.ifThenElse cond yes no)).tokens m level =
      (text "if").tokens ++ (Node.expr cond).tokens m 0 ++ (text "then").tokens ++
        (Node.expr yes).tokens m 0 ++
        (text "else").tokens ++ (Node.expr no).tokens m 0 := by
  rw [Node.tokens, Node.pretty, Expr.pretty]
  simp [parensIf, Nat.not_le.mpr hlevel, Node.tokens, Node.pretty]

theorem tokens_of_isLoose {e : Expr} (he : e.isLoose) (hlevel : level ≤ 2) :
    (Node.expr e).tokens m level = (Node.expr e).tokens m 2 := by
  cases e with
  | lit | app | neg =>
    rw [Node.tokens, Node.tokens, Node.pretty, Node.pretty, Expr.pretty, Expr.pretty,
      decide_eq_false (by omega), decide_eq_false (by omega)]
  | infixApp left op right =>
    rw [tokens_infixApp _ _ _ (by omega), tokens_infixApp _ _ _ (by omega)]
  | caseOf scrutinee alts =>
    have halts : alts = [] := by simpa [isLoose, isOpen, isTyped, members] using he
    subst halts
    rfl
  | doBlock stmts =>
    have hstmts : stmts = [] := by simpa [isLoose, isOpen, isTyped, members] using he
    subst hstmts
    rfl
  | asPat name f => rw [tokens_asPat, tokens_asPat]
  | lambda | letIn | ifThenElse | typed => cases he
  | _ => rfl

/-- An expression that does not end in an annotation or a block is printed with what it takes in
right after it. -/
theorem tokens_extend {e : Expr} (he : (Node.expr e).WellFormed) (htip : e.tip.isLoose) (op : QOp)
    (right : Expr) (hlevel : level < 2) : (Node.expr (extend op right e)).tokens m level =
      (Node.expr e).tokens m level ++ op.doc.tokens ++ (Node.expr right).tokens m 1 := by
  obtain ⟨here, below⟩ := he
  -- on the way to the tip every part is printed at the same level as before; only the tip is now
  -- before an operator
  fun_induction extend op right e generalizing level with
  | case1 l o r ih =>
    obtain ⟨hr, hbelow⟩ := below (.expr r) (by simp [Node.children, children])
    rw [tokens_infixApp _ _ _ (by omega), tokens_infixApp _ _ _ (by omega),
      ih htip (by decide) hr hbelow]
    simp only [List.append_assoc]
  | case2 loc pats body ih =>
    obtain ⟨hbody, hbelow⟩ := below (.expr body) (by simp [Node.children, children])
    have hpats : pats ≠ [] := by simpa using here
    rw [tokens_lambda hpats _ _ hlevel, tokens_lambda hpats _ _ hlevel,
      ih htip (by decide) hbody hbelow]
    simp only [List.append_assoc]
  | case3 decls body ih =>
    obtain ⟨hbody, hbelow⟩ := below (.expr body) (by simp [Node.children, children])
    rw [tokens_letIn _ _ hlevel, tokens_letIn _ _ hlevel, ih htip (by decide) hbody hbelow]
    simp only [List.append_assoc]
  | case4 cond yes no ih =>
    obtain ⟨hno, hbelow⟩ := below (.expr no) (by simp [Node.children, children])
    rw [tokens_ifThenElse _ _ _ hlevel, tokens_ifThenElse _ _ _ hlevel,
      ih htip (by decide) hno hbelow]
    simp only [List.append_assoc]
  | case5 e hchain hlambda hlet hif =>
    have he : e.tip = e := by
      cases e with
      | infixApp l o r => exact absurd rfl (hchain l o r)
      | lambda loc pats body => exact absurd rfl (hlambda loc pats body)
      | letIn decls body => exact absurd rfl (hlet decls body)
      | ifThenElse cond yes no => exact absurd rfl (hif cond yes no)
      | _ => rfl
    rw [tokens_infixApp _ _ _ (by omega), ← tokens_of_isLoose (he ▸ htip) (by omega : level ≤ 2)]

/-- The operator is really moved. -/
theorem extend_ne {e : Expr} (he : e.isInfix) (op : QOp) (right : Expr) :
    extend op right e ≠ .infixApp e op right := by
  cases e <;> simp [isInfix] at he
  intro h
  injection h with hleft
  have hsize := congrArg sizeOf hleft
  simp at hsize
  omega

/-- A chain before an operator has the text of the expression that takes the operator in. -/
theorem tokens_infixApp_eq_extend {e : Expr} (he : (Node.expr e).WellFormed) (hchain : e.isInfix)
    (htip : e.tip.isLoose) (op : QOp) (right : Expr) :
    (Node.expr (.infixApp e op right)).tokens m 0 = (Node.expr (extend op right e)).tokens m 0 := by
  have hloose : e.isLoose := by cases e <;> simp [isInfix] at hchain; rfl
  have hsame : (Node.expr e).tokens m 0 = (Node.expr e).tokens m 2 :=
    tokens_of_isLoose hloose (by decide)
  rw [tokens_infixApp _ _ _ (by decide), tokens_extend he htip _ _ (by decide), hsame]

end Expr

end Syntax

/-! ### Texts that start differently -/

def isInk (c : Char) : Bool := c ≠ ' ' && c ≠ '\n'

theorem find?_textOf {s : String} {ss : List String} {c : Char} (hs : s.toList.find? isInk = some c)
    {cs : List Chunk} (h : Chunk.texts cs = s :: ss) :
    (Chunk.textOf cs).toList.find? isInk = some c := by
  induction cs with
  | nil => cases h
  | cons k cs ih =>
    have hone : Chunk.textOf [k] = k.toText := by simp [Chunk.textOf]
    rw [← List.singleton_append, textOf_append, String.toList_append, List.find?_append, hone]
    cases k with
    | text t =>
      cases h
      rw [Chunk.toText, hs, Option.some_or]
    | spaces n =>
      rw [ih h]
      simp [Chunk.toText, isInk]
    | newline =>
      rw [ih h]
      rfl

/-- The first character of the text that is not blank is one of the first leaf. -/
theorem Doc.Begins.find?_render {s : String} {d : Doc} (h : d.Begins s) {c : Char}
    (hs : s.toList.find? isInk = some c) (style : Style) :
    (d.render style).toList.find? isInk = some c := by
  obtain ⟨ss, hleaves⟩ := List.head?_eq_some_iff.mp h.head
  have hvisible : s.isEmpty = false := by
    rw [Bool.eq_false_iff]
    intro hempty
    rw [String.isEmpty_iff] at hempty
    subst hempty
    cases hs
  apply find?_textOf hs
  rw [texts_chunks, hleaves, visible, List.filter_cons_of_pos (by simp [hvisible])]

namespace Syntax

variable {m : Mode} {level : Nat}

/-- Before an operator a function, a binding and a choice are in parentheses. -/
theorem Expr.begins_infixApp {f : Expr} (here : (Node.expr f).lack? = none) (hf : f.isOpen)
    (op : QOp) (right : Expr) : ((Expr.infixApp f op right).pretty m 0).value.Begins "(" := by
  have hfirst : (f.sketch 2).atoms.head? = some (.word "(") := by
    cases f with
    | lambda | letIn | ifThenElse => rfl
    | _ => cases hf
  have hleft : (f.pretty m 2).value.Begins "(" := by
    rw [f.value_pretty m here 2]
    exact (Sketch.startsWithAtom m _).begins _ hfirst "(" rfl
  rw [Expr.value_pretty m rfl 0]
  exact (Sketch.startsWithAtom m _).begins (.tree (.expr f) 2) rfl "(" hleft

/-- By themselves they start with a word of their own. -/
theorem Expr.begins_of_isOpen {f : Expr} (here : (Node.expr f).lack? = none) (hf : f.isOpen) :
    ∃ s c, (f.pretty m 0).value.Begins s ∧ s.toList.find? isInk = some c ∧ c ≠ '(' := by
  have hfirst : ∃ s c, (f.sketch 0).atoms.head? = some (.word s) ∧
      s.toList.find? isInk = some c ∧ c ≠ '(' := by
    cases f with
    | lambda => exact ⟨"\\", '\\', rfl, rfl, by decide⟩
    | letIn => exact ⟨"let", 'l', rfl, rfl, by decide⟩
    | ifThenElse => exact ⟨"if", 'i', rfl, rfl, by decide⟩
    | _ => cases hf
  obtain ⟨s, c, hword, hc, hne⟩ := hfirst
  refine ⟨s, c, ?_, hc, hne⟩
  rw [f.value_pretty m here 0]
  exact (Sketch.startsWithAtom m _).begins _ hword s rfl

/-- An operator after an open form is printed otherwise than one inside an open form. -/
theorem Expr.print_infixApp_ne {f g : Expr} {op : QOp} {right : Expr} (hf : f.isOpen)
    (hg : g.isOpen) (hwell : (Node.expr (.infixApp f op right)).WellFormed)
    (hwell' : (Node.expr g).WellFormed) (m m' : Mode) (style style' : Style) :
    ∃ s s', (Node.expr (.infixApp f op right)).print style m 0 = .ok s ∧
      (Node.expr g).print style' m' 0 = .ok s' ∧ s ≠ s' := by
  refine ⟨_, _, hwell.print_eq style m 0, hwell'.print_eq style' m' 0, ?_⟩
  intro hsame
  obtain ⟨-, below⟩ := hwell
  obtain ⟨here, -⟩ := below (.expr f) (by simp [Node.children, children])
  obtain ⟨here', -⟩ := hwell'
  have hparen := (Expr.begins_infixApp (m := m) here hf op right).find?_render (c := '(') rfl style
  obtain ⟨w, c, hstart, hc, hne⟩ := Expr.begins_of_isOpen (m := m') here' hg
  have hother := hstart.find?_render hc style'
  rw [Node.pretty, Node.pretty] at hsame
  rw [hsame, hother] at hparen
  exact hne (Option.some.inj hparen)

/-! ### Before an operator and before an arrow -/

/-- What stands right before an operator, an operator of a section, a type annotation and the arrow
of an alternative. -/
theorem tokens_before (e right : Expr) (op : QOp) (ty : QualType) (loc : Location) :
    (Node.expr (.infixApp e op right)).tokens m 0 =
        (Node.expr e).tokens m 2 ++ op.doc.tokens ++ (Node.expr right).tokens m 1 ∧
      (Node.expr (.leftSection e op)).tokens m 0 =
        ["("] ++ (Node.expr e).tokens m 2 ++ op.doc.tokens ++ [")"] ∧
      (Node.expr (.typed loc e ty)).tokens m 0 =
        (Node.expr e).tokens m 2 ++ ["::"] ++ (Node.qualType ty).tokens m 0 ∧
      (Node.guardedAlt (.mk loc e right)).tokens m 0 =
        ["|"] ++ (Node.expr e).tokens m 0 ++ ["->"] ++ (Node.expr right).tokens m 0 := by
  have hwords : lparen.tokens = ["("] ∧ rparen.tokens = [")"] ∧ (text "::").tokens = ["::"] ∧
    (char '|').tokens = ["|"] ∧ (text "->").tokens = ["->"] := by decide
  refine ⟨Expr.tokens_infixApp _ _ _ (by decide), ?_, ?_, ?_⟩
  · simp [Node.tokens, Node.pretty, Expr.pretty, parens, appendSpace, hwords]
  · simp [Node.tokens, Node.pretty, Expr.pretty, parensIf, hwords]
  · simp [Node.tokens, Node.pretty, GuardedAlt.pretty, hwords]

/-- Right before an operator, an operator of a section or a type annotation, an expression is
printed at level 2, and a guard before its arrow at level 0. At level 2 it ends in an open form or
an annotation exactly if it is a chain whose last operand is an open form, or in the offside layout
a block that ends so. A guard ends in an annotation exactly if it is one or its last operand goes on
to one.

What stands at the end of a tree has the last tokens of it; where nothing does, an expression is an
atom or closes a bracket. An open form before an operator is never printed like an open form with
the operator inside. A chain that goes on to an atom, a bracket or an application is always printed
like the expression that has the operator inside the form at its end. -/
theorem open_forms_before_operators (m : Mode) :
    (∀ (e right : Expr) (op : QOp) (ty : QualType) (loc : Location),
      (Node.expr (.infixApp e op right)).tokens m 0 =
          (Node.expr e).tokens m 2 ++ op.doc.tokens ++ (Node.expr right).tokens m 1 ∧
        (Node.expr (.leftSection e op)).tokens m 0 =
          ["("] ++ (Node.expr e).tokens m 2 ++ op.doc.tokens ++ [")"] ∧
        (Node.expr (.typed loc e ty)).tokens m 0 =
          (Node.expr e).tokens m 2 ++ ["::"] ++ (Node.qualType ty).tokens m 0 ∧
        (Node.guardedAlt (.mk loc e right)).tokens m 0 =
          ["|"] ++ (Node.expr e).tokens m 0 ++ ["->"] ++ (Node.expr right).tokens m 0) ∧
      (∀ e : Expr, (Node.expr e).Reaches m Expr.takesNext 2 ↔ e.isInfix ∧ (e.lastOperand.isOpen ∨
        ∃ c, m.lastMember e.lastOperand.members = some (0, c) ∧ c.Reaches m Expr.takesNext 0)) ∧
      (∀ guard : Expr, (Node.expr guard).Reaches m Expr.annotates 0 ↔ guard.isTyped ∨
        ∃ c, guard.lastOperand.lastPart m 1 = some (0, c) ∧ c.Reaches m Expr.annotates 0) ∧
      (∀ (s t : Node) (j level : Nat), t.WellFormed → Node.AtEnd m s j level t →
        s.tokens m j <:+ t.tokens m level) ∧
      (∀ (e : Expr) (level : Nat), (Node.expr e).WellFormed → e.lastPart m level = none →
        e.isAtom ∨ Closes ((Node.expr e).tokens m level)) ∧
      (∀ (f g right : Expr) (op : QOp) (m' : Mode) (style style' : Style), f.isOpen → g.isOpen →
        (Node.expr (.infixApp f op right)).WellFormed → (Node.expr g).WellFormed →
        ∃ s s', (Node.expr (.infixApp f op right)).print style m 0 = .ok s ∧
          (Node.expr g).print style' m' 0 = .ok s' ∧ s ≠ s') ∧
      ∀ (e right : Expr) (op : QOp), (Node.expr e).WellFormed → e.isInfix → e.tip.isLoose →
        Expr.extend op right e ≠ .infixApp e op right ∧
          (Node.expr (.infixApp e op right)).tokens m 0 =
            (Node.expr (Expr.extend op right e)).tokens m 0 := by
  refine ⟨fun e right op ty loc => tokens_before e right op ty loc,
    fun e => Node.reaches_takesNext_iff, fun guard => Node.reaches_annotates_iff, ?_, ?_, ?_, ?_⟩
  · intro s t j level ht hend
    exact (hend.suffix ht).2
  · intro e level he h
    obtain ⟨here, -⟩ := he
    exact Expr.closes_of_lastPart here h
  · intro f g right op m' style style' hf hg hwell hwell'
    exact Expr.print_infixApp_ne hf hg hwell hwell' m m' style style'
  · intro e right op he hchain htip
    exact ⟨Expr.extend_ne hchain op right, Expr.tokens_infixApp_eq_extend he hchain htip op right⟩

/-- A function before an operator is in parentheses, so it is told apart from the function that
adds. -/
theorem function_before_operator_is_told_apart :
    let var (s : String) := Expr.var (.ofIdent s)
    let plus := QOp.var (.unqualified (.symbol "+"))
    let f (body : Expr) := Expr.lambda .unknown [.var (.ident "a")] body
    ∃ s s', (Node.expr (.infixApp (f (var "a")) plus (var "y"))).print {} {} 0 = .ok s ∧
      (Node.expr (f (.infixApp (var "a") plus (var "y")))).print {} {} 0 = .ok s' ∧ s ≠ s' := by
  intro var plus f
  apply (open_forms_before_operators {}).2.2.2.2.2.1
  · rfl
  · rfl
  · simp [var, plus, f, QName.ofIdent, QName.unqualified, Node.wellFormed_iff, Node.children,
      Expr.children, Pat.children, QName.children, QOp.name]
  · simp [var, plus, f, QName.ofIdent, QName.unqualified, Node.wellFormed_iff, Node.children,
      Expr.children, Pat.children, QName.children, QOp.name]

/-- A function as the last operand of a chain takes the next operator in: two trees have one text. A
guard with a type runs into its arrow. -/
theorem chain_with_function_loses_operator :
    let var (s : String) := Expr.var (.ofIdent s)
    let plus := QOp.var (.unqualified (.symbol "+"))
    let f (body : Expr) := Expr.lambda .unknown [.var (.ident "a")] body
    let chain := Expr.infixApp (var "x") plus (f (var "a"))
    let e := Expr.infixApp chain plus (var "y")
    let e' := Expr.infixApp (var "x") plus (f (.infixApp (var "a") plus (var "y")))
    let guard := Expr.typed .unknown (var "x") ⟨[], .con (.ofIdent "Int")⟩
    (Node.expr e).WellFormed ∧ (Node.expr e').WellFormed ∧ e ≠ e' ∧
      (Node.expr e).print {} {} 0 = .ok "x + \\ a -> a + y" ∧
      (Node.expr e').print {} {} 0 = .ok "x + \\ a -> a + y" ∧
      (Node.expr chain).Reaches {} Expr.takesNext 2 ∧
      (Node.guardedAlt (.mk .unknown guard (var "y"))).print {} {} 0 = .ok "| x :: Int -> y" ∧
      (Node.expr guard).Reaches {} Expr.annotates 0 := by
  intro var plus f chain e e' guard
  refine ⟨?_, ?_, ?_, by decide +kernel, by decide +kernel, ⟨1, f (var "a"), .last rfl .here, rfl⟩,
    by decide +kernel, ⟨0, guard, .here, rfl⟩⟩
  · simp [e, chain, var, plus, f, QName.ofIdent, QName.unqualified, Node.wellFormed_iff,
      Node.children, Expr.children, Pat.children, QName.children, QOp.name]
  · simp [e', var, plus, f, QName.ofIdent, QName.unqualified, Node.wellFormed_iff, Node.children,
      Expr.children, Pat.children, QName.children, QOp.name]
  · simp [e, e', chain, var]

end Syntax

end Offside
