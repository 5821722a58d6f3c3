import Offside.Proofs.Items

/-!
# What types, patterns and expressions print

Every well-formed tree with plain names prints a document that hangs from its first text.
Declarations, clauses and imports print items of a block, and right sides and modules may start
further lines at their own column. One lemma for each category says what its trees print if the
trees directly below them do.
-/
namespace Offside.Syntax

open Doc

/-- What the document of a tree is, by the category of the tree. -/
def Node.Prints (m : Mode) (t : Node) (d : Doc) : Prop :=
  match t with
  | .name n => d.Headed 1 ∧ n.bare.Headed 1
  | .qname q => d.Headed 1 ∧ q.bare.Headed 1
  | .decl _ | .clause _ | .importDecl _ => d.IsItem (t.marks m) ∧ d.lead = 0
  | .module _ | .rhs _ | .guardedAlts _ | .fieldDecl _ => d.Headed 0
  | _ => d.Headed 1

/-- The tree prints what its category asks for, at any level, unless it has a fault. -/
def Node.Printed (m : Mode) (t : Node) : Prop := ∀ level, (t.pretty m level).Meets (t.Prints m)

/-! ### Names and literals -/

theorem headed_backquoted {d : Doc} (hd : d.Headed 1) : (backquoted d).Headed 1 :=
  .besideText (.textBeside (by decide) false hd.settled) (by decide) false (by decide)

namespace Name

variable {n : Name}

theorem headed_bare (h : ∀ w ∈ (Node.name n).words, IsWord w) : n.bare.Headed 1 := by
  cases n with
  | ident s => exact .ofText (h s (by simp [Node.words]))
  | symbol s => exact .ofText (h s (by simp [Node.words]))
  | special con => exact .ofText (isWord_special con)

theorem headed_doc (h : n.bare.Headed 1) : n.doc.Headed 1 := h.parensIf _

theorem headed_infixDoc (h : n.bare.Headed 1) : n.infixDoc.Headed 1 := by
  unfold infixDoc
  split
  · exact h
  · exact headed_backquoted h

end Name

namespace QName

variable {q : QName}

theorem headed_bare (hname : q.name.bare.Headed 1) (hmodule : ∀ m ∈ q.qualifier, IsWord m.text) :
    q.bare.Headed 1 := by
  have hqualified : ∀ m ∈ q.qualifier, (text (m.text ++ ".") ++ q.name.bare).Headed 1 := fun m hm =>
    .textBeside ((hmodule m hm).append (by decide)) false hname.settled
  obtain ⟨qualifier, name⟩ := q
  cases qualifier with
  | none => exact hname
  | some m =>
    cases name with
    | special con =>
      simp only [bare]
      split
      · exact hname
      · exact hqualified m rfl
    | _ => exact hqualified m rfl

theorem headed_doc (h : q.bare.Headed 1) : q.doc.Headed 1 := h.parensIf _

theorem headed_infixDoc (h : q.bare.Headed 1) : q.infixDoc.Headed 1 := by
  unfold infixDoc
  split
  · exact h
  · exact headed_backquoted h

end QName

theorem Literal.headed_doc (l : Literal) : l.doc.Headed 1 := by
  have hhash : ∀ s : String, IsWord s → (text s ++ Doc.char '#').Headed 1 := fun s hs =>
    .besideText (.ofText hs) (by decide) false (by decide)
  cases l with
  | char c => exact .ofText (isWord_charLiteral c)
  | string s => exact .ofText (isWord_stringLiteral s)
  | int n => exact .ofText (isWord_decimalText _)
  | frac r => exact .ofText (isWord_realText _)
  | charPrim c => exact hhash _ (isWord_charLiteral c)
  | stringPrim s => exact hhash _ (isWord_stringLiteral s)
  | intPrim n => exact hhash _ (isWord_decimalText _)
  | floatPrim r => exact hhash _ (isWord_realText _)
  | doublePrim r =>
    exact .besideText (.ofText (isWord_realText _)) (by decide) false (by decide)

/-! ### Types -/

section

variable {m : Mode} (hm : m.Indented)
include hm

theorem Ty.headed_pretty {t : Ty} (ih : ∀ c ∈ t.children, c.Printed m) (level : Nat) :
    (t.pretty m level).Meets (Headed 1) := by
  cases t with
  | fn source target =>
    refine .bind (ih (.ty source) (by simp [children]) 1) fun source hsource => ?_
    refine .bind (ih (.ty target) (by simp [children]) 0) fun target htarget => .pure ?_
    refine .parensIf _ (hm.headed_fillOnside hsource ?_)
    simp only [List.forall_mem_cons]
    exact ⟨.ofText (by decide), Headed.flush htarget, by simp⟩
  | tuple elems =>
    rw [Ty.pretty, Ty.pretties_eq]
    refine .guard fun _ => .bind (.mapM fun t ht => ih (.ty t) (by simp [children, ht]) 0)
      fun elems helems => ?_
    exact .pure (hm.headed_parenList helems)
  | app f arg =>
    rw [Ty.pretty]
    split
    · refine .bind (ih (.ty arg) (by simp [children]) 0) fun arg harg => .pure ?_
      exact .brackets (Headed.settled harg)
    · refine .bind (ih (.ty f) (by simp [children]) 1) fun f hf => ?_
      refine .bind (ih (.ty arg) (by simp [children]) 2) fun arg harg => .pure ?_
      exact .parensIf _ (hm.headed_fillOnside hf (by simpa using Headed.flush harg))
  | var name => exact .pure (ih (.name name) (by simp [children]) 0 rfl).1
  | con name => exact .pure (ih (.qname name) (by simp [children]) 0 rfl).1

theorem Assertion.headed_pretty {a : Assertion}
    (ih : ∀ c ∈ (Node.assertion a).children, c.Printed m) : (a.pretty m).Meets (Headed 1) := by
  have hclass : a.className.doc.Headed 1 :=
    (ih (.qname a.className) (by simp [Node.children]) 0 rfl).1
  rw [Assertion.pretty, Ty.pretties_eq]
  refine .bind (.mapM fun t ht => ih (.ty t) (by simp [Node.children, ht]) 2)
    fun types htypes => .pure ?_
  exact hm.headed_fillOnside hclass fun d hd => Headed.flush (htypes d hd)

/-- A context is nothing or hangs from its first text. -/
theorem Context.headed_pretty {ctx : Context} (ih : ∀ a ∈ ctx, (Node.assertion a).Printed m) :
    (Context.pretty m ctx).Meets fun d => d = .empty ∨ d.Headed 1 := by
  rw [Context.pretty]
  split
  · exact .pure (.inl rfl)
  · refine .bind (.mapM fun a ha => ih a ha 0) fun assertions hassertions => .pure (.inr ?_)
    exact hm.headed_sepFirst (hm.headed_parenList hassertions)
      (by simpa using Flush.ofText (by decide))

theorem Context.flush_pretty {ctx : Context} (ih : ∀ a ∈ ctx, (Node.assertion a).Printed m) :
    (Context.pretty m ctx).Meets Flush := by
  refine (Context.headed_pretty hm ih).mono fun d hd => ?_
  rcases hd with rfl | hd
  · exact .empty
  · exact hd.flush

theorem QualType.headed_pretty {q : QualType} (ih : ∀ c ∈ (Node.qualType q).children, c.Printed m) :
    (q.pretty m).Meets (Headed 1) := by
  have hctx : ∀ a ∈ q.context, (Node.assertion a).Printed m :=
    fun a ha => ih (.assertion a) (by simp [Node.children, ha])
  refine .bind (Context.headed_pretty hm hctx) fun context hcontext => ?_
  refine .bind (ih (.ty q.ty) (by simp [Node.children]) 0) fun ty hty => .pure ?_
  rcases hcontext with rfl | hheaded
  · rw [hm.fillOnside_empty]
    exact hm.headed_fillOnside hty (by simp)
  · exact hm.headed_fillOnside hheaded (by simpa using Headed.flush hty)

omit hm in
theorem BangType.headed_pretty {b : BangType} (ih : ∀ c ∈ b.children, c.Printed m) (level : Nat) :
    (b.pretty m level).Meets (Headed 1) := by
  cases b with
  | banged ty =>
    refine .bind (ih (.ty ty) (by simp [children]) 2) fun ty hty => .pure ?_
    exact .textBeside (by decide) false (Headed.settled hty)
  | unbanged ty => exact ih (.ty ty) (by simp [children]) level

/-! ### Patterns -/

theorem Pat.headed_pretty {p : Pat} (ih : ∀ c ∈ p.children, c.Printed m) (level : Nat) :
    (p.pretty m level).Meets (Headed 1) := by
  cases p with
  | var name => exact .pure (ih (.name name) (by simp [children]) 0 rfl).1
  | lit l => exact .pure (.parensIf _ l.headed_doc)
  | neg pat =>
    refine .bind (ih (.pat pat) (by simp [children]) 2) fun pat hpat => .pure ?_
    exact .parensIf _ (.textBeside (by decide) false (Headed.settled hpat))
  | infixApp left op right =>
    have hop := QName.headed_infixDoc (ih (.qname op) (by simp [children]) 0 rfl).2
    refine .bind (ih (.pat left) (by simp [children]) 1) fun left hleft => ?_
    refine .bind (ih (.pat right) (by simp [children]) 1) fun right hright => .pure ?_
    refine .parensIf _ (hm.headed_fillOnside hleft ?_)
    simp only [List.forall_mem_cons]
    exact ⟨hop.flush, Headed.flush hright, by simp⟩
  | app con args =>
    have hcon : con.doc.Headed 1 := (ih (.qname con) (by simp [children]) 0 rfl).1
    rw [Pat.pretty, Pat.pretties_eq]
    refine .bind (.mapM fun p hp => ih (.pat p) (by simp [children, hp]) 2)
      fun args hargs => .pure ?_
    exact .parensIf _ (hm.headed_fillOnside hcon fun d hd => Headed.flush (hargs d hd))
  | tuple elems =>
    rw [Pat.pretty, Pat.pretties_eq]
    refine .guard fun _ => .bind (.mapM fun p hp => ih (.pat p) (by simp [children, hp]) 0)
      fun elems helems => ?_
    exact .pure (hm.headed_parenList helems)
  | list elems =>
    rw [Pat.pretty, Pat.pretties_eq]
    refine .bind (.mapM fun p hp => ih (.pat p) (by simp [children, hp]) 0)
      fun elems helems => .pure ?_
    exact hm.headed_bracketList fun d hd => (Headed.punctuate helems (by decide) d hd).flush
  | paren pat =>
    refine .bind (ih (.pat pat) (by simp [children]) 0) fun pat hpat => .pure ?_
    exact .parens (Headed.settled hpat)
  | record con fields =>
    have hcon : con.doc.Headed 1 := (ih (.qname con) (by simp [children]) 0 rfl).1
    rw [Pat.pretty, PatField.pretties_eq]
    refine .bind (.mapM fun f hf => ih (.patField f) (by simp [children, hf]) 0)
      fun fields hfields => .pure ?_
    exact hcon.beside (by decide) (hm.headed_braceList fun d hd =>
      (hfields d hd).mono (by decide)).settled false
  | asPat name pat =>
    have hname : name.doc.Headed 1 := (ih (.name name) (by simp [children]) 0 rfl).1
    have hat : (name.doc ++ char '@').Headed 1 := hname.besideText (by decide) false (by decide)
    have hpat := ih (.pat pat) (by simp [children]) 2
    by_cases h : ∃ p, pat = .irrefutable p
    · obtain ⟨p, rfl⟩ := h
      refine .bind (Checked.Meets.of_bind_pure hpat) fun pat hpat => .pure ?_
      exact hm.headed_fillOnside hat (by simpa using Headed.flush hpat)
    · rw [Pat.pretty_asPat level name fun p hp => h ⟨p, hp⟩]
      exact .bind hpat fun pat hpat => .pure (hat.beside (by decide) (Headed.settled hpat) false)
  | wildcard => exact .pure (.ofText (by decide))
  | irrefutable pat =>
    refine .bind (ih (.pat pat) (by simp [children]) 2) fun pat hpat => .pure ?_
    exact .textBeside (by decide) false (Headed.settled hpat)

theorem PatField.headed_pretty {f : PatField} (ih : ∀ c ∈ f.children, c.Printed m) :
    (f.pretty m).Meets (Headed 1) := by
  cases f with
  | mk field pat =>
    have hfield : field.doc.Headed 1 := (ih (.qname field) (by simp [children]) 0 rfl).1
    refine .bind (ih (.pat pat) (by simp [children]) 0) fun pat hpat => .pure ?_
    refine hm.headed_fillOnside hfield ?_
    simp only [List.forall_mem_cons]
    exact ⟨.ofText (by decide), Headed.flush hpat, by simp⟩

/-! ### Expressions -/

omit hm in
theorem Decl.flush_pretties {decls : List Decl} (ih : ∀ d ∈ decls, (Node.decl d).Printed m) :
    (Decl.pretties m decls).Meets fun ds => ∀ d ∈ ds, d.Flush := by
  rw [Decl.pretties_eq]
  exact .mapM fun d hd => (ih d hd 0).mono fun doc hdoc => hdoc.1.flush

theorem Expr.headed_pretty {e : Expr} (ih : ∀ c ∈ e.children, c.Printed m) (level : Nat) :
    (e.pretty m level).Meets (Headed 1) := by
  cases e with
  | var name => exact .pure (ih (.qname name) (by simp [children]) 0 rfl).1
  | con name => exact .pure (ih (.qname name) (by simp [children]) 0 rfl).1
  | lit l => exact .pure (.parensIf _ l.headed_doc)
  | infixApp left op right =>
    have hop : op.doc.Headed 1 := ih (.qop op) (by simp [children]) 0 rfl
    refine .bind (ih (.expr left) (by simp [children]) 2) fun left hleft => ?_
    refine .bind (ih (.expr right) (by simp [children]) 1) fun right hright => .pure ?_
    refine .parensIf _ (hm.headed_fillOnside hleft ?_)
    simp only [List.forall_mem_cons]
    exact ⟨hop.flush, Headed.flush hright, by simp⟩
  | app f arg =>
    refine .bind (ih (.expr f) (by simp [children]) 3) fun f hf => ?_
    refine .bind (ih (.expr arg) (by simp [children]) 4) fun arg harg => .pure ?_
    exact .parensIf _ (hm.headed_fillOnside hf (by simpa using Headed.flush harg))
  | neg e =>
    refine .bind (ih (.expr e) (by simp [children]) 3) fun e he => .pure ?_
    exact .parensIf _ (.textBeside (by decide) false (Headed.settled he))
  | lambda loc pats body =>
    rw [Expr.pretty, Pat.pretties_eq]
    refine .guard fun _ => .bind (.mapM fun p hp => ih (.pat p) (by simp [children, hp]) 2)
      fun pats hpats => ?_
    refine .bind (ih (.expr body) (by simp [children]) 0) fun body hbody => .pure (.parensIf _ ?_)
    rw [List.cons_append]
    refine hm.headed_fillOnside (.ofText (by decide)) ?_
    simp only [List.forall_mem_append, List.forall_mem_cons]
    exact ⟨fun d hd => Headed.flush (hpats d hd), .ofText (by decide), Headed.flush hbody, by simp⟩
  | letIn decls body =>
    have hdecls :=
      Decl.flush_pretties fun d (hd : d ∈ decls) => ih (.decl d) (by simp [children, hd])
    refine .bind hdecls fun docs hdocs => ?_
    refine .bind (ih (.expr body) (by simp [children]) 0) fun body hbody => .pure (.parensIf _ ?_)
    refine hm.headed_fillOnside (.textBeside (by decide) true (hm.settled_block m.letIndent hdocs))
      ?_
    simp only [List.forall_mem_cons]
    exact ⟨.ofText (by decide), Headed.flush hbody, by simp⟩
  | ifThenElse cond yes no =>
    refine .bind (ih (.expr cond) (by simp [children]) 0) fun cond hcond => ?_
    refine .bind (ih (.expr yes) (by simp [children]) 0) fun yes hyes => ?_
    refine .bind (ih (.expr no) (by simp [children]) 0) fun no hno => .pure (.parensIf _ ?_)
    refine hm.headed_fillOnside (.ofText (by decide)) ?_
    simp only [List.forall_mem_cons]
    exact ⟨Headed.flush hcond, .ofText (by decide), Headed.flush hyes, .ofText (by decide),
      Headed.flush hno, by simp⟩
  | caseOf scrutinee alts =>
    rw [Expr.pretty, Alt.pretties_eq]
    refine .guard fun _ => .bind (ih (.expr scrutinee) (by simp [children]) 0)
      fun scrutinee hscrutinee => ?_
    refine .bind (.mapM fun a ha => ih (.alt a) (by simp [children, ha]) 0) fun alts halts =>
      .pure (.parensIf _ ?_)
    refine hm.headed_aboveOrBeside (hm.headed_fillOnside (.ofText (by decide)) ?_)
      (hm.inset_block hm.caseIndent fun d hd => Headed.flush (halts d hd))
    simp only [List.forall_mem_cons]
    exact ⟨Headed.flush hscrutinee, .ofText (by decide), by simp⟩
  | doBlock stmts =>
    rw [Expr.pretty, Stmt.pretties_eq]
    refine .guard fun _ => .bind (.mapM fun s hs => ih (.stmt s) (by simp [children, hs]) 0)
      fun stmts hstmts => ?_
    refine .pure (.parensIf _ (hm.headed_aboveOrBeside (.ofText (by decide)) ?_))
    exact hm.inset_block hm.doIndent fun d hd => Headed.flush (hstmts d hd)
  | tuple elems =>
    rw [Expr.pretty, Expr.pretties_eq]
    refine .guard fun _ => .bind (.mapM fun e he => ih (.expr e) (by simp [children, he]) 0)
      fun elems helems => ?_
    exact .pure (hm.headed_parenList helems)
  | list elems =>
    rw [Expr.pretty, Expr.pretties_eq]
    refine .bind (.mapM fun e he => ih (.expr e) (by simp [children, he]) 0)
      fun elems helems => .pure ?_
    exact hm.headed_bracketList fun d hd => (Headed.punctuate helems (by decide) d hd).flush
  | paren e =>
    refine .bind (ih (.expr e) (by simp [children]) 0) fun e he => .pure ?_
    exact .parens (Headed.settled he)
  | leftSection e op =>
    have hop : op.doc.Headed 1 := ih (.qop op) (by simp [children]) 0 rfl
    refine .bind (ih (.expr e) (by simp [children]) 2) fun e he => .pure ?_
    exact .parens (Headed.beside he (by decide) hop.settled true).settled
  | rightSection op e =>
    have hop : op.doc.Headed 1 := ih (.qop op) (by simp [children]) 0 rfl
    refine .bind (ih (.expr e) (by simp [children]) 1) fun e he => .pure ?_
    exact .parens (hop.beside (by decide) (Headed.settled he) true).settled
  | recConstr name fields =>
    have hname : name.doc.Headed 1 := (ih (.qname name) (by simp [children]) 0 rfl).1
    rw [Expr.pretty, FieldUpdate.pretties_eq]
    refine .bind (.mapM fun f hf => ih (.fieldUpdate f) (by simp [children, hf]) 0)
      fun fields hfields => .pure ?_
    exact hname.beside (by decide) (hm.headed_braceList fun d hd =>
      (hfields d hd).mono (by decide)).settled false
  | recUpdate e fields =>
    rw [Expr.pretty, FieldUpdate.pretties_eq]
    refine .bind (ih (.expr e) (by simp [children]) 4) fun e he => ?_
    refine .bind (.mapM fun f hf => ih (.fieldUpdate f) (by simp [children, hf]) 0)
      fun fields hfields => .pure ?_
    exact Headed.beside he (by decide) (hm.headed_braceList fun d hd =>
      (hfields d hd).mono (by decide)).settled false
  | enumFrom start =>
    refine .bind (ih (.expr start) (by simp [children]) 0) fun start hstart =>
      .pure (hm.headed_bracketList ?_)
    simp only [List.forall_mem_cons]
    exact ⟨Headed.flush hstart, .ofText (by decide), by simp⟩
  | enumFromTo start stop =>
    refine .bind (ih (.expr start) (by simp [children]) 0) fun start hstart => ?_
    refine .bind (ih (.expr stop) (by simp [children]) 0) fun stop hstop =>
      .pure (hm.headed_bracketList ?_)
    simp only [List.forall_mem_cons]
    exact ⟨Headed.flush hstart, .ofText (by decide), Headed.flush hstop, by simp⟩
  | enumFromThen start next =>
    refine .bind (ih (.expr start) (by simp [children]) 0) fun start hstart => ?_
    refine .bind (ih (.expr next) (by simp [children]) 0) fun next hnext =>
      .pure (hm.headed_bracketList ?_)
    have hcomma : (start ++ comma).Headed 1 :=
      Headed.besideText hstart (by decide) false (by decide)
    simp only [List.forall_mem_cons]
    exact ⟨hcomma.flush, Headed.flush hnext, .ofText (by decide), by simp⟩
  | enumFromThenTo start next stop =>
    refine .bind (ih (.expr start) (by simp [children]) 0) fun start hstart => ?_
    refine .bind (ih (.expr next) (by simp [children]) 0) fun next hnext => ?_
    refine .bind (ih (.expr stop) (by simp [children]) 0) fun stop hstop =>
      .pure (hm.headed_bracketList ?_)
    have hcomma : (start ++ comma).Headed 1 :=
      Headed.besideText hstart (by decide) false (by decide)
    simp only [List.forall_mem_cons]
    exact ⟨hcomma.flush, Headed.flush hnext, .ofText (by decide), Headed.flush hstop, by simp⟩
  | listComp e quals =>
    rw [Expr.pretty, Stmt.pretties_eq]
    refine .guard fun _ => .bind (ih (.expr e) (by simp [children]) 0) fun e he => ?_
    refine .bind (.mapM fun s hs => ih (.stmt s) (by simp [children, hs]) 0) fun quals hquals => ?_
    refine .pure (hm.headed_bracketList ?_)
    simp only [List.forall_mem_cons]
    exact ⟨Headed.flush he, .ofText (by decide), fun d hd =>
      (Headed.punctuate hquals (by decide) d hd).flush⟩
  | typed loc e ty =>
    refine .bind (ih (.expr e) (by simp [children]) 2) fun e he => ?_
    refine .bind (ih (.qualType ty) (by simp [children]) 0) fun ty hty => .pure ?_
    refine .parensIf _ (hm.headed_fillOnside he ?_)
    simp only [List.forall_mem_cons]
    exact ⟨.ofText (by decide), Headed.flush hty, by simp⟩
  | asPat name e =>
    have hname : name.doc.Headed 1 := (ih (.name name) (by simp [children]) 0 rfl).1
    have hat : (name.doc ++ char '@').Headed 1 := hname.besideText (by decide) false (by decide)
    have he := ih (.expr e) (by simp [children]) 4
    by_cases h : ∃ f, e = .irrefutable f
    · obtain ⟨f, rfl⟩ := h
      refine .bind (Checked.Meets.of_bind_pure he) fun f hf => .pure ?_
      exact hm.headed_fillOnside hat (by simpa using Headed.flush hf)
    · rw [Expr.pretty_asPat level name fun f hf => h ⟨f, hf⟩]
      exact .bind he fun e he => .pure (hat.beside (by decide) (Headed.settled he) false)
  | wildcard => exact .pure (.ofText (by decide))
  | irrefutable e =>
    refine .bind (ih (.expr e) (by simp [children]) 4) fun e he => .pure ?_
    exact .textBeside (by decide) false (Headed.settled he)

theorem Stmt.headed_pretty {s : Stmt} (ih : ∀ c ∈ s.children, c.Printed m) :
    (s.pretty m).Meets (Headed 1) := by
  cases s with
  | generator loc pat e =>
    refine .bind (ih (.pat pat) (by simp [children]) 0) fun pat hpat => ?_
    refine .bind (ih (.expr e) (by simp [children]) 0) fun e he => .pure ?_
    have harrow : (pat.appendSpace (text "<-")).Headed 1 :=
      Headed.besideText hpat (by decide) true (by decide)
    exact harrow.beside (by decide) (Headed.settled he) true
  | qualifier e => exact ih (.expr e) (by simp [children]) 0
  | letStmt decls =>
    have hdecls :=
      Decl.flush_pretties fun d (hd : d ∈ decls) => ih (.decl d) (by simp [children, hd])
    refine .bind hdecls fun docs hdocs => .pure ?_
    exact hm.headed_aboveOrBeside (.ofText (by decide)) (hm.inset_block hm.letIndent hdocs)

theorem FieldUpdate.headed_pretty {f : FieldUpdate} (ih : ∀ c ∈ f.children, c.Printed m) :
    (f.pretty m).Meets (Headed 1) := by
  cases f with
  | mk field e =>
    have hfield : field.doc.Headed 1 := (ih (.qname field) (by simp [children]) 0 rfl).1
    refine .bind (ih (.expr e) (by simp [children]) 0) fun e he => .pure ?_
    refine hm.headed_fillOnside hfield ?_
    simp only [List.forall_mem_cons]
    exact ⟨.ofText (by decide), Headed.flush he, by simp⟩

theorem Alt.headed_pretty {a : Alt} (ih : ∀ c ∈ a.children, c.Printed m) :
    (a.pretty m).Meets (Headed 1) := by
  cases a with
  | mk loc pat alts wheres =>
    have hwheres :=
      Decl.flush_pretties fun d (hd : d ∈ wheres) => ih (.decl d) (by simp [children, hd])
    refine .bind (ih (.pat pat) (by simp [children]) 0) fun pat hpat => ?_
    refine .bind (ih (.guardedAlts alts) (by simp [children]) 0) fun alts halts => ?_
    refine .bind hwheres fun docs hdocs => .pure ?_
    refine hm.headed_aboveOrBeside (hm.headed_fillOnside hpat ?_) (hm.inset_whereClause hdocs)
    simpa using Headed.flush_of_nonneg halts (by decide)

/-- The guards of a right side, each on a line of its own. -/
theorem headed_lines {ds : List Doc} (hds : ∀ d ∈ ds, d.Headed 1) (hne : ds ≠ []) :
    (m.lines ds).Headed 0 := by
  rw [Mode.lines, if_pos hm.isVertical]
  cases ds with
  | nil => exact absurd rfl hne
  | cons d ds =>
    obtain ⟨hd, hds⟩ := List.forall_mem_cons.mp hds
    exact .vcat (hd.mono (by decide)) fun e he => (hds e he).flush

theorem GuardedAlts.headed_pretty {a : GuardedAlts} (ih : ∀ c ∈ a.children, c.Printed m) :
    (a.pretty m).Meets (Headed 0) := by
  cases a with
  | unguarded e =>
    refine .bind (ih (.expr e) (by simp [children]) 0) fun e he => .pure ?_
    exact (Headed.textBeside (by decide) true (Headed.settled he)).mono (by decide)
  | guarded alts =>
    rw [GuardedAlts.pretty, GuardedAlt.pretties_eq]
    refine .guard fun hne => ?_
    have halts : ∀ a ∈ alts, (a.pretty m).Meets (Headed 1) :=
      fun a ha => ih (.guardedAlt a) (by simp [children, ha]) 0
    refine .bind (.mapM_cons (by simpa using hne) halts) fun docs hdocs => .pure ?_
    exact headed_lines hm hdocs.2 hdocs.1

theorem GuardedAlt.headed_pretty {a : GuardedAlt} (ih : ∀ c ∈ a.children, c.Printed m) :
    (a.pretty m).Meets (Headed 1) := by
  cases a with
  | mk loc guard e =>
    refine .bind (ih (.expr guard) (by simp [children]) 0) fun guard hguard => ?_
    refine .bind (ih (.expr e) (by simp [children]) 0) fun e he => .pure ?_
    refine hm.headed_fillOnside (.ofText (by decide)) ?_
    simp only [List.forall_mem_cons]
    exact ⟨Headed.flush hguard, .ofText (by decide), Headed.flush he, by simp⟩

end

end Offside.Syntax
