import Offside.Proofs.PrintedTerms

/-!
# What declarations and modules print

The rest of the categories, and the induction on the tree over all of them.
-/
namespace Offside.Syntax

open Doc

section

variable {m : Mode} (hm : m.Indented)
include hm

theorem FieldDecl.headed_pretty {f : FieldDecl}
    (ih : ∀ c ∈ (Node.fieldDecl f).children, c.Printed m) : (f.pretty m).Meets (Headed 0) := by
  have hnames : ∀ d ∈ f.names.map Name.doc, d.Headed 1 := by
    simp only [List.forall_mem_map]
    exact fun n hn => (ih (.name n) (by simp [Node.children, hn]) 0 rfl).1
  refine .bind (ih (.bangType f.ty) (by simp [Node.children]) 0) fun ty hty => .pure ?_
  have hall : ∀ d ∈ punctuate comma (f.names.map Name.doc) ++ [text "::", ty], d.Headed 1 := by
    simp only [List.forall_mem_append, List.forall_mem_cons]
    exact ⟨Headed.punctuate hnames (by decide), .ofText (by decide), hty, by simp⟩
  exact hm.headed_fill (fun d hd => (hall d hd).mono (by decide)) (by simp)

theorem ConDecl.headed_pretty {c : ConDecl} (ih : ∀ t ∈ c.children, t.Printed m) :
    (c.pretty m).Meets (Headed 1) := by
  cases c with
  | positional loc name args =>
    obtain ⟨hdoc, hbare⟩ := ih (.name name) (by simp [children]) 0 rfl
    have hargs : ∀ b ∈ args, ∀ level, (b.pretty m level).Meets (Headed 1) :=
      fun b hb => ih (.bangType b) (by simp [children, hb])
    have happlied :
        Checked.Meets (do return m.sepFirst (name.doc :: (← args.mapM (BangType.pretty m 2))))
          (Headed 1) :=
      .bind (.mapM fun b hb => hargs b hb 2) fun docs hdocs =>
        .pure (hm.headed_sepFirst hdoc fun d hd => (hdocs d hd).flush)
    -- only two arguments can stand on either side of an operator
    rcases args with _ | ⟨left, _ | ⟨right, _ | ⟨third, rest⟩⟩⟩
    · exact happlied
    · exact happlied
    · rw [ConDecl.pretty]
      split
      · refine .bind (hargs left (by simp) 1) fun left hleft =>
          .bind (hargs right (by simp) 1) fun right hright => ?_
        refine .pure (hm.headed_fillOnside hleft ?_)
        simp only [List.forall_mem_cons]
        exact ⟨(Name.headed_infixDoc hbare).flush, hright.flush, by simp⟩
      · exact happlied
    · exact happlied
  | record loc name fields =>
    have hname : name.doc.Headed 1 := (ih (.name name) (by simp [children]) 0 rfl).1
    refine .bind (.mapM fun f hf => ih (.fieldDecl f) (by simp [children, hf]) 0)
      fun fields hfields => .pure ?_
    exact hname.beside (by decide) (hm.headed_braceList hfields).settled false

theorem flush_lines_alternatives {cons : List Doc} (hcons : ∀ d ∈ cons, d.Headed 1) :
    (m.lines (alternatives cons)).Flush := by
  rw [Mode.lines, if_pos hm.isVertical]
  refine Flush.vcat ?_
  cases cons with
  | nil => simp [alternatives]
  | cons d ds =>
    obtain ⟨hd, hds⟩ := List.forall_mem_cons.mp hcons
    rw [alternatives, List.forall_mem_cons, List.forall_mem_map]
    refine ⟨(Headed.textBeside (by decide) true hd.settled).flush, fun e he => ?_⟩
    exact (Headed.textBeside (by decide) true (hds e he).settled).flush

theorem flush_derivingDoc {qs : List QName} (hqs : ∀ q ∈ qs, q.doc.Headed 1) :
    (derivingDoc m qs).Flush := by
  fun_cases derivingDoc m qs with
  | case1 => exact .empty
  | case2 q => exact (Headed.textBeside (by decide) true (hqs q (by simp)).settled).flush
  | case3 qs =>
    have hlist := hm.headed_parenList (List.forall_mem_map.mpr hqs)
    exact (Headed.textBeside (by decide) true hlist.settled).flush

theorem headed_classDoc {d : Doc} {ds members : List Doc} (hd : d.Headed 1)
    (hds : ∀ e ∈ ds, e.Flush) (hmembers : ∀ e ∈ members, e.Flush) :
    (classDoc m (d :: ds) members).Headed 1 := by
  refine hm.headed_aboveOrBeside (hm.headed_sepFirst hd ?_) (hm.inset_block hm.classIndent hmembers)
  exact List.forall_mem_append.mpr ⟨hds, by simpa using Flush.ofText (by decide)⟩

/-- The left side of a clause starts with a document that hangs from its first text. -/
theorem headed_clauseHead {name : Name} (hname : name.bare.Headed 1) {pats : List Doc}
    (hpats : ∀ d ∈ pats, d.Headed 1) :
    ∃ d ds, clauseHead m name pats = d :: ds ∧ d.Headed 1 ∧ ∀ e ∈ ds, e.Headed 1 := by
  have hplain : ∃ d ds, name.doc :: pats = d :: ds ∧ d.Headed 1 ∧ ∀ e ∈ ds, e.Headed 1 :=
    ⟨_, _, rfl, Name.headed_doc hname, hpats⟩
  fun_cases clauseHead m name pats with
  | case1 left right rest hsymbolic head hrest =>
    refine ⟨_, _, rfl, hpats left (by simp), ?_⟩
    simp only [List.forall_mem_cons]
    exact ⟨Name.headed_infixDoc hname, hpats right (by simp), by simp⟩
  | case2 left right rest hsymbolic head hrest =>
    have hhead : (m.fillOnside head).Headed 1 := by
      refine hm.headed_fillOnside (hpats left (by simp)) ?_
      simp only [List.forall_mem_cons]
      exact ⟨(Name.headed_infixDoc hname).flush, (hpats right (by simp)).flush, by simp⟩
    exact ⟨_, _, rfl, .parens hhead.settled, fun e he => hpats e (by simp [he])⟩
  | case3 => exact hplain
  | case4 => exact hplain

theorem Rhs.headed_pretty {r : Rhs} (ih : ∀ c ∈ r.children, c.Printed m) :
    (r.pretty m).Meets (Headed 0) := by
  cases r with
  | unguarded e =>
    refine .bind (ih (.expr e) (by simp [children]) 0) fun e he => .pure ?_
    exact (Headed.textBeside (by decide) true (Headed.settled he)).mono (by decide)
  | guarded rhss =>
    rw [Rhs.pretty, GuardedRhs.pretties_eq]
    refine .guard fun hne => ?_
    have hrhss : ∀ r ∈ rhss, (r.pretty m).Meets (Headed 1) :=
      fun r hr => ih (.guardedRhs r) (by simp [children, hr]) 0
    refine .bind (.mapM_cons (by simpa using hne) hrhss) fun docs hdocs => .pure ?_
    exact headed_lines hm hdocs.2 hdocs.1

theorem GuardedRhs.headed_pretty {r : GuardedRhs} (ih : ∀ c ∈ r.children, c.Printed m) :
    (r.pretty m).Meets (Headed 1) := by
  cases r with
  | mk loc guard e =>
    refine .bind (ih (.expr guard) (by simp [children]) 0) fun guard hguard => ?_
    refine .bind (ih (.expr e) (by simp [children]) 0) fun e he => .pure ?_
    refine hm.headed_fillOnside (.ofText (by decide)) ?_
    simp only [List.forall_mem_cons]
    exact ⟨Headed.flush hguard, .ofText (by decide), Headed.flush he, by simp⟩

theorem Match.isItem_pretty {c : Match} (ih : ∀ t ∈ c.children, t.Printed m) :
    (c.pretty m).Meets fun d => d.IsItem [m.pragma c.loc] ∧ d.lead = 0 := by
  cases c with
  | mk loc name pats rhs wheres =>
    have hname := (ih (.name name) (by simp [children]) 0 rfl).2
    have hwheres :=
      Decl.flush_pretties fun d (hd : d ∈ wheres) => ih (.decl d) (by simp [children, hd])
    rw [Match.pretty, Pat.pretties_eq]
    refine .bind (.mapM fun p hp => ih (.pat p) (by simp [children, hp]) 2) fun pats hpats => ?_
    refine .bind (ih (.rhs rhs) (by simp [children]) 0) fun rhs hrhs =>
      .bind hwheres fun docs hdocs => .pure ?_
    obtain ⟨d, ds, hhead, hd, hds⟩ := headed_clauseHead hm hname hpats
    rw [hhead, List.cons_append]
    refine Mode.isItem_markLine hm.offside loc
      (hm.headed_aboveOrBeside (hm.headed_fillOnside hd ?_) (hm.inset_whereClause hdocs))
    refine List.forall_mem_append.mpr ⟨fun e he => (hds e he).flush, ?_⟩
    simpa using Headed.flush_of_nonneg hrhs (by decide)

/-- The clauses of a function are the clauses of one item. -/
theorem isItem_clauses {cs : List Match} (hne : cs ≠ []) {doc : Match → Doc}
    (h : ∀ c ∈ cs, (doc c).IsItem [m.pragma c.loc] ∧ (doc c).lead = 0) :
    (m.clauses (cs.map doc)).IsItem (cs.map fun c => m.pragma c.loc) ∧
    (m.clauses (cs.map doc)).lead = 0 := by
  have hclauses : Clauses (cs.map fun c => m.pragma c.loc) ((cs.map doc).flatMap strips) := by
    clear hne
    induction cs with
    | nil => exact .nil
    | cons c cs ih =>
      obtain ⟨hc, hcs⟩ := List.forall_mem_cons.mp h
      exact hc.1.clauses.append (ih hcs)
  have hflush : ∀ d ∈ cs.map doc, d.Flush := by
    simp only [List.forall_mem_map]
    exact fun c hc => IsItem.flush (t := .clause c) (h c hc).1
  have hne' : ∀ d ∈ cs.map doc, d ≠ .empty := by
    simp only [List.forall_mem_map]
    exact fun c hc => (h c hc).1.ne_empty
  rw [Mode.clauses, hm.offside]
  refine ⟨⟨vcat_ne_empty hne' (by simpa using hne), ?_⟩, (Flush.vcat hflush).lead⟩
  rw [strips_vcat (fun d hd => ⟨hne' d hd, (hflush d hd).lead⟩) (by simpa using hne)]
  exact hclauses

omit hm in
theorem flush_entityDoc (entity : String) : (entityDoc entity).Flush := by
  unfold entityDoc
  split_ifs
  · exact .empty
  · exact .ofText (isWord_stringLiteral entity).2

/-- The head of a declaration: a keyword, a context, a name and what it is applied to. -/
theorem headed_head {s : String} (hs : IsWord s) {context name : Doc} (hcontext : context.Flush)
    (hname : name.Headed 1) {args : List Doc} (hargs : ∀ d ∈ args, d.Headed 1) :
    (m.sepFirst (text s :: context :: name :: args)).Headed 1 := by
  refine hm.headed_sepFirst (.ofText hs) ?_
  simp only [List.forall_mem_cons]
  exact ⟨hcontext, hname.flush, fun d hd => (hargs d hd).flush⟩

theorem Decl.isItem_pretty {d : Decl} (hwords : ∀ w ∈ (Node.decl d).words, IsWord w)
    (ih : ∀ c ∈ d.children, c.Printed m) :
    (d.pretty m).Meets fun doc => doc.IsItem ((Node.decl d).marks m) ∧ doc.lead = 0 := by
  have hname : ∀ n : Name, .name n ∈ d.children → n.doc.Headed 1 := fun n hn => (ih _ hn 0 rfl).1
  have hnames : ∀ ns : List Name, (∀ n ∈ ns, .name n ∈ d.children) →
      ∀ e ∈ ns.map Name.doc, e.Headed 1 := by
    simp only [List.forall_mem_map]
    exact fun ns hns n hn => hname n (hns n hn)
  cases d with
  | typeDecl loc name vars ty =>
    have hname := hname name (by simp [children])
    have hvars := hnames vars fun n hn => by simp [children, hn]
    refine .bind (ih (.ty ty) (by simp [children]) 0) fun ty hty => .pure ?_
    rw [List.cons_append]
    refine Mode.isItem_declaration hm.offside loc (hm.headed_sepFirst (.ofText (by decide)) ?_)
    simp only [List.cons_append, List.forall_mem_cons, List.forall_mem_append]
    exact ⟨hname.flush, fun e he => (hvars e he).flush, .ofText (by decide),
      Headed.flush hty, by simp⟩
  | dataDecl loc context name vars cons derivings =>
    have hname := hname name (by simp [children])
    have hvars := hnames vars fun n hn => by simp [children, hn]
    have hderivings := flush_derivingDoc hm fun q (hq : q ∈ derivings) =>
      (ih (.qname q) (by simp [children, hq]) 0 rfl).1
    refine .bind (Context.flush_pretty hm fun a ha => ih _ (by simp [children, ha]))
      fun context hcontext => ?_
    refine .bind (.mapM fun c hc => ih (.conDecl c) (by simp [children, hc]) 0)
      fun cons hcons => .pure ?_
    refine Mode.isItem_declaration hm.offside loc ?_
    refine (headed_head hm (by decide) hcontext hname hvars).beside (Int.le_refl 1) ?_ true
    rw [Mode.aboveOrBeside, if_pos hm.isVertical]
    exact ((flush_lines_alternatives hm hcons).above hderivings).settled
  | newtypeDecl loc context name vars con derivings =>
    have hname := hname name (by simp [children])
    have hvars := hnames vars fun n hn => by simp [children, hn]
    have hderivings := flush_derivingDoc hm fun q (hq : q ∈ derivings) =>
      (ih (.qname q) (by simp [children, hq]) 0 rfl).1
    refine .bind (Context.flush_pretty hm fun a ha => ih _ (by simp [children, ha]))
      fun context hcontext => ?_
    refine .bind (ih (.conDecl con) (by simp [children]) 0) fun con hcon => .pure ?_
    refine Mode.isItem_declaration hm.offside loc ?_
    have hhead := headed_head hm (s := "newtype") (by decide) hcontext hname hvars
    refine (hhead.besideText (Int.le_refl 1) true (by decide)).beside (Int.le_refl 1) ?_ true
    rw [Mode.aboveOrBeside, if_pos hm.isVertical]
    exact ((Headed.flush hcon).above hderivings).settled
  | infixDecl loc assoc prec ops =>
    refine .guard fun _ => .pure (Mode.isItem_declaration hm.offside loc (hm.headed_sepFirst ?_ ?_))
    · exact ih (.assoc assoc) (by simp [children]) 0 rfl
    · have hops : ∀ d ∈ ops.map Op.doc, d.Headed 1 := by
        simp only [List.forall_mem_map]
        exact fun o ho => ih (.op o) (by simp [children, ho]) 0 rfl
      simp only [List.forall_mem_cons]
      exact ⟨.ofText (isWord_decimalText _).2, fun d hd =>
        (Headed.punctuate hops (Int.le_refl 1) d hd).flush⟩
  | classDecl loc context name vars decls =>
    have hname := hname name (by simp [children])
    have hvars := hnames vars fun n hn => by simp [children, hn]
    have hdecls :=
      Decl.flush_pretties fun d (hd : d ∈ decls) => ih (.decl d) (by simp [children, hd])
    refine .bind (Context.flush_pretty hm fun a ha => ih _ (by simp [children, ha]))
      fun context hcontext => ?_
    refine .bind hdecls fun docs hdocs => .pure (Mode.isItem_declaration hm.offside loc ?_)
    refine headed_classDoc hm (.ofText (by decide)) ?_ hdocs
    simp only [List.forall_mem_cons]
    exact ⟨hcontext, hname.flush, fun e he => (hvars e he).flush⟩
  | instDecl loc context className types decls =>
    have hclass : className.doc.Headed 1 := (ih (.qname className) (by simp [children]) 0 rfl).1
    have hdecls :=
      Decl.flush_pretties fun d (hd : d ∈ decls) => ih (.decl d) (by simp [children, hd])
    rw [Decl.pretty, Ty.pretties_eq]
    refine .bind (.mapM fun t ht => ih (.ty t) (by simp [children, ht]) 2) fun types htypes => ?_
    refine .bind (Context.flush_pretty hm fun a ha => ih _ (by simp [children, ha]))
      fun context hcontext => ?_
    refine .bind hdecls fun docs hdocs => .pure (Mode.isItem_declaration hm.offside loc ?_)
    refine headed_classDoc hm (.ofText (by decide)) ?_ hdocs
    simp only [List.forall_mem_cons]
    exact ⟨hcontext, hclass.flush, fun e he => Headed.flush (htypes e he)⟩
  | defaultDecl loc types =>
    rw [Decl.pretty, Ty.pretties_eq]
    refine .bind (.mapM fun t ht => ih (.ty t) (by simp [children, ht]) 0)
      fun types htypes => .pure ?_
    exact Mode.isItem_declaration hm.offside loc
      (.textBeside (by decide) true (hm.headed_parenList htypes).settled)
  | typeSig loc names ty =>
    refine .guard fun hne => .bind (ih (.qualType ty) (by simp [children]) 0) fun ty hty => .pure ?_
    have hdocs := Headed.punctuate (hnames names fun n hn => by simp [children, hn]) (Int.le_refl 1)
    have hdocsne : punctuate comma (names.map Name.doc) ≠ [] :=
      Headed.punctuate_ne_nil (by simpa using hne) comma
    obtain ⟨d, ds, hds⟩ := List.exists_cons_of_ne_nil hdocsne
    rw [hds] at hdocs ⊢
    obtain ⟨hd, hrest⟩ := List.forall_mem_cons.mp hdocs
    rw [List.cons_append]
    refine Mode.isItem_declaration hm.offside loc (hm.headed_sepFirst hd ?_)
    simp only [List.forall_mem_append, List.forall_mem_cons]
    exact ⟨fun e he => (hrest e he).flush, .ofText (by decide), Headed.flush hty, by simp⟩
  | foreignImport loc callConv safety entity name ty =>
    have hname := hname name (by simp [children])
    have hconv : IsWord callConv := hwords callConv (by simp [Node.words])
    have hsafety : safety.doc.Headed 1 := ih (.safety safety) (by simp [children]) 0 rfl
    refine .bind (ih (.ty ty) (by simp [children]) 0) fun ty hty => .pure ?_
    refine Mode.isItem_declaration hm.offside loc (hm.headed_sepFirst (.ofText (by decide)) ?_)
    simp only [List.forall_mem_cons]
    exact ⟨.ofText (by decide), .ofText hconv.2, hsafety.flush, flush_entityDoc entity, hname.flush,
      .ofText (by decide), Headed.flush hty, by simp⟩
  | foreignExport loc callConv entity name ty =>
    have hname := hname name (by simp [children])
    have hconv : IsWord callConv := hwords callConv (by simp [Node.words])
    refine .bind (ih (.ty ty) (by simp [children]) 0) fun ty hty => .pure ?_
    refine Mode.isItem_declaration hm.offside loc (hm.headed_sepFirst (.ofText (by decide)) ?_)
    simp only [List.forall_mem_cons]
    exact ⟨.ofText (by decide), .ofText hconv.2, flush_entityDoc entity, hname.flush,
      .ofText (by decide), Headed.flush hty, by simp⟩
  | funBind clauses =>
    rw [Decl.pretty, Match.pretties_eq]
    refine .guard fun hne => ?_
    intro hfault
    rw [Checked.fault_bind, Option.or_eq_none_iff, Checked.fault_mapM] at hfault
    rw [Checked.value_bind, Checked.value_mapM]
    refine isItem_clauses hm (by simpa using hne) fun c hc => ?_
    exact ih (.clause c) (by simp [children, hc]) 0 (hfault.1 c hc)
  | patBind loc pat rhs wheres =>
    have hwheres :=
      Decl.flush_pretties fun d (hd : d ∈ wheres) => ih (.decl d) (by simp [children, hd])
    refine .bind (ih (.pat pat) (by simp [children]) 0) fun pat hpat => ?_
    refine .bind (ih (.rhs rhs) (by simp [children]) 0) fun rhs hrhs =>
      .bind hwheres fun docs hdocs => .pure ?_
    refine Mode.isItem_markLine hm.offside loc
      (hm.headed_aboveOrBeside (hm.headed_fillOnside hpat ?_) (hm.inset_whereClause hdocs))
    simpa using Headed.flush_of_nonneg hrhs (by decide)

/-! ### Modules -/

/-- A type or a class with some of its parts. -/
theorem headed_thingWith {name : Doc} (hname : name.Headed 1) {items : List CName}
    (hitems : ∀ c ∈ items, (Node.cname c).Printed m) :
    (name ++ m.parenList (items.map CName.doc)).Headed 1 := by
  have hdocs : ∀ d ∈ items.map CName.doc, d.Headed 1 := by
    simp only [List.forall_mem_map]
    exact fun c hc => hitems c hc 0 rfl
  exact hname.beside (Int.le_refl 1) (hm.headed_parenList hdocs).settled false

theorem ExportSpec.headed_doc {e : ExportSpec} (ih : ∀ t ∈ e.children, t.Printed m) :
    (e.doc m).Headed 1 := by
  have hname : ∀ q : QName, .qname q ∈ e.children → q.doc.Headed 1 := fun q hq => (ih _ hq 0 rfl).1
  cases e with
  | var name => exact hname name (by simp [children])
  | abs name => exact hname name (by simp [children])
  | thingAll name =>
    exact (hname name (by simp [children])).besideText (Int.le_refl 1) false (by decide)
  | thingWith name items =>
    exact headed_thingWith hm (hname name (by simp [children])) fun c hc =>
      ih (.cname c) (by simp [children, hc])
  | moduleContents module =>
    have hmodule : module.doc.Headed 1 := ih (.moduleName module) (by simp [children]) 0 rfl
    exact .textBeside (by decide) true hmodule.settled

theorem ImportSpec.headed_doc {i : ImportSpec} (ih : ∀ t ∈ i.children, t.Printed m) :
    (i.doc m).Headed 1 := by
  have hname : ∀ n : Name, .name n ∈ i.children → n.doc.Headed 1 := fun n hn => (ih _ hn 0 rfl).1
  cases i with
  | var name => exact hname name (by simp [children])
  | abs name => exact hname name (by simp [children])
  | thingAll name =>
    exact (hname name (by simp [children])).besideText (Int.le_refl 1) false (by decide)
  | thingWith name items =>
    exact headed_thingWith hm (hname name (by simp [children])) fun c hc =>
      ih (.cname c) (by simp [children, hc])

theorem ImportSpecs.headed_doc {s : ImportSpecs}
    (ih : ∀ t ∈ (Node.importSpecs s).children, t.Printed m) : (s.doc m).Headed 1 := by
  have hitems : ∀ d ∈ s.items.map (ImportSpec.doc m), d.Headed 1 := by
    simp only [List.forall_mem_map]
    exact fun i hi => ih (.importSpec i) (by simp [Node.children, hi]) 0 rfl
  unfold ImportSpecs.doc
  split_ifs
  · exact .textBeside (by decide) true (hm.headed_parenList hitems).settled
  · exact hm.headed_parenList hitems

theorem ImportDecl.isItem_doc {i : ImportDecl}
    (ih : ∀ t ∈ (Node.importDecl i).children, t.Printed m) :
    (i.doc m).IsItem [m.pragma i.loc] ∧ (i.doc m).lead = 0 := by
  have hqualified : (if i.qualified then text "qualified" else .empty).Flush := by
    split_ifs
    · exact .ofText (by decide)
    · exact .empty
  have hmodule : i.module.doc.Headed 1 := ih (.moduleName i.module) (by simp [Node.children]) 0 rfl
  have has : (i.asName.elim .empty fun a => (text "as").appendSpace a.doc).Flush := by
    cases h : i.asName with
    | none => exact .empty
    | some a =>
      have ha : a.doc.Headed 1 := ih (.moduleName a) (by simp [Node.children, h]) 0 rfl
      exact (Headed.textBeside (by decide) true ha.settled).flush
  have hspecs : (i.specs.elim .empty (ImportSpecs.doc m)).Flush := by
    cases h : i.specs with
    | none => exact .empty
    | some s => exact Headed.flush (ih (.importSpecs s) (by simp [Node.children, h]) 0 rfl)
  refine Mode.isItem_markLine hm.offside i.loc (hm.headed_sepFirst (.ofText (by decide)) ?_)
  simp only [List.forall_mem_cons]
  exact ⟨hqualified, hmodule.flush, has, hspecs, by simp⟩

theorem Module.headed_header {mod : Module} (ih : ∀ t ∈ (Node.module mod).children, t.Printed m) :
    (mod.header m).Headed 1 := by
  have hname : mod.name.doc.Headed 1 := ih (.moduleName mod.name) (by simp [Node.children]) 0 rfl
  have hexports :
      (mod.exports.elim .empty fun specs => m.parenList (specs.map (ExportSpec.doc m))).Flush := by
    cases h : mod.exports with
    | none => exact .empty
    | some specs =>
      refine (hm.headed_parenList ?_).flush
      simp only [List.forall_mem_map]
      exact fun e he => ih (.exportSpec e) (by simp [Node.children, h, he]) 0 rfl
  refine hm.headed_sepFirst (.ofText (by decide)) ?_
  simp only [List.forall_mem_cons]
  exact ⟨hname.flush, hexports, .ofText (by decide), by simp⟩

theorem Module.headed_pretty {mod : Module} (ih : ∀ t ∈ (Node.module mod).children, t.Printed m) :
    (mod.pretty m).Meets (Headed 0) := by
  have himports : ∀ d ∈ mod.imports.map (ImportDecl.doc m), d.Flush := by
    simp only [List.forall_mem_map]
    exact fun i hi => (ih (.importDecl i) (by simp [Node.children, hi]) 0 rfl).1.flush
  have hdecls :=
    Decl.flush_pretties fun d (hd : d ∈ mod.decls) => ih (.decl d) (by simp [Node.children, hd])
  refine .bind hdecls fun docs hdocs => .pure ?_
  have htop :
      (m.topLevel (mod.header m) (mod.imports.map (ImportDecl.doc m) ++ docs)).Headed 0 := by
    rw [Mode.topLevel, hm.offside]
    refine ((Module.headed_header hm ih).mono (by decide)).above (Flush.vcat ?_)
    exact List.forall_mem_append.mpr ⟨himports, hdocs⟩
  rcases Mode.markLine_eq hm.offside mod.loc
      (m.topLevel (mod.header m) (mod.imports.map (ImportDecl.doc m) ++ docs))
    with ⟨hmark, -⟩ | ⟨p, hp, hmark, -⟩
  · rw [hmark]
    exact htop
  · rw [hmark]
    exact (hp.mono (by decide)).above (htop.flush_of_nonneg (Int.le_refl 0))

/-- Every well-formed tree with plain names prints what its category asks for. -/
theorem Node.PlainlyNamed.printed {t : Node} (ht : t.PlainlyNamed) : t.Printed m := by
  induction ht with
  | @intro t words below ih =>
    intro level
    cases t with
    | module node => exact Module.headed_pretty hm ih
    | exportSpec node => exact .pure (ExportSpec.headed_doc hm ih)
    | importDecl node => exact .pure (ImportDecl.isItem_doc hm ih)
    | importSpecs node => exact .pure (ImportSpecs.headed_doc hm ih)
    | importSpec node => exact .pure (ImportSpec.headed_doc hm ih)
    | decl node => exact Decl.isItem_pretty hm words ih
    | conDecl node => exact ConDecl.headed_pretty hm ih
    | fieldDecl node => exact FieldDecl.headed_pretty hm ih
    | bangType node => exact BangType.headed_pretty ih level
    | clause node => exact Match.isItem_pretty hm ih
    | rhs node => exact Rhs.headed_pretty hm ih
    | guardedRhs node => exact GuardedRhs.headed_pretty hm ih
    | assoc node =>
      refine .pure ?_
      cases node <;> exact .ofText (by decide)
    | safety node =>
      refine .pure ?_
      cases node <;> exact .ofText (by decide)
    | ty node => exact Ty.headed_pretty hm ih level
    | qualType node => exact QualType.headed_pretty hm ih
    | assertion node => exact Assertion.headed_pretty hm ih
    | name node => exact .pure ⟨Name.headed_doc (Name.headed_bare words), Name.headed_bare words⟩
    | qname node =>
      have hbare : node.bare.Headed 1 := by
        refine QName.headed_bare (ih (.name node.name) (by simp [children, QName.children]) 0 rfl).2
          fun q hq => ?_
        cases below (.moduleName q) (by simp [children, QName.children, Option.mem_def.mp hq]) with
        | intro words _ => exact words _ (by simp [Node.words])
      exact .pure ⟨QName.headed_doc hbare, hbare⟩
    | moduleName node => exact .pure (.ofText (words _ (by simp [Node.words])))
    | op node =>
      exact .pure (Name.headed_infixDoc (ih (.name node.name) (by simp [Node.children]) 0 rfl).2)
    | qop node =>
      exact .pure (QName.headed_infixDoc (ih (.qname node.name) (by simp [Node.children]) 0 rfl).2)
    | cname node => exact .pure (ih (.name node.name) (by simp [Node.children]) 0 rfl).1
    | literal node => exact .pure (Literal.headed_doc node)
    | pat node => exact Pat.headed_pretty hm ih level
    | patField node => exact PatField.headed_pretty hm ih
    | expr node => exact Expr.headed_pretty hm ih level
    | stmt node => exact Stmt.headed_pretty hm ih
    | fieldUpdate node => exact FieldUpdate.headed_pretty hm ih
    | alt node => exact Alt.headed_pretty hm ih
    | guardedAlts node => exact GuardedAlts.headed_pretty hm ih
    | guardedAlt node => exact GuardedAlt.headed_pretty hm ih

end

end Offside.Syntax
