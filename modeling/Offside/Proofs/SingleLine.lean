import Offside.Proofs.Composed

/-!
# Without a layout everything stands on one line

A document without groups and without one part above another is laid out piece by piece, and no page
can break it. Without a layout every combinator puts its parts side by side, so the printed document
of a tree is of this kind; it also starts at the left margin, so that all pages show the same text.
-/
namespace Offside

open Doc Syntax

namespace Doc

/-- Whether there is no group and no document above another one. -/
def isRow : Doc → Bool
  | .empty | .text _ => true
  | .nested _ d => d.isRow
  | .joined l _ r => l.isRow && r.isRow
  | .stacked _ _ _ | .grouped _ _ _ => false

/-- A row is laid out piece by piece, whatever the page. -/
theorem lay_of_isRow {d : Doc} (hd : d.isRow) (limits : Limits) (follow : Nat) (indent : Int)
    (fit : Fit) (c : Cursor) : d.lay limits follow indent fit c = writeRow d.row c := by
  induction d using Doc.inductOn generalizing follow indent c with
  | empty => rfl
  | text s =>
    rw [Doc.lay]
    exact (Laid.andThen_silent _).symm
  | nested k d ih =>
    rw [Doc.lay]
    exact ih hd ..
  | joined l spaced r ihl ihr =>
    rw [isRow, Bool.and_eq_true] at hd
    rw [Doc.lay, ihl hd.1, row, writeRow_append, writeRow_append, Laid.andThen_assoc]
    apply Laid.andThen_congr
    rw [writeRow_between, Laid.silent_andThen]
    exact ihr hd.2 ..
  | stacked u overlap l ihu ihl => simp [isRow] at hd
  | grouped fill spaced ds ih => simp [isRow] at hd

/-- A row that starts at the left margin and whose leaves satisfy `P`. -/
structure Straight (P : String → Prop) (d : Doc) : Prop where
  isRow : d.isRow = true
  lead : d.lead = 0
  leaves : ∀ s ∈ d.leaves, P s

namespace Straight

variable {P : String → Prop} {d : Doc}

/-- All pages show the same pieces of a straight row. -/
theorem chunks_eq (hd : d.Straight P) (style : Style) :
    d.chunks style = (writeRow d.row ⟨0, 0, 0, 0⟩).2 := by
  have hstart : Cursor.start style.discipline d = ⟨0, 0, 0, 0⟩ := by
    simp [Cursor.start, hd.lead]
  rw [chunks_eq_lay, lay_of_isRow hd.isRow, hstart]

theorem newline_notMem_chunks (hd : d.Straight P) (style : Style) : .newline ∉ d.chunks style := by
  rw [hd.chunks_eq]
  exact newline_notMem_writeRow _ _

theorem render_eq (hd : d.Straight P) (style : Style) : d.render style = d.flatText := by
  rw [Doc.render, hd.chunks_eq, textOf_writeRow, flatText]
  by_cases hblank : d.row.all Piece.isBlank
  · rw [if_pos hblank, rowText_of_blank hblank]
  · rw [if_neg hblank]
    simp [Chunk.toText]

/-- A straight row of leaves without line breaks has a text without line breaks. -/
theorem newline_notMem_render (hd : d.Straight fun s => '\n' ∉ s.toList) (style : Style) :
    '\n' ∉ (d.render style).toList := by
  have hplain : d.Plain := hd.leaves
  have hchunk : ∀ c ∈ d.chunks style, '\n' ∉ c.toText.toList := by
    intro c hc
    cases c with
    | text s => exact hplain.of_mem_chunks style hc
    | spaces n => simp [Chunk.toText, List.mem_replicate]
    | newline => exact absurd hc (hd.newline_notMem_chunks style)
  rw [Doc.render, textOf_eq_join, String.toList_join]
  simpa using hchunk

end Straight

end Doc

/-! ### Parts side by side -/

/-- A test that a row passes exactly if all its parts do. -/
structure Doc.Rowwise (f : Doc → Bool) : Prop where
  empty : f .empty = true
  text : ∀ s, f (.text s) = true
  nested : ∀ k d, f (.nested k d) = f d
  joined : ∀ l spaced r, f (.joined l spaced r) = (f l && f r)

namespace Doc.Rowwise

variable {f : Doc → Bool} (hf : Rowwise f) (d l r : Doc) (ds : List Doc)
include hf

theorem beside (spaced : Bool) : f (l.beside spaced r) = (f l && f r) := by
  unfold Doc.beside
  split_ifs with hl hr
  · rw [Doc.isEmpty_iff.mp hl, hf.empty, Bool.true_and]
  · rw [Doc.isEmpty_iff.mp hr, hf.empty, Bool.and_true]
  · exact hf.joined l spaced r

theorem append : f (l ++ r) = (f l && f r) := hf.beside l r false

theorem appendSpace : f (l.appendSpace r) = (f l && f r) := hf.beside l r true

theorem nest (k : Int) : f (d.nest k) = f d := by
  unfold Doc.nest
  split_ifs
  · rfl
  · exact hf.nested k d

theorem braces : f d.braces = f d := by
  rw [Doc.braces, hf.append, hf.append, lbrace, rbrace, hf.text, hf.text, Bool.true_and,
    Bool.and_true]

theorem hsep : f (hsep ds) = ds.all f := by
  have hfold : ∀ d : Doc, f (ds.foldl Doc.appendSpace d) = (f d && ds.all f) := by
    induction ds with
    | nil => simp
    | cons e ds ih =>
      intro d
      rw [List.foldl_cons, ih, hf.appendSpace, List.all_cons, Bool.and_assoc]
  rw [Doc.hsep, hfold, hf.empty, Bool.true_and]

theorem members : f (Doc.hsep (punctuate semi ds)) = ds.all f := by
  rw [hf.hsep]
  fun_induction punctuate semi ds with
  | case1 => rfl
  | case2 d => rfl
  | case3 d ds _ ih =>
    rw [List.all_cons, List.all_cons, ih, hf.append, semi, hf.text, Bool.and_true]

variable {m : Mode} (hm : m.isVertical = false)
include hm

theorem aboveOrBeside : f (m.aboveOrBeside l r) = (f l && f r) := by
  simp only [Mode.aboveOrBeside, hm]
  exact hf.appendSpace l r

theorem row (arrangement : Row) : f (arrangement.doc m ds) = ds.all f := by
  cases arrangement <;> simp [Row.doc, Mode.sepFirst, Mode.lines, Mode.fill,
    Mode.fillOnside, hm, hf.hsep]

theorem clauses : f (m.clauses ds) = ds.all f := by
  rw [← hf.members ds]
  unfold Mode.clauses
  cases hlayout : m.layout with
  | offside | semicolon => simp [Mode.isVertical, hlayout, Layout.isVertical] at hm
  | inline | none => rfl

theorem block (indent : Nat) : f (m.block indent ds) = ds.all f := by
  have hbraces : f (space ++ Doc.hsep (punctuate semi ds)).braces = ds.all f := by
    rw [hf.braces, hf.append, space, hf.text, hf.members, Bool.true_and]
  unfold Mode.block
  cases hlayout : m.layout with
  | offside | semicolon => simp [Mode.isVertical, hlayout, Layout.isVertical] at hm
  | inline | none => exact hbraces

theorem whereClause : f (m.whereClause ds) = ds.all f := by
  unfold Mode.whereClause
  split_ifs with hds
  · rw [List.isEmpty_iff.mp hds, hf.empty]
    rfl
  · rw [hf.nest, hf.aboveOrBeside _ _ hm, hf.block _ hm, hf.text, Bool.true_and]

theorem markLine (loc : Location) : f (m.markLine loc d) = f d := by
  have hpragma : f (Mode.linePragma loc.line.toNat loc.file) = true := hf.text _
  unfold Mode.markLine
  split_ifs with hmark hvertical
  · rfl
  · simp [hm] at hvertical
  · rw [hf.appendSpace, hpragma, Bool.true_and]

/-- Where nothing is stacked, plans keep the test if modules and what goes before a tree keep it. -/
theorem keeps {Whole : (Mode → Doc) → Prop} (htree : ∀ {d}, Whole d → f (d m) = true)
    (htop : ∀ {keyword : String} {header : List Doc} {ds : List (Mode → Doc)},
      f (m.sepFirst (.text keyword :: header)) = true → (∀ d ∈ ds, Whole d) →
        f (m.topLevel (m.sepFirst (.text keyword :: header)) (ds.map (· m))) = true)
    (hintroduce : ∀ (t : Node) {d : Mode → Doc}, f (d m) = true → (∀ m, ∃ w, (d m).Begins w) →
      Whole fun m => t.introduce m (d m)) :
    Sketch.Keeps (fun _ => True) Whole fun d => f (d m) = true := by
  have hall : ∀ {ds : List (Mode → Doc)}, (∀ d ∈ ds, f (d m) = true) →
      (ds.map (· m)).all f = true := by
    simp
  have hitems : ∀ {ds : List (Mode → Doc)}, (∀ d ∈ ds, Whole d) → (ds.map (· m)).all f = true :=
    fun hds => hall fun d hd => htree (hds d hd)
  constructor
  case nothing => exact hf.empty
  case word => exact fun _ => hf.text _
  case tree => exact htree
  case beside =>
    intro l r spaced hl hr
    rw [hf.beside, hl, hr, Bool.and_self]
  case upon =>
    intro u l hu hl
    rw [hf.aboveOrBeside _ _ hm, hu, hl, Bool.and_self]
  case row =>
    intro arrangement ds hds
    rw [hf.row _ hm, hall hds]
  case clauses =>
    intro ds hds
    rw [hf.clauses _ hm, hitems hds]
  case block =>
    intro indent ds hds
    rw [hf.block _ hm, hitems hds]
  case wheres =>
    intro ds hds
    rw [hf.whereClause _ hm, hitems hds]
  case topLevel =>
    intro keyword header ds _ hheader hds
    apply htop _ hds
    rw [← Row.doc, hf.row _ hm, List.all_cons, hf.text, hall hheader, Bool.and_self]
  case introduce => exact hintroduce

end Doc.Rowwise

theorem Doc.rowwise_isRow : Rowwise isRow := ⟨rfl, fun _ => rfl, fun _ _ => rfl, fun _ _ _ => rfl⟩

namespace Syntax

/-- Without a layout all that the combinators make is a row. -/
theorem keeps_isRow {m : Mode} (hm : m.layout = .none) :
    Sketch.Keeps (fun _ => True) (fun d => (d m).isRow = true) fun d => (d m).isRow = true := by
  have hvertical : m.isVertical = false := by
    rw [Mode.isVertical, hm]
    rfl
  have hrow := rowwise_isRow
  apply hrow.keeps hvertical
  · exact id
  · intro keyword header ds hheader hds
    have hmembers : (ds.map (· m)).all Doc.isRow = true := by simpa using hds
    simp only [Mode.topLevel, hm]
    rw [hrow.appendSpace, hheader, hrow.braces, hrow.members, hmembers, Bool.and_self]
  · intro t d hd _
    have hmarked : (t.mark?.elim (d m) fun loc => m.markLine loc (d m)).isRow = true := by
      cases t.mark? with
      | none => exact hd
      | some loc => exact (hrow.markLine _ hvertical loc).trans hd
    simpa [Node.introduce, Mode.blankLine, hm] using hmarked

/-- Without a layout a well-formed tree has a document without a group and without anything above
anything else. No page breaks a line in it, and every page shows its pieces one after the other. If
the names and the calling conventions of the tree have no line break, neither has the text. -/
theorem no_layout_prints_one_line {t : Node} (ht : t.WellFormed) {m : Mode} (hm : m.layout = .none)
    (level : Nat) :
    ∃ d, t.toDoc m level = .ok d ∧ d.isRow ∧ (∀ style, .newline ∉ d.chunks style) ∧
      (∀ style, t.print style m level = .ok d.flatText) ∧
      (t.Worded (fun w => '\n' ∉ w.toList) → '\n' ∉ d.flatText.toList) := by
  have hdoc := (ht.toDoc_eq m level).2
  have hrow : (t.pretty m level).value.isRow :=
    (keeps_isRow hm).pretty phrasing_true ht t.worded_true level
  obtain ⟨w, hbegins⟩ := ht.exists_begins m level
  have hd : (t.pretty m level).value.Straight fun _ => True :=
    ⟨hrow, hbegins.lead, fun _ _ => trivial⟩
  refine ⟨_, hdoc, hrow, hd.newline_notMem_chunks, fun style => ?_, fun hwords => ?_⟩
  · rw [Node.print, hdoc, ← hd.render_eq style]
    rfl
  · have hplain : Straight (fun s => '\n' ∉ s.toList) _ :=
      ⟨hrow, hbegins.lead, ht.plain hwords m level⟩
    rw [← hplain.render_eq {}]
    exact hplain.newline_notMem_render {}

theorem where_binding_prints_one_line :
    let bind (s : String) (body : Expr) (wheres : List Decl) : Decl :=
      .patBind { file := "M", line := 7 } (.var (.ident s)) (.unguarded body) wheres
    let t : Node := .decl (bind "x" (.doBlock [.qualifier .wildcard]) [bind "y" .wildcard []])
    let m : Mode := { layout := .none, spacing := true, linePragmas := true }
    let text :=
      "\x7b-# LINE 7 \"M\" #-\x7d x = do \x7b _\x7d where \x7b \x7b-# LINE 7 \"M\" #-\x7d y = _\x7d"
    t.WellFormed ∧ t.Worded (fun w => '\n' ∉ w.toList) ∧ (∀ style, t.print style m 0 = .ok text) ∧
      '\n' ∉ text.toList := by
  intro bind t m text
  have ht : t.WellFormed := by
    simp [t, bind, Node.wellFormed_iff, Node.children, Decl.children, Expr.children, Stmt.children,
      Rhs.children, Pat.children]
  have hwords : t.Worded fun w => '\n' ∉ w.toList := by
    simp [t, bind, Node.worded_iff, Node.words, Node.children, Decl.children, Expr.children,
      Stmt.children, Rhs.children, Pat.children]
  obtain ⟨d, hd, -, -, hprint, hplain⟩ := no_layout_prints_one_line ht (m := m) rfl 0
  have htext : d.flatText = text := by
    rw [← Except.ok.inj hd]
    decide
  rw [htext] at hprint hplain
  exact ⟨ht, hwords, hprint, hplain hwords⟩

end Syntax

end Offside
