import Offside.Proofs.Openings

/-!
# What printed documents are made of

A tree without a fault is printed as words that the combinators of its mode put together, and
nothing else. So what all these combinators keep holds of every printed document, and what holds of
the words of a tree and of the words that the printer adds holds of all its texts.
-/
namespace Offside

open Doc Syntax

namespace Syntax

/-- What the plans of trees keep: `Part` of what is put together in a plan, and `Whole` of what is
printed for a tree. Both are about the documents of all modes at once, and `P` is about the
words. -/
structure Sketch.Keeps (P : String → Prop) (Whole Part : (Mode → Doc) → Prop) : Prop where
  nothing : Part fun _ => .empty
  word {s : String} : P s → Part fun _ => .text s
  tree {d : Mode → Doc} : Whole d → Part d
  beside {l r : Mode → Doc} (spaced : Bool) : Part l → Part r →
    Part fun m => (l m).beside spaced (r m)
  upon {u l : Mode → Doc} : Part u → Part l → Part fun m => m.aboveOrBeside (u m) (l m)
  row (arrangement : Row) {ds : List (Mode → Doc)} :
    (∀ d ∈ ds, Part d) → Part fun m => arrangement.doc m (ds.map (· m))
  clauses {ds : List (Mode → Doc)} : (∀ d ∈ ds, Whole d) → Part fun m => m.clauses (ds.map (· m))
  block (indent : Mode → Nat) {ds : List (Mode → Doc)} :
    (∀ d ∈ ds, Whole d) → Part fun m => m.block (indent m) (ds.map (· m))
  wheres {ds : List (Mode → Doc)} : (∀ d ∈ ds, Whole d) → Part fun m => m.whereClause (ds.map (· m))
  topLevel {keyword : String} {header ds : List (Mode → Doc)} : P keyword → (∀ d ∈ header, Part d) →
    (∀ d ∈ ds, Whole d) →
      Part fun m => m.topLevel (m.sepFirst (.text keyword :: header.map (· m))) (ds.map (· m))
  introduce (t : Node) {d : Mode → Doc} :
    Part d → (∀ m, ∃ w, (d m).Begins w) → Whole fun m => t.introduce m (d m)

namespace Sketch.Keeps

variable {P : String → Prop} {Whole Part : (Mode → Doc) → Prop} (h : Keeps P Whole Part)
include h

/-- A plan keeps what holds of the trees below. -/
theorem doc {t : Node} (hbelow : ∀ c ∈ t.children, ∀ level, Whole fun m => (c.pretty m level).value)
    {s : Sketch} (hs : s.Belongs P t) : Part fun m => s.doc m := by
  have hitems : ∀ {items : List Node}, (∀ c ∈ items, c ∈ t.children) →
      ∀ d ∈ items.map fun c m => c.doc m, Whole d :=
    fun hmem => List.forall_mem_map.mpr fun c hc => hbelow c (hmem c hc) 0
  have hblock : ∀ i ∈ t.items, i ∈ t.children := fun i => Node.mem_children_of_items
  induction s using Sketch.inductOn with
  | nothing => exact h.nothing
  | word s => exact h.word (by simpa using hs)
  | tree c level => exact h.tree (hbelow c (by simpa using hs) level)
  | beside l spaced r ihl ihr =>
    obtain ⟨hl, hr⟩ := (belongs_append l r).mp hs
    exact h.beside spaced (ihl hl) (ihr hr)
  | upon u l ihu ihl =>
    obtain ⟨hu, hl⟩ := (belongs_upon u l).mp hs
    exact h.upon (ihu hu) (ihl hl)
  | row arrangement parts ih =>
    have hparts : ∀ d ∈ parts.map fun s m => s.doc m, Part d :=
      List.forall_mem_map.mpr fun s hmem => ih s hmem ((belongs_row _ _).mp hs s hmem)
    simpa [doc_row, Function.comp_def] using h.row arrangement hparts
  | clauses items =>
    simpa [Function.comp_def] using h.clauses (hitems ((belongs_clauses items).mp hs))
  | block indent items =>
    obtain ⟨rfl, -⟩ := (belongs_block indent items).mp hs
    simpa [Function.comp_def] using h.block indent (hitems hblock)
  | wheres items =>
    have hchildren : ∀ c ∈ items, c ∈ t.children := by
      rcases (belongs_wheres items).mp hs with rfl | ⟨rfl, -⟩
      · simp
      · exact hblock
    simpa [Function.comp_def] using h.wheres (hitems hchildren)
  | topLevel keyword header items ih =>
    obtain ⟨hkeyword, hheader, hchildren⟩ := (belongs_topLevel keyword header items).mp hs
    have hparts : ∀ d ∈ header.map fun s m => s.doc m, Part d :=
      List.forall_mem_map.mpr fun s hmem => ih s hmem (hheader s hmem)
    simpa [Function.comp_def] using h.topLevel hkeyword hparts (hitems hchildren)

/-- What the plans keep holds of all that is printed for a tree without a fault. -/
theorem pretty (hP : Phrasing P) {t : Node} (ht : t.WellFormed) (hw : t.Worded P) (level : Nat) :
    Whole fun m => (t.pretty m level).value := by
  induction t using Node.inductOn generalizing level with
  | step t ih =>
    obtain ⟨hlack, hbelow⟩ := Node.wellFormed_iff.mp ht
    rw [List.forall_iff_forall_mem] at hbelow
    simp only [Node.value_pretty _ hlack level]
    apply h.introduce t (h.doc (fun c hc => ih c hc (hbelow c hc) (hw.child hc))
      (hw.belongs hP level))
    intro m
    obtain ⟨w, hbegins, -⟩ :=
      Node.begins_sketch hP hlack hw (fun c hc => (hbelow c hc).begins hP (hw.child hc) m) level
    exact ⟨w, hbegins⟩

end Sketch.Keeps

end Syntax

/-! ### What every mode keeps -/

/-- What the combinators of documents keep, if `P` holds of the texts. -/
structure Doc.Kept (P : String → Prop) (Q : Doc → Prop) : Prop where
  empty : Q .empty
  text {s : String} : P s → Q (.text s)
  beside {l r : Doc} (spaced : Bool) : Q l → Q r → Q (l.beside spaced r)
  above {u l : Doc} : Q u → Q l → Q (u.above l)
  nest (k : Int) {d : Doc} : Q d → Q (d.nest k)
  fsep {ds : List Doc} : (∀ d ∈ ds, Q d) → Q (fsep ds)

namespace Doc.Kept

variable {P : String → Prop} {Q : Doc → Prop} (hQ : Kept P Q) {d : Doc} {ds : List Doc}
include hQ

theorem hsep (hds : ∀ d ∈ ds, Q d) : Q (hsep ds) :=
  List.foldlRecOn ds appendSpace hQ.empty fun _ hd e he => hQ.beside true hd (hds e he)

theorem vcat (hds : ∀ d ∈ ds, Q d) : Q (vcat ds) :=
  List.foldlRecOn ds Doc.above hQ.empty fun _ hd e he => hQ.above hd (hds e he)

theorem aboveOrBeside (m : Mode) {u l : Doc} (hu : Q u) (hl : Q l) : Q (m.aboveOrBeside u l) := by
  unfold Mode.aboveOrBeside
  split
  · exact hQ.above hu hl
  · exact hQ.beside true hu hl

theorem row (m : Mode) (arrangement : Row) (hds : ∀ d ∈ ds, Q d) : Q (arrangement.doc m ds) := by
  have hfilter : ∀ {es : List Doc} {e : Doc}, ds.filter (fun d => !d.isEmpty) = e :: es →
      Q e ∧ ∀ d ∈ es, Q d :=
    fun heq => List.forall_mem_cons.mp (heq ▸ fun d hd => hds d (List.mem_of_mem_filter hd))
  cases arrangement with
  | sepFirst =>
    simp only [Row.doc, Mode.sepFirst]
    split
    · split
      · exact hQ.empty
      · next heq =>
        obtain ⟨he, hes⟩ := hfilter heq
        exact hQ.beside true he (hQ.fsep hes)
    · exact hQ.hsep hds
  | lines =>
    simp only [Row.doc, Mode.lines]
    split
    · exact hQ.vcat hds
    · exact hQ.hsep hds
  | fill =>
    simp only [Row.doc, Mode.fill]
    split
    · exact hQ.fsep hds
    · exact hQ.hsep hds
  | fillOnside =>
    simp only [Row.doc, Mode.fillOnside]
    split
    · split
      · exact hQ.empty
      · next heq =>
        obtain ⟨he, hes⟩ := hfilter heq
        exact hQ.nest _ (hQ.fsep (List.forall_mem_cons.mpr ⟨hQ.nest _ he, hes⟩))
    · exact hQ.hsep hds

variable (hP : ∀ s : String, '\n' ∉ s.toList → P s)
include hP

theorem mark {s : String} (hs : '\n' ∉ s.toList) : Q (.text s) := hQ.text (hP s hs)

theorem braces (hd : Q d) : Q d.braces :=
  hQ.beside false (hQ.beside false (hQ.mark hP (by decide)) hd) (hQ.mark hP (by decide))

theorem punctuate (hds : ∀ d ∈ ds, Q d) : ∀ d ∈ punctuate semi ds, Q d := by
  fun_induction Doc.punctuate semi ds with
  | case1 => exact hds
  | case2 d => exact hds
  | case3 d ds _ ih =>
    rw [List.forall_mem_cons] at hds ⊢
    exact ⟨hQ.beside false hds.1 (hQ.mark hP (by decide)), ih hds.2⟩

theorem clauses (m : Mode) (hds : ∀ d ∈ ds, Q d) : Q (m.clauses ds) := by
  have hmembers := hQ.punctuate hP hds
  unfold Mode.clauses
  split
  · exact hQ.vcat hds
  · exact hQ.vcat hmembers
  · exact hQ.hsep hmembers
  · exact hQ.hsep hmembers

theorem block (m : Mode) (indent : Nat) (hds : ∀ d ∈ ds, Q d) : Q (m.block indent ds) := by
  have hmembers := hQ.punctuate hP hds
  have hspace : Q space := hQ.mark hP (by decide)
  unfold Mode.block
  split
  · exact hQ.nest _ (hQ.vcat hds)
  · exact hQ.nest _ (hQ.braces hP (hQ.beside false hspace (hQ.vcat hmembers)))
  · exact hQ.braces hP (hQ.beside false hspace (hQ.hsep hmembers))
  · exact hQ.braces hP (hQ.beside false hspace (hQ.hsep hmembers))

theorem whereClause (m : Mode) (hds : ∀ d ∈ ds, Q d) : Q (m.whereClause ds) := by
  unfold Mode.whereClause
  split
  · exact hQ.empty
  · exact hQ.nest 2 (hQ.aboveOrBeside m (hQ.mark hP (by decide)) (hQ.block hP m _ hds))

theorem topLevel (m : Mode) (hd : Q d) (hds : ∀ d ∈ ds, Q d) : Q (m.topLevel d ds) := by
  have hmembers := hQ.punctuate hP hds
  unfold Mode.topLevel
  split
  · exact hQ.above hd (hQ.vcat hds)
  · exact hQ.above hd (hQ.braces hP (hQ.vcat hmembers))
  · exact hQ.above hd (hQ.braces hP (hQ.vcat hmembers))
  · exact hQ.beside true hd (hQ.braces hP (hQ.hsep hmembers))

theorem introduce (m : Mode) (t : Node) (hd : Q d) : Q (t.introduce m d) := by
  have hpragma : ∀ line file, Q (Mode.linePragma line file) := fun line file =>
    hQ.mark hP (isWord_linePragma line file).2
  have hmarked : Q (t.mark?.elim d fun loc => m.markLine loc d) := by
    cases t.mark? with
    | none => exact hd
    | some loc =>
      simp only [Option.elim, Mode.markLine]
      split_ifs
      · exact hd
      · exact hQ.above (hpragma _ _) hd
      · exact hQ.beside true (hpragma _ _) hd
  simp only [Node.introduce, Mode.blankLine]
  split_ifs
  · exact hQ.above (hQ.mark hP (by decide)) hmarked
  · exact hmarked
  · exact hmarked

/-- The combinators of a mode keep what those of documents keep. -/
theorem keeps (m : Mode) : Sketch.Keeps P (fun d => Q (d m)) fun d => Q (d m) where
  nothing := hQ.empty
  word hs := hQ.text hs
  tree hd := hd
  beside spaced hl hr := hQ.beside spaced hl hr
  upon hu hl := hQ.aboveOrBeside m hu hl
  row arrangement _ hds := hQ.row m arrangement (List.forall_mem_map.mpr hds)
  clauses hds := hQ.clauses hP m (List.forall_mem_map.mpr hds)
  block indent _ hds := hQ.block hP m (indent m) (List.forall_mem_map.mpr hds)
  wheres hds := hQ.whereClause hP m (List.forall_mem_map.mpr hds)
  topLevel hkeyword hheader hds := by
    have hwords := List.forall_mem_cons.mpr ⟨hQ.text hkeyword, List.forall_mem_map.mpr hheader⟩
    exact hQ.topLevel hP m (hQ.row m .sepFirst hwords) (List.forall_mem_map.mpr hds)
  introduce t _ hd _ := hQ.introduce hP m t hd

end Doc.Kept

/-! ### Texts without line breaks -/

theorem Syntax.IsOwnWord.isWord {s : String} (hs : IsOwnWord s) : IsWord s := by
  cases hs with
  | sign hs =>
    have hall : ∀ s ∈ signs, IsWord s := by decide
    exact hall s hs
  | char c => exact isWord_charLiteral c
  | string s => exact isWord_stringLiteral s
  | decimal n => exact isWord_decimalText n
  | real x => exact isWord_realText x
  | special con => exact isWord_special con
  | pragma line file => exact isWord_linePragma line file

theorem Doc.kept_plain : Kept (fun s => '\n' ∉ s.toList) Plain where
  empty := .empty
  text hs := by simpa [Plain, leaves] using hs
  beside spaced hl hr := hl.beside hr spaced
  above hu hl := hu.stack hl true
  nest k _ hd := hd.nest k
  fsep hds := .group hds true true

/-- The texts of a tree have no line breaks if its names and calling conventions have none. -/
theorem Syntax.Node.WellFormed.plain {t : Node} (ht : t.WellFormed)
    (hw : t.Worded fun w => '\n' ∉ w.toList) (m : Mode) (level : Nat) :
    (t.pretty m level).value.Plain := by
  have hphrasing : Phrasing fun s => '\n' ∉ s.toList :=
    ⟨fun s hs => hs.isWord.2, fun s hs => by simpa using hs⟩
  exact (kept_plain.keeps (fun _ hs => hs) m).pretty hphrasing ht hw level

end Offside
