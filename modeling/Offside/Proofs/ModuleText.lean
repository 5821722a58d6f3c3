import Offside.Proofs.OneLine
import Offside.Proofs.Openings
import Offside.Proofs.StackedLines

/-!
# The text of a module

In the offside layout the imports and declarations of a module stand below its header, each on lines
of its own. Each of them starts at the margin, so none can go on a line of the one before it, and no
layout depends on the lines above it. So the text of a module is the text of its header followed,
line by line, by the texts of its items.
-/
namespace Offside

open Doc Syntax

variable {style : Style}

/-- A document that starts at the margin goes below any other one on a line of its own. -/
theorem chunks_above (hstyle : style.discipline ≠ .oneLine) {u l : Doc}
    (hu : u.isEmpty = false) {w : String} (hl : l.Begins w) :
    (u.above l).chunks style = u.chunks style ++ .newline :: l.chunks style := by
  have hstacked : u.above l = .stacked u true l := by
    unfold above stack
    rw [hu, hl.isEmpty]
    rfl
  rw [hstacked]
  apply chunks_stacked hstyle
  rw [hl.lead]
  exact .inr (lastColumn_nonneg style u)

/-- Documents that start at the margin below another one, one after the other. -/
theorem chunks_foldl_above (hstyle : style.discipline ≠ .oneLine) {u : Doc} (hu : u.isEmpty = false)
    {ds : List Doc} (hds : ∀ d ∈ ds, ∃ w, d.Begins w) :
    (ds.foldl above u).chunks style =
      u.chunks style ++ ds.flatMap fun d => .newline :: d.chunks style := by
  induction ds generalizing u with
  | nil => simp
  | cons d ds ih =>
    obtain ⟨⟨w, hd⟩, hds⟩ := List.forall_mem_cons.mp hds
    rw [List.foldl_cons, ih (by simp [hu]) hds, chunks_above hstyle hu hd, List.flatMap_cons,
      List.append_assoc]

/-- The same for documents that are put together before they go below the other one. -/
theorem chunks_above_vcat (hstyle : style.discipline ≠ .oneLine) {u : Doc} (hu : u.isEmpty = false)
    {ds : List Doc} (hds : ∀ d ∈ ds, ∃ w, d.Begins w) :
    (u.above (vcat ds)).chunks style =
      u.chunks style ++ ds.flatMap fun d => .newline :: d.chunks style := by
  cases ds with
  | nil =>
    cases u <;> simp [above, stack, vcat, isEmpty]
  | cons d ds =>
    obtain ⟨⟨w, hd⟩, hds⟩ := List.forall_mem_cons.mp hds
    have hvcat : vcat (d :: ds) = ds.foldl above d := rfl
    have hbegins : (ds.foldl above d).Begins w := hd.foldl (fun _ e hd => hd.above e) ds
    rw [hvcat, chunks_above hstyle hu hbegins, chunks_foldl_above hstyle hd.isEmpty hds]
    simp

/-- The text of documents on lines of their own. -/
theorem textOf_lines (ds : List Doc) :
    Chunk.textOf (ds.flatMap fun d => .newline :: d.chunks style) =
      String.join ((ds.map (render style)).map ("\n" ++ ·)) := by
  induction ds with
  | nil => rfl
  | cons d ds ih =>
    have hline : Chunk.textOf (.newline :: d.chunks style) = "\n" ++ d.render style :=
      textOf_append [.newline] (d.chunks style)
    rw [List.flatMap_cons, textOf_append, ih, hline, List.map_cons, List.map_cons, String.join_cons]

namespace Syntax

/-- The line that a place takes above what it belongs to, if the mode asks for it. -/
def pragmaLine (style : Style) (m : Mode) (loc : Location) : List Chunk :=
  if !m.linePragmas || loc.isUnknown then []
  else (Mode.linePragma (loc.line.toNat - 1) loc.file).chunks style ++ [.newline]

theorem chunks_markLine (hstyle : style.discipline ≠ .oneLine) {m : Mode} (hm : m.layout = .offside)
    (loc : Location) {d : Doc} {w : String} (hd : d.Begins w) :
    (m.markLine loc d).chunks style = pragmaLine style m loc ++ d.chunks style := by
  unfold Mode.markLine pragmaLine
  split
  · rfl
  · rw [if_pos (Mode.isVertical_of_offside hm), chunks_above hstyle rfl hd, List.append_assoc]
    rfl

/-- What is written for a module is what is written for it without its items, and then every item on
its lines. -/
theorem Module.chunks_pretty (hstyle : style.discipline ≠ .oneLine) {m : Mode}
    (hm : m.layout = .offside) (mod : Module)
    (hitems : ∀ t ∈ (Node.module mod).items, ∃ w, (t.doc m).Begins w) (level : Nat) :
    ((Node.module mod).pretty m level).value.chunks style =
      ((Node.module { mod with imports := [], decls := [] }).pretty m level).value.chunks style ++
        ((Node.module mod).items.map (Node.doc m)).flatMap fun d => .newline :: d.chunks style := by
  let header := m.sepFirst (.text "module" :: mod.headerSketches.map (Sketch.doc m))
  have hheader : header.Begins "module" :=
    (Begins.text "module").row m .sepFirst (List.filter_cons_of_pos rfl)
  have hvalue : ∀ imports decls,
      ((Node.module { mod with imports := imports, decls := decls }).pretty m level).value =
        m.markLine mod.loc (header.above
          (vcat ((imports.map Node.importDecl ++ decls.map Node.decl).map (Node.doc m)))) := by
    intro imports decls
    rw [Node.value_pretty m rfl level]
    simp only [Node.introduce, Node.mark?, Node.isSpaced, Node.sketch, Sketch.doc_topLevel,
      Mode.topLevel, hm]
    rfl
  have hmarked : ∀ l : Doc, (m.markLine mod.loc (header.above l)).chunks style =
      pragmaLine style m mod.loc ++ (header.above l).chunks style := fun l =>
    chunks_markLine hstyle hm mod.loc (hheader.above l)
  have hdocs : ∀ d ∈ (mod.imports.map Node.importDecl ++ mod.decls.map Node.decl).map (Node.doc m),
      ∃ w, d.Begins w :=
    List.forall_mem_map.mpr hitems
  rw [hvalue mod.imports mod.decls, hvalue [] [], hmarked, hmarked,
    chunks_above_vcat hstyle hheader.isEmpty hdocs,
    chunks_above_vcat hstyle hheader.isEmpty (by simp), List.append_assoc]
  simp [Node.items]

/-- In the offside layout a module is printed as its header and then, each after a line break, its
imports and its declarations in order, all as they are printed alone. -/
theorem module_text_is_header_and_items {mod : Module}
    (hmod : (Node.module mod).WellFormed) {m : Mode} (hm : m.layout = .offside)
    (hstyle : style.discipline ≠ .oneLine) (level : Nat) :
    ∃ header texts,
      (Node.module { mod with imports := [], decls := [] }).print style m level = .ok header ∧
      List.Forall₂ (fun t text => t.print style m 0 = .ok text)
        (mod.imports.map Node.importDecl ++ mod.decls.map Node.decl) texts ∧
      (Node.module mod).print style m level =
        .ok (header ++ String.join (texts.map ("\n" ++ ·))) := by
  have hitem : ∀ t ∈ (Node.module mod).items, t.WellFormed := fun t ht =>
    hmod.inside (.child (Node.mem_children_of_items ht) .here)
  have hbegins : ∀ t ∈ (Node.module mod).items, ∃ w, (t.doc m).Begins w :=
    fun t ht => (hitem t ht).exists_begins m 0
  have hempty : (Node.module { mod with imports := [], decls := [] }).WellFormed := by
    rw [Node.wellFormed_iff] at hmod ⊢
    simp_all [Node.children]
  refine ⟨_, ((Node.module mod).items.map (Node.doc m)).map (render style),
    hempty.print_eq style m level, ?_, ?_⟩
  · rw [List.map_map, List.forall₂_map_right_iff]
    exact List.forall₂_same.mpr fun t ht => (hitem t ht).print_eq style m 0
  · rw [hmod.print_eq, Doc.render, Module.chunks_pretty hstyle hm mod hbegins level, textOf_append,
      textOf_lines]
    rfl

theorem module_with_signature_is_header_and_items :
    let mod : Module :=
      { name := ⟨"M"⟩, imports := [{ module := ⟨"A"⟩ }],
        decls :=
          [.signature [.ident "f"] (.ofVar "a"),
            .simpleFun "f" [] (.doBlock [.qualifier .wildcard])] }
    let m : Mode := { layout := .offside, spacing := true }
    (Node.module mod).WellFormed ∧
      ∃ header imported signature function,
        (Node.module { mod with imports := [], decls := [] }).print {} m 0 = .ok header ∧
        (Node.importDecl { module := ⟨"A"⟩ }).print {} m 0 = .ok imported ∧
        (Node.decl (.signature [.ident "f"] (.ofVar "a"))).print {} m 0 = .ok signature ∧
        (Node.decl (.simpleFun "f" [] (.doBlock [.qualifier .wildcard]))).print {} m 0 =
          .ok function ∧
        (Node.module mod).print {} m 0 =
          .ok (header ++ ("\n" ++ imported ++ ("\n" ++ signature ++ ("\n" ++ function)))) := by
  intro mod m
  have hmod : (Node.module mod).WellFormed := by
    simp [mod, Node.wellFormed_iff, Node.children, Decl.signature, Decl.simpleFun, Match.ofRhs,
      Decl.children, Match.children, Rhs.children, Expr.children, Stmt.children, Ty.ofVar,
      QualType.ofTy, Ty.children]
  have hm : m.layout = .offside := rfl
  have hpage : ({} : Style).discipline ≠ .oneLine := by decide
  obtain ⟨header, texts, hheader, htexts, hprint⟩ := module_text_is_header_and_items hmod hm hpage 0
  obtain ⟨imported, _, himported, hdecls, rfl⟩ := List.forall₂_cons_left_iff.mp htexts
  obtain ⟨signature, _, hsignature, hbindings, rfl⟩ := List.forall₂_cons_left_iff.mp hdecls
  obtain ⟨function, _, hfunction, hnone, rfl⟩ := List.forall₂_cons_left_iff.mp hbindings
  obtain rfl := List.forall₂_nil_left_iff.mp hnone
  refine ⟨hmod, header, imported, signature, function, hheader, himported, hsignature,
    hfunction, ?_⟩
  simpa [String.join_cons] using hprint

end Syntax

end Offside
